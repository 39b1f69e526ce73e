import ConfigScript.Proofs.Salt.Sampling
import ConfigScript.Proofs.Store.Salted
import ConfigScript.Proofs.Store.Untouched

/-!
# New keys: every name is accounted for

A shuffle works in three passes: the names are sorted out, the values of the targets are found, and
then they are set one after the other. The first pass skips the names that are no targets
(`sortOut_eq`). What the last pass reports is told by the list of its values alone (`outcome_setAll`), each
of which is set, is refused with a reason, or is missing. All values have one source
(`outcome_newValues`): they are drawn here, or they are the service's.

The report counts names beside the lists that it makes of them. Each step keeps counts and lists in step
(`ShuffleReport.InStep`), so both passes do.
-/

namespace ConfigScript

/-! ### Reports -/

namespace ShuffleReport

variable {report : ShuffleReport}

/-- The counts of a report are those of its lists. -/
structure InStep (report : ShuffleReport) : Prop where
  skipped : report.skipped = report.skippedKeys.length
  errored : report.errored = report.failures.length

theorem inStep_empty : empty.InStep := ⟨rfl, rfl⟩

theorem InStep.skip (h : report.InStep) (key : String) : (report.skip key).InStep :=
  ⟨by simp [ShuffleReport.skip, h.skipped], h.errored⟩

theorem InStep.succeed (h : report.InStep) : report.succeed.InStep := ⟨h.skipped, h.errored⟩

theorem InStep.fail (h : report.InStep) (key reason : String) : (report.fail key reason).InStep :=
  ⟨h.skipped, by simp [ShuffleReport.fail, h.errored]⟩

/-- Count one more key, which was set unless there is a reason. -/
def tally (report : ShuffleReport) (key : String) : Option String → ShuffleReport
  | none => report.succeed
  | some reason => report.fail key reason

/-- Whatever became of a key, counting it keeps counts and lists in step. -/
theorem InStep.tally (h : report.InStep) (key : String) (reason : Option String) :
    (report.tally key reason).InStep := by
  cases reason with
  | none => exact h.succeed
  | some reason => exact h.fail key reason

/-- A key is counted once, whatever became of it. -/
theorem requested_tally (report : ShuffleReport) (key : String) (reason : Option String) :
    (report.tally key reason).requested = report.requested + 1 := by
  cases reason <;> simp only [requested, ShuffleReport.tally, succeed, fail] <;> omega

end ShuffleReport

namespace Store

open Operation OperationOn

variable {s : Store} {m m' : Machine} {env : Environment}

/-! ### The updates of a shuffle -/

/-- A shuffle that sets a constant by the given means. -/
def setAllBy (set : String → String → ShuffleReport → Operation ShuffleReport) :
    List (String × Option String) → ShuffleReport → Operation ShuffleReport
  | [], report => return report
  | (key, none) :: rest, report =>
    setAllBy set rest (report.fail key "the remote service did not provide a value")
  | (key, some value) :: rest, report => do setAllBy set rest (← set key value report)

/-- Give keys new values, which are set by the given means. -/
def shuffleBy (set : String → String → ShuffleReport → Operation ShuffleReport)
    (keys : List String) (force insecure : Bool) : Operation ShuffleReport := do
  let requested := if keys.isEmpty then Salt.names else keys
  let (targets, report) := sortOut force requested .empty
  let (values, remote) ← newValues targets insecure
  setAllBy set values { report with usedRemote := remote }

/-- The values that are there. -/
def present (values : List (String × Option String)) : List (String × String) :=
  values.filterMap fun x ↦ x.2.map (x.1, ·)

theorem present_none (key : String) (rest : List (String × Option String)) :
    present ((key, none) :: rest) = present rest := rfl

theorem present_some (key value : String) (rest : List (String × Option String)) :
    present ((key, some value) :: rest) = (key, value) :: present rest := rfl

/-- Values that are there belong to names in their order. -/
theorem names_present (values : List (String × Option String)) :
    ((present values).map (·.1)).Sublist (values.map (·.1)) := by
  induction values with
  | nil => exact .slnil
  | cons x rest ih =>
    obtain ⟨key, _ | value⟩ := x
    · exact ih.cons _
    · exact ih.cons_cons _

/-- Setting all values is setting them by the means of the store. -/
theorem setAll_eq_setAllBy (s : Store) (values : List (String × Option String))
    (report : ShuffleReport) : s.setAll values report = setAllBy s.setCounted values report := by
  induction values generalizing report with
  | nil => rfl
  | cons x rest ih =>
    obtain ⟨key, _ | value⟩ := x
    · exact ih _
    · exact congrArg (s.setCounted key value report >>= ·) (funext ih)

/-- The means of setting is asked for the values that are there only. -/
theorem setAllBy_congr {set set' : String → String → ShuffleReport → Operation ShuffleReport}
    {values : List (String × Option String)}
    (same : ∀ x ∈ present values, set' x.1 x.2 = set x.1 x.2) (report : ShuffleReport) :
    setAllBy set' values report = setAllBy set values report := by
  induction values generalizing report with
  | nil => rfl
  | cons x rest ih =>
    obtain ⟨key, _ | value⟩ := x
    · exact ih same _
    · rw [present_some, List.forall_mem_cons] at same
      show set' key value report >>= _ = set key value report >>= _
      rw [same.1]
      exact congrArg (set key value report >>= ·) (funext (ih same.2))

/-! ### Sorting out -/

/-- The names that are no targets are skipped one after the other. -/
theorem sortOut_eq (force : Bool) (keys : List String) (report : ShuffleReport) :
    sortOut force keys report =
      (keys.filter fun key ↦ force || Salt.isName key,
        (keys.filter fun key ↦ !(force || Salt.isName key)).foldl .skip report) := by
  induction keys generalizing report with
  | nil => rfl
  | cons key keys ih =>
    rw [sortOut, List.filter_cons, List.filter_cons]
    cases force || Salt.isName key
    · exact ih (report.skip key)
    · simp only [if_true, ih, Bool.not_true, Bool.false_eq_true, if_false]

/-- What skipping names counts, and that it counts nothing else. -/
theorem foldl_skip (keys : List String) (report : ShuffleReport) :
    keys.foldl .skip report = { report with
      skipped := report.skipped + keys.length
      skippedKeys := report.skippedKeys ++ keys } := by
  induction keys generalizing report with
  | nil => simp
  | cons key keys ih => simp [ih, ShuffleReport.skip, Nat.add_assoc, Nat.add_comm 1]

/-- What is sorted out: the targets, and a report that counts all other names as skipped. -/
theorem exists_sortOut (force : Bool) (keys : List String) : ∃ start,
    sortOut force keys .empty = (keys.filter fun key ↦ force || Salt.isName key, start) ∧
      start.InStep ∧ start.skippedKeys = keys.filter (fun key ↦ !(force || Salt.isName key)) ∧
      start.requested + (keys.filter fun key ↦ force || Salt.isName key).length = keys.length ∧
      start.succeeded = 0 ∧ start.failures = [] := by
  have inStep : ((keys.filter fun key ↦ !(force || Salt.isName key)).foldl .skip
      ShuffleReport.empty).InStep :=
    List.foldlRecOn _ _ ShuffleReport.inStep_empty fun report h key _ ↦ h.skip key
  have split := List.length_eq_length_filter_add (l := keys) fun key ↦ force || Salt.isName key
  refine ⟨_, sortOut_eq force keys .empty, inStep, ?_⟩
  rw [foldl_skip]
  refine ⟨rfl, ?_, rfl, rfl⟩
  show 0 + (0 + _) + 0 + _ = _
  omega

/-! ### What setting does -/

/-- The reason why a key is not set, or `none` if it is. -/
def reason : Except ConfigError Bool → Option String
  | .ok _ => none
  | .error e => some e.message

/-- Set one constant after the other, whichever of them can be set. -/
def setEach (s : Store) (env : Environment) (values : List (String × String)) : Environment :=
  values.foldl (fun env x ↦ (Edit.setInFile env s.path .const x.1 x.2.toList .standard).2) env

/-- For each key the reason why it is not set, or `none` if it is. -/
def reasons (s : Store) : List (String × Option String) → Environment → List (Option String)
  | [], _ => []
  | (_, none) :: rest, env => some "the remote service did not provide a value" :: reasons s rest env
  | (key, some value) :: rest, env =>
    let (r, env') := Edit.setInFile env s.path .const key value.toList .standard
    reason r :: reasons s rest env'

/-- The keys that are not set, with their reasons. -/
def failures (s : Store) (values : List (String × Option String)) (env : Environment) :
    List (String × String) := present ((values.map (·.1)).zip (s.reasons values env))

/-- For each value it is told whether it was set. -/
theorem length_reasons (s : Store) (values : List (String × Option String)) (env : Environment) :
    (s.reasons values env).length = values.length := by
  induction values generalizing env with
  | nil => rfl
  | cons x rest ih =>
    obtain ⟨key, _ | value⟩ := x
    · exact congrArg Nat.succ (ih env)
    · exact congrArg Nat.succ (ih _)

/-- Keys that are not set are keys, in their order. -/
theorem names_failures (s : Store) (values : List (String × Option String)) (env : Environment) :
    ((s.failures values env).map (·.1)).Sublist (values.map (·.1)) := by
  have names := names_present ((values.map (·.1)).zip (s.reasons values env))
  rwa [List.map_fst_zip (by rw [List.length_map, length_reasons])] at names

/-- Count keys, each with the reason why it is not set or `none` if it is. -/
def tallyAll (report : ShuffleReport) (counted : List (String × Option String)) : ShuffleReport :=
  counted.foldl (fun report x ↦ report.tally x.1 x.2) report

theorem inStep_tallyAll {report : ShuffleReport} (h : report.InStep)
    (counted : List (String × Option String)) : (tallyAll report counted).InStep :=
  List.foldlRecOn _ _ h fun _ h x _ ↦ h.tally x.1 x.2

/-- Every key that is counted adds to the number of keys that were asked for. -/
theorem requested_tallyAll (report : ShuffleReport) (counted : List (String × Option String)) :
    (tallyAll report counted).requested = report.requested + counted.length := by
  induction counted generalizing report with
  | nil => rfl
  | cons x counted ih =>
    refine (ih (report.tally x.1 x.2)).trans ?_
    rw [ShuffleReport.requested_tally, List.length_cons, Nat.add_assoc, Nat.add_comm 1]

/-- What counting keys that are set or not counts, and that it counts nothing else. -/
theorem tallyAll_eq (report : ShuffleReport) (counted : List (String × Option String)) :
    tallyAll report counted = { report with
      succeeded := report.succeeded + (counted.map (·.2)).count none
      errored := report.errored + (present counted).length
      failures := report.failures ++ present counted } := by
  induction counted generalizing report with
  | nil => simp [tallyAll, present]
  | cons x counted ih =>
    obtain ⟨key, _ | reason⟩ := x
    · refine (ih report.succeed).trans ?_
      simp [ShuffleReport.succeed, present_none, Nat.add_assoc, Nat.add_comm 1]
    · refine (ih (report.fail key reason)).trans ?_
      simp [ShuffleReport.fail, present_some, Nat.add_assoc, Nat.add_comm 1]

/-- Setting one key: the report counts it, or has the reason. -/
theorem outcome_setCounted (s : Store) (key value : String) (report : ShuffleReport) (m : Machine) :
    (s.setCounted key value report).outcome m =
      let (r, env) := Edit.setInFile m.environment s.path .const key value.toList .standard
      (.ok (report.tally key (reason r)), { m with environment := env }) := by
  rw [setCounted, outcome_tryCatch, outcome_bind, outcome_change]
  rcases Edit.setInFile m.environment s.path .const key value.toList .standard with ⟨e | changed, env⟩ <;>
    rfl

/-- What setting all values reports, and what it leaves behind. -/
theorem outcome_setAll (s : Store) (values : List (String × Option String)) (report : ShuffleReport)
    (m : Machine) :
    (s.setAll values report).outcome m =
      (.ok (tallyAll report ((values.map (·.1)).zip (s.reasons values m.environment))),
        { m with environment := s.setEach m.environment (present values) }) := by
  induction values generalizing report m with
  | nil => rfl
  | cons x rest ih =>
    obtain ⟨key, _ | value⟩ := x
    · exact ih _ m
    · rw [setAll, outcome_bind, outcome_setCounted]
      exact ih _ _

/-! ### The source of the values -/

/-- Values are drawn, or the service is asked once and its values are taken. -/
theorem outcome_newValues (targets : List String) (insecure : Bool) (m : Machine) :
    (newValues targets insecure).outcome m =
      match Salt.keysFor targets m.entropy with
      | (some keys, e) => (.ok (keys.map fun x ↦ (x.1, some x.2), false), { m with entropy := e })
      | (none, e) =>
        (((m.service.fetch insecure).bind fun body ↦
            (Salt.parse m.environment body).mapError .script).map fun salts ↦
              (targets.map fun name ↦ (name, Assoc.lookup name salts), true),
          { m with entropy := e, fetches := m.fetches + 1 }) := by
  have drawn : (drawKeys targets).outcome m = (.ok (Salt.keysFor targets m.entropy).1,
      { m with entropy := (Salt.keysFor targets m.entropy).2 }) := rfl
  rw [newValues, outcome_bind_ok drawn]
  rcases Salt.keysFor targets m.entropy with ⟨_ | keys, e⟩
  · dsimp only
    rw [outcome_bind, outcome_fetchSalts]
    cases (m.service.fetch insecure).bind fun body ↦
      (Salt.parse m.environment body).mapError ConfigError.script <;> rfl
  · rfl

/-- Keys that are drawn have 64 characters of the alphabet. -/
theorem sample_of_keysFor {targets : List String} {keys : List (String × String)} {e e' : Salt.Entropy}
    (drawn : Salt.keysFor targets e = (some keys, e')) {x : String × String} (mem : x ∈ keys) :
    x.2.length = 64 ∧ ∀ c ∈ x.2.toList, c ∈ Salt.alphabet := by
  obtain ⟨texts, all, length, rfl⟩ := Salt.drawAll_of_keysFor drawn
  obtain ⟨counts, samples, -⟩ := Salt.samples_of_drawAll all
  obtain ⟨text, here, same⟩ := List.mem_map.1 (List.of_mem_zip mem).2
  obtain ⟨i, at_⟩ := List.mem_iff_getElem?.1 here
  have bound : i < targets.length := by
    rw [← length]
    exact (List.getElem?_eq_some_iff.1 at_).1
  have asked : (targets.map fun _ ↦ 64)[i]? = some 64 := by simp [bound]
  obtain ⟨n, key, -, there, sample⟩ := samples.sample_at asked
  obtain rfl := Option.some.inj (at_.symm.trans there)
  rw [← same]
  exact ⟨by rw [String.length_ofList, sample.length_eq],
    fun c hc ↦ sample.mem_alphabet (by rwa [String.toList_ofList] at hc)⟩

/-! ### The account of a shuffle -/

/-- What became of the requested names: the targets have got the given values, as far as these are
there and could be set, and all other names were skipped. -/
structure Account (s : Store) (requested targets : List String) (values : List (String × Option String))
    (m m' : Machine) (report : ShuffleReport) : Prop where
  /-- Every target has its value. -/
  names_values : values.map (·.1) = targets
  /-- Every requested name is counted once. -/
  count : report.succeeded + report.skipped + report.errored = requested.length
  /-- A skipped name is counted. -/
  skipped_eq : report.skipped = report.skippedKeys.length
  /-- The targets that are counted as set are set. -/
  succeeded_eq : report.succeeded = (s.reasons values m.environment).count none
  /-- The reasons are those of the targets that are not set. -/
  failures_eq : report.failures = s.failures values m.environment
  /-- Every target that is not set has a reason. -/
  length_failures : report.failures.length = report.errored
  /-- The names with reasons are targets, in their order. -/
  names_failures : (report.failures.map (·.1)).Sublist targets
  /-- The names that are written are targets, in their order. -/
  names_written : ((present values).map (·.1)).Sublist targets
  /-- Nothing else is written. -/
  environment_eq : m'.environment = s.setEach m.environment (present values)

/-- Where the values of a shuffle are from. -/
inductive Source (targets : List String) (values : List (String × Option String)) (insecure : Bool)
    (m m' : Machine) : Bool → Prop
  /-- All of them are keys that are drawn here. -/
  | drawn (keys : (Salt.keysFor targets m.entropy).1 = some (present values))
      (fetches : m'.fetches = m.fetches)
      (fresh : ∀ x ∈ present values, x.2.length = 64 ∧ ∀ c ∈ x.2.toList, c ∈ Salt.alphabet) :
      Source targets values insecure m m' false
  /-- All of them are the service's values for their names. -/
  | fetched {body : List Char} {salts : List (String × String)}
      (dry : (Salt.keysFor targets m.entropy).1 = none)
      (fetches : m'.fetches = m.fetches + 1)
      (answer : m.service.fetch insecure = .ok body)
      (parsed : Salt.parse m.environment body = .ok salts)
      (own : ∀ x ∈ values, x.2 = Assoc.lookup x.1 salts) :
      Source targets values insecure m m' true

/-- The values are the service's just if the keys cannot be drawn here. -/
theorem Source.remote_iff {targets : List String} {values : List (String × Option String)}
    {insecure remote : Bool} (source : Source targets values insecure m m' remote) :
    remote = true ↔ (Salt.keysFor targets m.entropy).1 = none := by
  cases source with
  | drawn keys => simp [keys]
  | fetched dry => simp [dry]

theorem present_map_some (keys : List (String × String)) :
    present (keys.map fun x ↦ (x.1, some x.2)) = keys := by
  simp [present, List.filterMap_map]

/-- Values that are found are those of the targets and have one source. -/
theorem source_newValues {targets : List String} {insecure remote : Bool}
    {values : List (String × Option String)}
    (h : (newValues targets insecure).outcome m = (.ok (values, remote), m')) :
    values.map (·.1) = targets ∧ Source targets values insecure m m' remote := by
  rw [outcome_newValues] at h
  rcases drawn : Salt.keysFor targets m.entropy with ⟨_ | keys, e⟩ <;> rw [drawn] at h
  · dsimp only at h
    have dry := congrArg Prod.fst drawn
    cases answer : m.service.fetch insecure with
    | error e => rw [answer] at h; cases h
    | ok body =>
      cases parsed : Salt.parse m.environment body with
      | error e => rw [answer, Except.bind, parsed] at h; cases h
      | ok salts =>
        rw [answer, Except.bind, parsed] at h
        cases h
        refine ⟨by simp [Function.comp_def], .fetched dry rfl answer parsed fun x mem ↦ ?_⟩
        obtain ⟨name, -, rfl⟩ := List.mem_map.1 mem
        rfl
  · cases h
    have written := present_map_some keys
    refine ⟨?_, .drawn ?_ rfl fun x mem ↦ sample_of_keysFor drawn (written ▸ mem)⟩
    · rw [List.map_map]
      exact names_keysFor (congrArg Prod.fst drawn)
    · rw [written, drawn]

/-- The service is not asked any more once the values are found. -/
theorem Source.of_fetches_eq {targets : List String} {values : List (String × Option String)}
    {insecure remote : Bool} {m₁ : Machine} (source : Source targets values insecure m m₁ remote)
    (same : m'.fetches = m₁.fetches) : Source targets values insecure m m' remote := by
  cases source with
  | drawn keys fetches fresh => exact .drawn keys (same.trans fetches) fresh
  | fetched dry fetches answer parsed own =>
    exact .fetched dry (same.trans fetches) answer parsed own

/-- Setting the values of the targets accounts for every requested name, if all others are counted as
skipped. -/
theorem account_setAll {requested targets : List String} {values : List (String × Option String)}
    {m₁ : Machine} {start report : ShuffleReport} (names : values.map (·.1) = targets)
    (same : m₁.environment = m.environment) (inStep : start.InStep)
    (sorted : start.requested + targets.length = requested.length) (unset : start.succeeded = 0)
    (faultless : start.failures = [])
    (h : (s.setAll values start).outcome m₁ = (.ok report, m')) :
    Account s requested targets values m m' report := by
  rw [outcome_setAll, same] at h
  cases h
  have lengths : (values.map (·.1)).length = (s.reasons values m.environment).length := by
    rw [List.length_map, length_reasons]
  have tallied := tallyAll_eq start ((values.map (·.1)).zip (s.reasons values m.environment))
  have kept := inStep_tallyAll inStep ((values.map (·.1)).zip (s.reasons values m.environment))
  have failures : (tallyAll start ((values.map (·.1)).zip (s.reasons values m.environment))).failures =
      s.failures values m.environment := by
    rw [tallied]
    show start.failures ++ _ = _
    rw [faultless]
    rfl
  refine {
    names_values := names
    count := ?_
    skipped_eq := kept.skipped
    succeeded_eq := ?_
    failures_eq := failures
    length_failures := kept.errored.symm
    names_failures := ?_
    names_written := names ▸ names_present values
    environment_eq := rfl }
  · have counted := requested_tallyAll start ((values.map (·.1)).zip (s.reasons values m.environment))
    rw [List.length_zip, ← lengths, Nat.min_self] at counted
    exact counted.trans (by rw [names, sorted])
  · rw [tallied, List.map_snd_zip lengths.ge]
    show start.succeeded + _ = _
    rw [unset, Nat.zero_add]
  · rw [failures]
    exact names ▸ s.names_failures values m.environment

/-- A shuffle that does not fail accounts for every requested name: those that are no targets are
skipped, and are never set; of the targets each is set or has a reason; and the values are all drawn
here, or if that fails all the service's for their names, which is asked once. -/
theorem shuffle_accounts {keys : List String} {force insecure : Bool} {report : ShuffleReport}
    (h : (s.shuffle keys force insecure).outcome m = (.ok report, m')) :
    let requested := if keys.isEmpty then Salt.names else keys
    let targets := requested.filter fun key ↦ force || Salt.isName key
    report.skippedKeys = (if force then [] else requested.filter (!Salt.isName ·)) ∧
      (report.usedRemote = true ↔ (Salt.keysFor targets m.entropy).1 = none) ∧
      ∃ values, Account s requested targets values m m' report ∧
        Source targets values insecure m m' report.usedRemote ∧
        ∀ set, (∀ x ∈ present values, set x.1 x.2 = s.setCounted x.1 x.2) →
          (shuffleBy set keys force insecure).outcome m = (.ok report, m') := by
  intro requested targets
  obtain ⟨start, sorted, inStep, skippedKeys, counted, unset, faultless⟩ := exists_sortOut force requested
  obtain ⟨⟨values, remote⟩, m₁, found, run⟩ := exists_of_bind_ok h
  rw [sorted] at found run
  have begun : ({ start with usedRemote := remote } : ShuffleReport).InStep :=
    ⟨inStep.skipped, inStep.errored⟩
  obtain ⟨names, source⟩ : values.map (·.1) = targets ∧ Source targets values insecure m m₁ remote :=
    source_newValues found
  -- Finding values changes no file, so the updates begin with the files as they were.
  have same : m₁.environment = m.environment :=
    (congrArg (·.2.environment) found).symm.trans (looks_newValues targets insecure m)
  have account : Account s requested targets values m m' report :=
    account_setAll names same begun counted unset faultless run
  have ran := run
  rw [outcome_setAll, tallyAll_eq] at run
  obtain ⟨report_eq, rfl⟩ := Prod.mk.inj run
  obtain rfl := Except.ok.inj report_eq
  have source : Source targets values insecure m
      { m₁ with environment := s.setEach m₁.environment (present values) } remote :=
    source.of_fetches_eq rfl
  have skipped : start.skippedKeys = if force then [] else requested.filter (!Salt.isName ·) := by
    rw [skippedKeys]
    cases force <;> simp
  refine ⟨skipped, source.remote_iff, values, account, source, fun set asked ↦ ?_⟩
  rw [shuffleBy, sorted, outcome_bind_ok found]
  dsimp only
  rw [setAllBy_congr asked, ← setAll_eq_setAllBy]
  exact ran

/-- A machine without randomness, with one file and a service that knows one of the salts. -/
def renewedMachine : Machine :=
  { answeredMachine with environment := Environment.single "<?php define('AUTH_KEY', 'old');".toList }

/-- Without randomness, the service is asked, and it knows one of two salts. -/
theorem outcome_newValues_renewed :
    (newValues ["AUTH_KEY", "NONCE_SALT"] false).outcome renewedMachine =
      (.ok ([("AUTH_KEY", some "k"), ("NONCE_SALT", none)], true), { renewedMachine with fetches := 1 }) := by
  have dry : Salt.keysFor ["AUTH_KEY", "NONCE_SALT"] renewedMachine.entropy =
      (none, renewedMachine.entropy) := by
    simp [Salt.keysFor, Salt.drawAll, Salt.draw, Salt.keyLength, renewedMachine, answeredMachine,
      bareMachine]
  have parsed : Salt.parse renewedMachine.environment partialAnswer = .ok partialSalts :=
    Script.eq_ok_of_toOption (by decide +kernel)
  rw [outcome_newValues, dry]
  show (((Salt.parse renewedMachine.environment partialAnswer).mapError ConfigError.script).map _, _) = _
  rw [parsed]
  rfl

/-- One of two salts gets the service's value, a name that is no salt is skipped. -/
theorem shuffle_accounts_renewed : ∃ report m',
    (Store.shuffle ⟨⟨['/', 'a']⟩, .standard⟩ ["AUTH_KEY", "OTHER", "NONCE_SALT"] false false).outcome
        renewedMachine = (.ok report, m') ∧
      report.skippedKeys = ["OTHER"] ∧ report.usedRemote = true ∧
      report.succeeded + report.skipped + report.errored = 3 := by
  let s : Store := ⟨⟨['/', 'a']⟩, .standard⟩
  have run : (s.shuffle ["AUTH_KEY", "OTHER", "NONCE_SALT"] false false).outcome renewedMachine = _ :=
    (outcome_bind_ok outcome_newValues_renewed).trans (s.outcome_setAll _ _ _)
  obtain ⟨skipped, remote, values, account, -⟩ := shuffle_accounts run
  exact ⟨_, _, run, skipped, by rw [tallyAll_eq], account.count⟩

end Store

end ConfigScript
