import ConfigScript.Proofs.Parsing.Tree
import ConfigScript.Proofs.Running.Growth

/-!
# How deep files nest

Every execution ends, and no file is begun deeper than the limit (`Executes.within`). An execution fails
because of the limit exactly if it gets there to a statement that would otherwise look into a file
(`LoadSite.AtLimit`, `Executes.exceeds_iff`): the checks in front of that of the depth decide which
statements those are, and the counter is right there because it is restored behind every file
(`Executes.depth_eq`).

Files that load one another in a row are run to the end if and only if they are no more than the limit
allows (`Chain.ending`).
-/

namespace ConfigScript

open Script

/-! ### The limit -/

/-- A statement that loads a file is reached at the limit: its path is known and not that of the
bootstrap file, a file is there, and it is not loaded already if it is to be loaded once. A directory is no
file: a statement that is to load one treats it as a file that is missing, whatever the depth. -/
structure LoadSite.AtLimit (l : LoadSite) : Prop where
  depth : l.turn.depth = maxDepth
  known : ¬l.path.isOpaque
  ordinary : l.candidate.fileName? ≠ some bootstrapName
  file : ∃ resolved, l.frame.environment.canonical l.candidate = .ok resolved ∧
    l.frame.environment.isFile resolved ∧ ¬(l.kind.isOnce ∧ l.turn.scope.isLoaded resolved)

/-- A file is there if and only if it can be read. -/
theorem Environment.isFile_iff {env : Environment} {path : Path} :
    env.isFile path ↔ ∃ content, env.read path = .ok content := by
  unfold isFile find? read
  cases env.resolve path with
  | error e => simp [bind, Except.bind]
  | ok place =>
    rcases there : env.files.get? place with _ | content | entries
    · simp [bind, Except.bind, there]
    · simp [bind, Except.bind, there, pure, Except.pure, FileTree.isFile]
    · simp [bind, Except.bind, there, FileTree.isFile]

/-- A file is located if its canonical path leads to one. -/
theorem Frame.locate_eq_ok {f : Frame} {path resolved : Path} {content : Content} :
    f.locate path = .ok (resolved, content) ↔
      f.environment.canonical path = .ok resolved ∧ f.environment.read resolved = .ok content := by
  rw [locate]
  cases f.environment.canonical path with
  | error e => exact ⟨nofun, nofun⟩
  | ok file =>
    show (do let content ← f.environment.read file; return (file, content)) = _ ↔ _
    refine ⟨fun h ↦ ?_, ?_⟩
    · cases there : f.environment.read file with
      | error e => rw [there] at h; cases h
      | ok text =>
        rw [there] at h
        obtain ⟨rfl, rfl⟩ := Prod.mk.inj (Except.ok.inj h)
        exact ⟨rfl, there⟩
    · rintro ⟨same, there⟩
      obtain rfl := Except.ok.inj same
      rw [there]
      rfl

namespace LoadSite

variable {l : LoadSite}

/-- At the limit, the checks refuse the statement with the error of the depth. -/
theorem AtLimit.verdict (h : l.AtLimit) :
    l.verdict = .refuse (l.frame.error l.span .includeDepthExceeded) := by
  obtain ⟨resolved, canonical, file, notAgain⟩ := h.file
  obtain ⟨content, read⟩ := Environment.isFile_iff.1 file
  unfold LoadSite.verdict
  rw [if_neg h.known, if_neg (by simpa using h.ordinary), Frame.locate_eq_ok.2 ⟨canonical, read⟩]
  dsimp only
  rw [if_neg (by simpa using notAgain), if_pos (Nat.le_of_eq h.depth.symm)]

/-- No other check than that of the depth fails for it. -/
theorem atLimit_of_verdict {e : ScriptError} (h : l.verdict = .refuse e)
    (fault : e.fault = .includeDepthExceeded) (room : l.turn.depth ≤ maxDepth) : l.AtLimit := by
  unfold LoadSite.verdict at h
  split at h
  · cases h
  rename_i known
  split at h
  · cases h
  rename_i ordinary
  split at h
  · split at h
    · obtain rfl := Verdict.refuse.inj h
      cases fault
    · cases h
  rename_i resolved content found
  obtain ⟨canonical, read⟩ := Frame.locate_eq_ok.1 found
  split at h
  · cases h
  rename_i notAgain
  split at h
  · rename_i deep
    exact ⟨Nat.le_antisymm room deep, known, by simpa using ordinary, resolved, canonical,
      Environment.isFile_iff.2 ⟨content, read⟩, by simpa using notAgain⟩
  split at h
  · obtain rfl := Verdict.refuse.inj h
    cases fault
  · cases h

end LoadSite

/-! ### Depths in an execution -/

/-- The event is at a depth that files may have. -/
def Event.IsWithin : Event → Prop
  | .begun _ depth => depth ≤ maxDepth
  | .reached site => site.turn.depth ≤ maxDepth
  | .defined _ _ => True

/-- Some statement is reached at the limit. -/
def Event.Hits (log : List Event) : Prop := ∃ site, .reached site ∈ log ∧ site.AtLimit

/-- The execution fails because of the limit. -/
def Ending.Exceeds (r : Ending) : Prop := ∃ e, r = .error e ∧ e.fault = .includeDepthExceeded

namespace Event

theorem isWithin_definitions (ds : Bindings) : ∀ e ∈ definitions ds, e.IsWithin := by
  rintro e he
  obtain ⟨d, -, rfl⟩ := List.mem_map.1 he
  trivial

theorem hits_append {log log' : List Event} : Hits (log ++ log') ↔ Hits log ∨ Hits log' := by
  simp only [Hits, List.mem_append, or_and_right, exists_or]

theorem not_hits_definitions (ds : Bindings) : ¬Hits (definitions ds) := by
  rintro ⟨site, mem, -⟩
  obtain ⟨d, -, same⟩ := List.mem_map.1 mem
  cases same

theorem hits_begun {file : Path} {depth : Nat} {log : List Event} :
    Hits (.begun file depth :: log) ↔ Hits log := by
  simp [Hits]

theorem hits_reached {site : LoadSite} {log : List Event} :
    Hits (.reached site :: log) ↔ site.AtLimit ∨ Hits log := by
  simp [Hits, or_and_right, exists_or]

end Event

namespace Ending

theorem not_exceeds_ok (flow : Flow) : ¬Exceeds (.ok flow) := by
  rintro ⟨e, same, -⟩
  cases same

theorem exceeds_error {e : ScriptError} : Exceeds (.error e) ↔ e.fault = .includeDepthExceeded := by
  simp [Exceeds]

theorem exceeds_behindFile {r : Ending} : r.behindFile.Exceeds ↔ r.Exceeds := by
  rcases r with e | _ | _ | _
  · exact Iff.rfl
  all_goals exact iff_of_false (not_exceeds_ok _) (not_exceeds_ok _)

end Ending

namespace Executes

variable {task : Task} {t t' : Turn} {log : List Event} {r : Ending}

open Event Ending

/-- Nothing in an execution is deeper than the limit. -/
theorem within (h : Executes task t log r t') (room : t.depth ≤ maxDepth) : ∀ e ∈ log, e.IsWithin := by
  have both : ∀ {as bs : List Event}, (∀ e ∈ as, e.IsWithin) → (∀ e ∈ bs, e.IsWithin) →
      ∀ e ∈ as ++ bs, e.IsWithin := fun ha hb e he ↦ (List.mem_append.1 he).elim (ha e) (hb e)
  induction h with
  | unreadable => exact List.forall_mem_singleton.2 room
  | file _ _ ih => exact List.forall_mem_cons.2 ⟨room, ih room⟩
  | done | leave | stop => exact List.forall_mem_nil _
  | next first _ firstIh moreIh => exact both (firstIh room) (moreIh (by rw [first.depth_eq]; exact room))
  | ended _ _ ih | block _ ih | conditional _ ih | otherwise _ ih => exact ih room
  | effect | unknown => exact isWithin_definitions _
  | holds _ _ _ _ ih | fails _ _ _ _ ih => exact both (isWithin_definitions _) (ih room)
  | skipped | refused => exact both (isWithin_definitions _) (List.forall_mem_singleton.2 room)
  | entered _ verdict _ ih =>
    have below := LoadSite.lt_of_enter verdict
    exact both (isWithin_definitions _) (List.forall_mem_cons.2 ⟨room, ih below⟩)

/-- An execution fails because of the limit if and only if a statement is reached there. -/
theorem exceeds_iff (h : Executes task t log r t') (room : t.depth ≤ maxDepth) :
    r.Exceeds ↔ Hits log := by
  have none : ¬Hits [] := by simp [Hits]
  induction h with
  | @unreadable f t e unparsed =>
    -- What the parser complains about lies in the text, and the limit does not.
    rw [hits_begun, exceeds_error]
    refine iff_of_false (fun fault ↦ ?_) none
    have inText := isOfText_of_parse unparsed
    rwa [show e.fault = .includeDepthExceeded from fault] at inText
  | file _ _ ih =>
    rw [hits_begun]
    exact ih room
  | done | leave | stop => exact iff_of_false (not_exceeds_ok _) none
  | next first _ firstIh moreIh =>
    rw [hits_append, or_iff_right ((firstIh room).not.1 (not_exceeds_ok _))]
    exact moreIh (by rw [first.depth_eq]; exact room)
  | ended _ _ ih | block _ ih | conditional _ ih | otherwise _ ih => exact ih room
  | effect | unknown => exact iff_of_false (not_exceeds_ok _) (not_hits_definitions _)
  | holds _ _ _ _ ih | fails _ _ _ _ ih =>
    rw [hits_append, or_iff_right (not_hits_definitions _)]
    exact ih room
  | skipped _ verdict =>
    rw [hits_append, or_iff_right (not_hits_definitions _), hits_reached, or_iff_left none]
    refine iff_of_false (not_exceeds_ok _) fun atLimit ↦ ?_
    cases verdict.symm.trans atLimit.verdict
  | refused _ verdict =>
    -- Of the checks that refuse only the one of the depth has this fault.
    rw [hits_append, or_iff_right (not_hits_definitions _), hits_reached, or_iff_left none, exceeds_error]
    refine ⟨fun fault ↦ LoadSite.atLimit_of_verdict verdict fault room, fun atLimit ↦ ?_⟩
    rw [Verdict.refuse.inj (verdict.symm.trans atLimit.verdict)]
    rfl
  | entered _ verdict _ ih =>
    have free : ¬LoadSite.AtLimit _ := fun atLimit ↦ by cases verdict.symm.trans atLimit.verdict
    rw [exceeds_behindFile, hits_append, or_iff_right (not_hits_definitions _), hits_reached,
      or_iff_right free]
    exact ih (LoadSite.lt_of_enter verdict)

end Executes

/-! ### Files in a row -/

/-- The statement itself neither loads a file nor ends one. -/
def Stmt.goesOn : Stmt → Bool
  | .load .. | .ret _ | .exit _ => false
  | _ => true

/-- However files are run, the run goes on behind it in the same scope, and it loads nothing. -/
def Passes (x : Option Runner → Run Flow) : Prop :=
  ∀ s, ∃ s' : Scope, s'.loaded = s.loaded ∧ ∀ runner, (x runner).outcome s = (.ok .goOn, s')

namespace Frame

variable {f : Frame}

/-- A statement that only changes the scope does the same with every way to load files. -/
theorem passes_effect {st : Stmt} {x : Recorded Unit} (h : f.effect? st = some x) :
    Passes fun runner ↦ f.exec runner st := by
  intro s
  rcases done : x.outcome s with ⟨_, ds, s'⟩
  exact ⟨s', (outcome_effect h done none).2.loaded, fun runner ↦ (outcome_effect h done runner).1⟩

mutual

/-- Statements that neither load files nor end them are passed. -/
theorem passes_exec {st : Stmt} (h : ∀ n ∈ st.nodes, n.goesOn) :
    Passes fun runner ↦ f.exec runner st := by
  match st with
  | .expr .. | .assign .. | .const .. | .unset .. | .global .. | .inlineHtml .. | .opaqueStmt .. =>
    exact passes_effect rfl
  | .ret _ | .exit _ | .load .. => cases h _ (Stmt.mem_nodes _)
  | .block sp ss =>
    simp only [exec]
    exact passes_execAll fun n hn ↦ h n (List.mem_cons_of_mem _ hn)
  | .conditional sp bs none =>
    simp only [exec]
    exact passes_choose (fun s ↦ ⟨s, rfl, fun _ ↦ rfl⟩) fun n hn ↦ h n (List.mem_cons_of_mem _ hn)
  | .conditional sp bs (some ss) =>
    simp only [exec]
    have otherwise : Passes fun runner ↦ f.execAll runner ss := passes_execAll fun n hn ↦
      h n (List.mem_cons_of_mem _ (List.mem_append_right _ hn))
    exact passes_choose otherwise fun n hn ↦ h n (List.mem_cons_of_mem _ (List.mem_append_left _ hn))

/-- Statements that go on pass to what is behind them, with every way to load files. -/
theorem passes_execAll {ss : List Stmt} (h : ∀ n ∈ Stmt.nodesOfList ss, n.goesOn) :
    Passes fun runner ↦ f.execAll runner ss := by
  match ss with
  | [] =>
    simp only [execAll]
    exact fun s ↦ ⟨s, rfl, fun _ ↦ rfl⟩
  | a :: as =>
    intro s
    have first : Passes fun runner ↦ f.exec runner a :=
      passes_exec fun n hn ↦ h n (List.mem_append_left _ hn)
    obtain ⟨s₁, loaded, run⟩ := first s
    obtain ⟨s₂, loaded', more⟩ := passes_execAll (fun n hn ↦ h n (List.mem_append_right _ hn)) s₁
    exact ⟨s₂, loaded'.trans loaded, fun runner ↦ (execAll_cons as (run runner)).trans (more runner)⟩

/-- Branches of statements that go on pass to what is behind them, whichever is chosen. -/
theorem passes_choose {bs : List Branch} {otherwise : Option Runner → Run Flow}
    (other : Passes otherwise) (h : ∀ n ∈ Stmt.nodesOfBranches bs, n.goesOn) :
    Passes fun runner ↦ f.choose runner (otherwise runner) bs := by
  match bs with
  | [] =>
    simp only [choose]
    exact other
  | .mk c body :: bs =>
    intro s
    rcases asked : (f.recordedEval c).outcome s with ⟨v, ds, s₁⟩
    have loaded := (defines_value asked).loaded
    simp only [outcome_choose body bs _ asked, ← loaded]
    by_cases unknown : v.isOpaque
    · exact ⟨s₁, rfl, fun _ ↦ if_pos unknown⟩
    by_cases yes : v.isTruthy
    · simp only [if_neg unknown, if_pos yes]
      exact passes_execAll (fun n hn ↦ h n (List.mem_append_left _ hn)) s₁
    · simp only [if_neg unknown, if_neg yes]
      exact passes_choose other (fun n hn ↦ h n (List.mem_append_right _ hn)) s₁

end

/-- The value is the path of the script `g`, seen from the script `f`. -/
structure Finds (f : Frame) (v : Value) (g : Frame) : Prop where
  known : ¬v.isOpaque
  ordinary : (f.directory.join (.ofString v.toText)).fileName? ≠ some bootstrapName
  canonical : f.environment.canonical (f.directory.join (.ofString v.toText)) = .ok g.file
  text : f.environment.read g.file = .ok (.text g.source)
  environment : g.environment = f.environment

end Frame

/-- Executed in the scope `s`, the task gets to where it loads the script `g`, with the scope `s'`. What
is executed around that neither loads nor ends a file. -/
inductive Loads (g : Frame) : Task → Scope → Scope → Prop
  | file {f : Frame} {ss : List Stmt} {s s' : Scope} (parsed : parse f.source = .ok ss)
      (inside : Loads g (.stmts f ss) s s') : Loads g (.file f) s s'
  | first {f : Frame} {a : Stmt} {as : List Stmt} {s s' : Scope} (here : Loads g (.stmt f a) s s')
      (behind : ∀ n ∈ Stmt.nodesOfList as, n.goesOn) : Loads g (.stmts f (a :: as)) s s'
  | next {f : Frame} {a : Stmt} {as : List Stmt} {s s₁ s' : Scope} (alone : ∀ n ∈ a.nodes, n.goesOn)
      (run : (f.exec none a).outcome s = (.ok .goOn, s₁)) (more : Loads g (.stmts f as) s₁ s') :
      Loads g (.stmts f (a :: as)) s s'
  | block {f : Frame} {sp : Span} {ss : List Stmt} {s s' : Scope} (inside : Loads g (.stmts f ss) s s') :
      Loads g (.stmt f (.block sp ss)) s s'
  | conditional {f : Frame} {sp : Span} {bs : List Branch} {otherwise : Option (List Stmt)} {s s' : Scope}
      (inside : Loads g (.branches f bs (otherwise.getD [])) s s') :
      Loads g (.stmt f (.conditional sp bs otherwise)) s s'
  | holds {f : Frame} {c : Expr} {body : List Stmt} {bs : List Branch} {ss : List Stmt} {v : Value}
      {s s₁ s' : Scope} (value : (f.eval c).run s = (v, s₁)) (known : ¬v.isOpaque) (yes : v.isTruthy)
      (inside : Loads g (.stmts f body) s₁ s') : Loads g (.branches f (.mk c body :: bs) ss) s s'
  | fails {f : Frame} {c : Expr} {body : List Stmt} {bs : List Branch} {ss : List Stmt} {v : Value}
      {s s₁ s' : Scope} (value : (f.eval c).run s = (v, s₁)) (known : ¬v.isOpaque) (no : ¬v.isTruthy)
      (more : Loads g (.branches f bs ss) s₁ s') : Loads g (.branches f (.mk c body :: bs) ss) s s'
  | otherwise {f : Frame} {ss : List Stmt} {s s' : Scope} (inside : Loads g (.stmts f ss) s s') :
      Loads g (.branches f [] ss) s s'
  | here {f : Frame} {sp : Span} {kind : IncludeKind} {p : Expr} {v : Value} {s s' : Scope}
      (value : (f.eval p).run s = (v, s')) (finds : f.Finds v g) :
      Loads g (.stmt f (.load sp kind p)) s s'

/-- From the script `f` on, run in the scope `s`, each of the given scripts is loaded by the one in front
of it, and the last one loads none. -/
inductive Chain : Frame → Scope → List Frame → Prop
  | last {f : Frame} {s : Scope} {ss : List Stmt} (parsed : parse f.source = .ok ss)
      (alone : ∀ n ∈ Stmt.nodesOfList ss, n.goesOn) : Chain f s []
  | link {f g : Frame} {s s' : Scope} {gs : List Frame} (loads : Loads g (.file f) s s')
      (more : Chain g (s'.markLoaded g.file) gs) : Chain f s (g :: gs)

theorem Stmt.exists_of_isLoad {s : Stmt} (h : s.isLoad) : ∃ sp kind p, s = .load sp kind p := by
  cases s with
  | load sp kind p => exact ⟨sp, kind, p, rfl⟩
  | _ => cases h

/-- Of the checks for a script that is found, two are left. -/
theorem LoadSite.verdict_of_finds {l : LoadSite} {g : Frame} (h : l.frame.Finds l.path g) :
    l.verdict = if l.kind.isOnce && l.turn.scope.isLoaded g.file then .skip
      else if maxDepth ≤ l.turn.depth then .refuse (l.frame.error l.span .includeDepthExceeded)
      else .enter g := by
  obtain ⟨env, source, file⟩ := g
  obtain rfl : env = l.frame.environment := h.environment
  have found : l.frame.locate l.candidate = .ok (file, .text source) :=
    Frame.locate_eq_ok.2 ⟨h.canonical, h.text⟩
  have ordinary : ¬(l.candidate.fileName? == some bootstrapName) := by
    rw [beq_iff_eq]
    exact h.ordinary
  unfold verdict
  rw [if_neg h.known, if_neg ordinary, found]

/-- Another file that is loaded does not count as this one. -/
theorem Scope.isLoaded_markLoaded (s : Scope) {p q : Path} (h : ¬p.same q) :
    (s.markLoaded p).isLoaded q = s.isLoaded q := by
  unfold markLoaded
  split
  · rfl
  have other : q.same p = false := by
    rw [Path.same_comm]
    exact eq_false_of_ne_true h
  simp only [isLoaded, List.any_append, List.any_cons, List.any_nil, other, Bool.or_false]

/-- Each evaluation has a record. -/
theorem Frame.exists_recorded {f : Frame} {e : Expr} {s s' : Scope} {v : Value}
    (h : (f.eval e).run s = (v, s')) : ∃ ds, (f.recordedEval e).outcome s = (v, ds, s') := by
  obtain ⟨ds, asked, -⟩ := f.recordedEval_of e s
  rw [h] at asked
  exact ⟨ds, asked⟩

namespace Loads

variable {g : Frame} {task : Task} {s s' : Scope}

/-- Up to where the script is loaded, nothing is loaded. -/
theorem loaded_eq (h : Loads g task s s') : s'.loaded = s.loaded := by
  have asked : ∀ {f : Frame} {e : Expr} {s s' : Scope} {v : Value}, (f.eval e).run s = (v, s') →
      s'.loaded = s.loaded := fun value ↦
    (Frame.defines_value (Frame.exists_recorded value).choose_spec).loaded
  induction h with
  | file _ _ ih | first _ _ ih | block _ ih | conditional _ ih | otherwise _ ih => exact ih
  | @next f a as s s₁ s' alone run _ ih =>
    have passed : Passes fun runner ↦ f.exec runner a := Frame.passes_exec alone
    obtain ⟨s₂, loaded, same⟩ := passed s
    obtain ⟨-, rfl⟩ := Prod.mk.inj (run.symm.trans (same none))
    exact ih.trans loaded
  | holds value _ _ _ ih | fails value _ _ _ ih => exact ih.trans (asked value)
  | here value _ => exact asked value

/-- A task that loads a script ends as that one does, if it gets that far. -/
theorem ending (h : Loads g task s s') {left : Nat} (room : left ≤ maxDepth)
    (new : s'.isLoaded g.file = false) : ∃ e : ScriptError, e.fault = .includeDepthExceeded ∧
      ((task.run left).outcome s).1 =
        if left = 0 then .error e
        else Ending.behindFile
          ((runNested g.environment (left - 1) g.source g.file).outcome (s'.markLoaded g.file)).1 := by
  induction h with
  | file parsed _ ih =>
    rw [Task.run, runNested_eq, runWith, parsed]
    exact ih new
  | @first f a as s s' _ behind ih =>
    obtain ⟨e, fault, ending⟩ := ih new
    refine ⟨e, fault, ?_⟩
    rw [← ending]
    -- Behind the statement the rest is passed, or nothing is run any more.
    rcases ran : ((Task.stmt f a).run left).outcome s with ⟨r, s₁⟩
    by_cases goesOn : r = .ok .goOn
    · subst goesOn
      have passed : Passes fun runner ↦ f.execAll runner as := Frame.passes_execAll behind
      obtain ⟨s₂, -, more⟩ := passed s₁
      rw [Task.run, Frame.execAll_cons as ran, more]
    · rw [Task.run, Frame.execAll_ended as ran goesOn]
  | @next f a as s s₁ s' alone run _ ih =>
    have passed : Passes fun runner ↦ f.exec runner a := Frame.passes_exec alone
    obtain ⟨s₂, -, same⟩ := passed s
    obtain ⟨-, rfl⟩ := Prod.mk.inj (run.symm.trans (same none))
    rw [Task.run, Frame.execAll_cons as (same _)]
    exact ih new
  | block _ ih =>
    rw [Task.run, Frame.exec]
    exact ih new
  | conditional _ ih =>
    rw [Task.run, Frame.exec_conditional]
    exact ih new
  | holds value known yes _ ih =>
    obtain ⟨ds, asked⟩ := Frame.exists_recorded value
    rw [Task.run, Frame.outcome_choose _ _ _ asked, if_neg known, if_pos yes]
    exact ih new
  | fails value known no _ ih =>
    obtain ⟨ds, asked⟩ := Frame.exists_recorded value
    rw [Task.run, Frame.outcome_choose _ _ _ asked, if_neg known, if_neg no]
    exact ih new
  | otherwise _ ih =>
    rw [Task.run, Frame.choose]
    exact ih new
  | @here f sp kind p v s s' value finds =>
    obtain ⟨ds, asked⟩ := Frame.exists_recorded value
    have ran := f.outcome_exec_load sp kind asked (Nat.sub_add_cancel room)
    have notAgain : ¬(kind.isOnce && s'.isLoaded g.file) := by
      rw [new, Bool.and_false]
      exact Bool.false_ne_true
    rw [LoadSite.verdict_of_finds finds, if_neg notAgain] at ran
    refine ⟨f.error sp .includeDepthExceeded, rfl, ?_⟩
    rw [Task.run]
    by_cases none : left = 0
    · subst none
      rw [if_pos (Nat.le_of_eq (Nat.sub_zero maxDepth).symm)] at ran
      rw [ran, if_pos rfl]
    · rw [if_neg (by dsimp only; omega)] at ran
      rw [ran, if_neg none]

end Loads

namespace Chain

variable {f : Frame} {s : Scope} {fs : List Frame}

/-- Files that load one another in a row are run to the end if there is room for them, and otherwise
fail because of the limit. None of them may be loaded already. -/
theorem ending (chain : Chain f s fs) {left : Nat} (room : left ≤ maxDepth)
    (new : ∀ g ∈ fs, s.isLoaded g.file = false)
    (distinct : fs.Pairwise fun g h ↦ ¬g.file.same h.file) :
    if fs.length ≤ left then ((runNested f.environment left f.source f.file).outcome s).1 = .ok .goOn
    else Ending.Exceeds ((runNested f.environment left f.source f.file).outcome s).1 := by
  induction chain generalizing left with
  | @last f s ss parsed alone =>
    have passed : Passes fun runner ↦ f.execAll runner ss := Frame.passes_execAll alone
    obtain ⟨s', -, run⟩ := passed s
    rw [if_pos (show ([] : List Frame).length ≤ left from Nat.zero_le left), runNested_eq, runWith, parsed]
    exact congrArg Prod.fst (run _)
  | @link f g s s' gs loads more ih =>
    have newHere : s'.isLoaded g.file = false := by
      rw [Scope.isLoaded, loads.loaded_eq]
      exact new g List.mem_cons_self
    obtain ⟨e, fault, ending⟩ := loads.ending room newHere
    obtain ⟨others, distinct⟩ := List.pairwise_cons.1 distinct
    -- The script that is loaded now is none of those behind it.
    have newBelow : ∀ h ∈ gs, (s'.markLoaded g.file).isLoaded h.file = false := fun h hh ↦ by
      rw [Scope.isLoaded_markLoaded s' (others h hh), Scope.isLoaded, loads.loaded_eq]
      exact new h (List.mem_cons_of_mem _ hh)
    rw [Task.run] at ending
    rw [ending]
    cases left with
    | zero =>
      rw [if_neg (show ¬(g :: gs).length ≤ 0 from Nat.not_succ_le_zero gs.length), if_pos rfl,
        Ending.exceeds_error]
      exact fault
    | succ left =>
      have below := ih (Nat.le_of_succ_le room) newBelow distinct
      rw [if_neg (Nat.succ_ne_zero left), Nat.add_sub_cancel, Ending.exceeds_behindFile, List.length_cons]
      by_cases enough : gs.length ≤ left
      · rw [if_pos enough] at below
        rw [if_pos (Nat.succ_le_succ enough), below]
        rfl
      · rw [if_neg enough] at below
        rw [if_neg (fun h ↦ enough (Nat.le_of_succ_le_succ h))]
        exact below

end Chain

/-- Whatever loads what, an execution comes to an end, in which no file is begun deeper than the limit;
and it fails because of the limit exactly if a statement is reached there that no other check stops. A
directory is no file that is there. Files that load one another in a row are run to the end exactly if
they are no more than the limit. -/
theorem executions_end (scope : Scope) (env : Environment) (source : List Char) (file : Path) :
    (∃ log r t, Executes (.file ⟨env, source, file⟩) ⟨scope, 0⟩ log r t) ∧
    (∀ log r t, Executes (.file ⟨env, source, file⟩) ⟨scope, 0⟩ log r t →
      scope.executeSource env source file = (r.map fun _ ↦ (), t.scope) ∧ t.depth = 0 ∧
      (∀ path depth, .begun path depth ∈ log → depth ≤ maxDepth) ∧
      ((∃ e, (scope.executeSource env source file).1 = .error e ∧ e.fault = .includeDepthExceeded) ↔
        ∃ site, .reached site ∈ log ∧ site.AtLimit)) ∧
    ∀ fs, Chain ⟨env, source, file⟩ scope fs → (fs.Pairwise fun g h ↦ ¬g.file.same h.file) →
      (∀ g ∈ fs, scope.isLoaded g.file = false) →
        ((scope.executeSource env source file).1 = .ok () ↔ fs.length ≤ maxDepth) := by
  refine ⟨ends_file 0 _ _ rfl, fun log r t execution ↦ ?_, fun fs chain distinct new ↦ ?_⟩
  · have run := execution.executeSource
    refine ⟨run, execution.depth_eq, fun path depth begun ↦ execution.within (Nat.zero_le _) _ begun, ?_⟩
    rw [← Event.Hits, ← execution.exceeds_iff (Nat.zero_le _), run]
    cases r <;> simp [Ending.Exceeds, Except.map]
  · obtain ⟨log, r, t, execution⟩ := ends_file 0 ⟨env, source, file⟩ ⟨scope, 0⟩ rfl
    have inside : (runNested env maxDepth source file).outcome scope = (r, t.scope) :=
      execution.outcome (Nat.zero_add maxDepth)
    have ending : if fs.length ≤ maxDepth then r = .ok .goOn else r.Exceeds := by
      have ending := chain.ending (Nat.le_refl maxDepth) new distinct
      rwa [inside] at ending
    rw [execution.executeSource]
    split at ending
    · rename_i enough
      subst ending
      exact iff_of_true rfl enough
    · rename_i tooMany
      obtain ⟨e, rfl, -⟩ := ending
      exact iff_of_false nofun tooMany

/-- A file that loads itself gets to the limit, and two files in a row are run to the end. -/
theorem executions_end_circle_and_row : ∃ circle first last : List Char,
    circle = "<?php include '/a';".toList ∧ first = "<?php include_once '/a';".toList ∧
      last = "<?php $x = 1;".toList ∧
      (∃ log r t site, Executes (.file ⟨.single circle, circle, ⟨['/', 'a']⟩⟩) ⟨.withBuiltins, 0⟩ log r t ∧
        .reached site ∈ log ∧ site.AtLimit) ∧
      Chain ⟨.single last, first, ⟨['/', 'b']⟩⟩ .withBuiltins [⟨.single last, last, ⟨['/', 'a']⟩⟩] ∧
      Scope.withBuiltins.isLoaded ⟨['/', 'a']⟩ = false ∧
      (Scope.withBuiltins.executeSource (.single last) first ⟨['/', 'b']⟩).1 = .ok () := by
  refine ⟨_, _, _, rfl, rfl, rfl, ?_, ?_⟩
  · obtain ⟨⟨log, r, t, execution⟩, all, -⟩ := executions_end .withBuiltins
      (.single "<?php include '/a';".toList) "<?php include '/a';".toList ⟨['/', 'a']⟩
    have failed : (Scope.withBuiltins.executeSource (.single "<?php include '/a';".toList)
        "<?php include '/a';".toList ⟨['/', 'a']⟩).1.mapError ScriptError.fault =
          .error .includeDepthExceeded := by decide +kernel
    obtain ⟨e, h, fault⟩ := exists_of_mapError failed
    obtain ⟨site, reached, atLimit⟩ := (all log r t execution).2.2.2.1 ⟨e, h, fault⟩
    exact ⟨log, r, t, site, execution, reached, atLimit⟩
  · obtain ⟨ss, parsed, shape⟩ := exists_of_any
      (p := fun ss : List Stmt ↦ ss.map (fun s ↦ (s.isLoad, s.exprs.map Expr.literalText?)) ==
        [(true, [some "/a"])])
      (show (parse "<?php include_once '/a';".toList).toOption.any _ by decide +kernel)
    obtain ⟨st, rfl, here⟩ := List.map_eq_singleton_iff.1 (beq_iff_eq.1 shape)
    obtain ⟨loads, text⟩ := Prod.mk.inj here
    obtain ⟨sp, kind, p, rfl⟩ := Stmt.exists_of_isLoad loads
    replace text : p.literalText? = some "/a" := List.singleton_inj.1 text
    obtain ⟨ss, parsedLast, plain⟩ := exists_of_any (p := fun ss ↦ (Stmt.nodesOfList ss).all Stmt.goesOn)
      (show (parse "<?php $x = 1;".toList).toOption.any _ by decide +kernel)
    have chain : Chain ⟨.single "<?php $x = 1;".toList, "<?php include_once '/a';".toList, ⟨['/', 'b']⟩⟩
        .withBuiltins [⟨.single "<?php $x = 1;".toList, "<?php $x = 1;".toList, ⟨['/', 'a']⟩⟩] := by
      have value := congrFun (Frame.value_of_literalText? text
        ⟨.single "<?php $x = 1;".toList, "<?php include_once '/a';".toList, ⟨['/', 'b']⟩⟩) .withBuiltins
      refine .link (.file parsed (.first (.here value ?_) (List.forall_mem_nil _)))
        (.last parsedLast (List.all_eq_true.1 plain))
      exact ⟨by decide, by decide +kernel, rfl, rfl, rfl⟩
    have new : Scope.withBuiltins.isLoaded ⟨['/', 'a']⟩ = false := rfl
    exact ⟨chain, new, ((executions_end _ _ _ _).2.2 _ chain (List.pairwise_singleton _ _)
      (List.forall_mem_singleton.2 new)).2 (by decide)⟩

end ConfigScript
