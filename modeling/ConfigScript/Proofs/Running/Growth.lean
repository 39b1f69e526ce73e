import ConfigScript.Proofs.Running.Execution
import ConfigScript.Proofs.Running.Setting

/-!
# What an execution adds

An execution only adds to the constants and to the loaded files of a scope, whether it ends with an
error or not, and nothing occurs in them twice (`Executes.grows`). The constants behind it are those in
front of it with the definitions that were carried out, of which the first for a name counts.

So the entries that are read from a script are new, each is reported once, and the value of a constant
is that of its first definition (`Reader.reports`).
-/

namespace ConfigScript

/-! ### Offers -/

namespace Assoc

variable {α β : Type} [DecidableEq α]

/-- An offer is taken where the key is new, and left where it is there. -/
theorem offer_eq (a : α) (b : β) (xs : List (α × β)) :
    offer a b xs = if a ∈ keys xs then xs else xs ++ [(a, b)] := by
  unfold offer
  by_cases there : a ∈ keys xs
  · rw [if_pos (contains_iff.2 there), if_pos there]
  · rw [if_neg fun h ↦ there (contains_iff.1 h), if_neg there, insert_of_not_mem there]

/-- Offers go behind what is there. -/
theorem prefix_offerAll (ds xs : List (α × β)) : xs <+: offerAll ds xs := by
  induction ds generalizing xs with
  | nil => exact List.prefix_refl xs
  | cons d ds ih =>
    refine List.IsPrefix.trans ?_ (ih (offer d.1 d.2 xs))
    rw [offer_eq]
    split
    · exact List.prefix_refl xs
    · exact List.prefix_append xs _

/-- An offer leaves the keys distinct. -/
theorem nodup_keys_offer {xs : List (α × β)} (h : (keys xs).Nodup) (a : α) (b : β) :
    (keys (offer a b xs)).Nodup := by
  unfold offer
  split
  · exact h
  · exact nodup_keys_insert h b

/-- Offers leave the keys distinct, one after the other. -/
theorem nodup_keys_offerAll (ds : List (α × β)) {xs : List (α × β)} (h : (keys xs).Nodup) :
    (keys (offerAll ds xs)).Nodup := by
  induction ds generalizing xs with
  | nil => exact h
  | cons d ds ih => exact ih (nodup_keys_offer h d.1 d.2)

/-- The first offer counts, if there was nothing before. -/
theorem lookup_offerAll (a : α) (ds xs : List (α × β)) :
    lookup a (offerAll ds xs) = (lookup a xs).or (lookup a ds) := by
  induction ds generalizing xs with
  | nil => exact Option.or_none.symm
  | cons d ds ih =>
    obtain ⟨k, b⟩ := d
    show lookup a (offerAll ds (offer k b xs)) = _
    rw [ih, offer_eq, lookup_cons]
    by_cases same : k = a
    · subst same
      by_cases there : k ∈ keys xs
      · obtain ⟨v, found⟩ := Option.isSome_iff_exists.1 (contains_iff.2 there)
        rw [if_pos there, found, Option.some_or, Option.some_or]
      · rw [if_neg there, lookup_append_self there, lookup_eq_none there, if_pos rfl, Option.none_or,
          Option.some_or]
    · rw [if_neg same]
      split
      · rfl
      · rw [lookup_append, lookup_cons, if_neg same, lookup_nil, Option.or_none]

end Assoc

/-! ### Scopes -/

theorem Path.same_comm (p q : Path) : p.same q = q.same p := BEq.comm

/-- Each name has one value, and each file is loaded once. -/
structure Scope.Distinct (s : Scope) : Prop where
  constants : (Assoc.keys s.constants).Nodup
  vars : (Assoc.keys s.vars).Nodup
  loaded : s.loaded.Pairwise fun p q ↦ ¬p.same q

/-- What an execution does to a scope: the constants are those from before with the definitions, and
files are only added. What occurs once still does. -/
structure Scope.Grows (ds : Bindings) (s s' : Scope) : Prop where
  constants : s'.constants = Assoc.offerAll ds s.constants
  loaded : s.loaded <+: s'.loaded
  vars : (Assoc.keys s.vars).Nodup → (Assoc.keys s'.vars).Nodup
  files : (s.loaded.Pairwise fun p q ↦ ¬p.same q) → s'.loaded.Pairwise fun p q ↦ ¬p.same q

namespace Scope

variable {s s₁ s₂ : Scope} {ds es : Bindings}

/-- Definitions make a scope grow. -/
theorem Defines.grows (h : Defines ds s s₁) : Grows ds s s₁ where
  constants := h.constants
  loaded := h.loaded ▸ List.prefix_refl _
  vars := h.vars
  files := h.loaded ▸ id

theorem Grows.refl (s : Scope) : Grows [] s s := (Defines.refl s).grows

/-- What grows by definitions and then by more has grown by both. -/
theorem Grows.trans (first : Grows ds s s₁) (second : Grows es s₁ s₂) : Grows (ds ++ es) s s₂ where
  constants := by rw [second.constants, first.constants, Assoc.offerAll_append]
  loaded := first.loaded.trans second.loaded
  vars := second.vars ∘ first.vars
  files := second.files ∘ first.files

/-- A scope grows by no definition when a file is marked as loaded. -/
theorem grows_markLoaded (s : Scope) (path : Path) : Grows [] s (s.markLoaded path) := by
  unfold markLoaded
  split
  · exact .refl s
  rename_i new
  refine ⟨rfl, List.prefix_append _ _, id, fun files ↦ ?_⟩
  refine List.pairwise_append.2 ⟨files, List.pairwise_singleton _ _, fun p hp q hq same ↦ new ?_⟩
  rw [List.mem_singleton.1 hq, Path.same_comm] at same
  exact List.any_eq_true.2 ⟨p, hp, same⟩

/-- A scope that grows stays distinct. -/
theorem Grows.distinct (h : Grows ds s s₁) (distinct : s.Distinct) : s₁.Distinct where
  constants := by
    rw [h.constants]
    exact Assoc.nodup_keys_offerAll ds distinct.constants
  vars := h.vars distinct.vars
  loaded := h.files distinct.loaded

end Scope

/-! ### Executions -/

namespace Event

/-- The definition that an event carries out. -/
def definition? : Event → Option (String × Value)
  | .defined name value => some (name, value)
  | .begun _ _ | .reached _ => none

/-- The definitions that an execution carries out, in their order. -/
def bindings (log : List Event) : Bindings := log.filterMap definition?

theorem bindings_append (log log' : List Event) :
    bindings (log ++ log') = bindings log ++ bindings log' := List.filterMap_append

theorem bindings_definitions (ds : Bindings) : bindings (definitions ds) = ds := by
  rw [bindings, definitions, List.filterMap_map]
  exact List.filterMap_some

theorem bindings_reached (site : LoadSite) (log : List Event) :
    bindings (.reached site :: log) = bindings log := rfl

end Event

theorem Frame.defines_value {f : Frame} {e : Expr} {s s' : Scope} {v : Value} {ds : Bindings}
    (h : (f.recordedEval e).outcome s = (v, ds, s')) : Scope.Defines ds s s' :=
  ((f.recordedEval_of e).run_eq h).2

open Scope in
/-- An execution adds to the scope, however it ends. -/
theorem Executes.grows {task : Task} {t t' : Turn} {log : List Event} {r : Ending}
    (h : Executes task t log r t') : Grows (Event.bindings log) t.scope t'.scope := by
  induction h with
  | unreadable | done | leave | stop => exact .refl _
  | file _ _ ih | ended _ _ ih | block _ ih | conditional _ ih | otherwise _ ih => exact ih
  | next _ _ first more =>
    rw [Event.bindings_append]
    exact first.trans more
  | effect plain done =>
    rw [Event.bindings_definitions]
    exact (Frame.outcome_effect plain done none).2.grows
  | unknown asked _ =>
    rw [Event.bindings_definitions]
    exact (Frame.defines_value asked).grows
  | holds asked _ _ _ ih | fails asked _ _ _ ih =>
    rw [Event.bindings_append, Event.bindings_definitions]
    exact (Frame.defines_value asked).grows.trans ih
  | skipped asked _ | refused asked _ =>
    rw [Event.bindings_append, Event.bindings_definitions]
    exact (Frame.defines_value asked).grows.trans (.refl _)
  | entered asked _ _ ih =>
    rw [Event.bindings_append, Event.bindings_definitions, Event.bindings_reached]
    exact (Frame.defines_value asked).grows.trans ((grows_markLoaded _ _).trans ih)

/-! ### What is read -/

/-- The names that entries have in a namespace. -/
def Entry.names (kind : EntryKind) (es : List Entry) : List String :=
  (es.filter (·.kind = kind)).map (·.name)

namespace Snapshot

variable {s t : Scope}

/-- The names of the new entries are the keys that were not there before. -/
theorem names_diff (before : Snapshot) (t : Scope) :
    Entry.names .const (before.diff t) =
        Assoc.keys (t.constants.filter fun c ↦ !before.hasConstant c.1) ∧
      Entry.names .var (before.diff t) =
        Assoc.keys (t.vars.filter fun v ↦ !before.hasVariable v.1) := by
  simp [Entry.names, diff, inclusion, List.filter_map, Function.comp_def, Assoc.keys]

/-- A constant is read if it is new and has the value. -/
theorem mem_diff_const (distinct : t.Distinct) {n : String} {v : Value} :
    ⟨.const, n, v⟩ ∈ s.snapshot.diff t ↔ s.constant? n = none ∧ t.constant? n = some v := by
  refine ⟨fun h ↦ ⟨(value?_of_mem_diff h (by simp)).1, ?_⟩, fun h ↦ mem_diff h.1 h.2⟩
  refine Assoc.lookup_of_mem distinct.constants ?_
  simp only [diff, inclusion, List.mem_append, List.mem_map, Entry.mk.injEq, reduceCtorEq, false_and,
    and_false, exists_false, or_false, false_or, true_and] at h
  obtain ⟨⟨_, _⟩, mem, rfl, rfl⟩ := h
  exact (List.mem_filter.1 mem).1

end Snapshot

/-- The history of a scope: running a source text adds to its constants and loaded files, and nothing
occurs twice. -/
theorem Scope.executeSource_grows (scope : Scope) (env : Environment) (source : List Char) (file : Path) :
    scope.constants <+: (scope.executeSource env source file).2.constants ∧
      scope.loaded <+: (scope.executeSource env source file).2.loaded ∧
      (scope.Distinct → (scope.executeSource env source file).2.Distinct) := by
  obtain ⟨log, r, t, run⟩ := ends_file 0 ⟨env, source, file⟩ ⟨scope, 0⟩ rfl
  have grows := run.grows
  rw [run.executeSource]
  refine ⟨?_, grows.loaded, grows.distinct⟩
  rw [grows.constants]
  exact Assoc.prefix_offerAll _ _

/-- The scopes that can be made. -/
inductive Scope.Made : Scope → Prop
  | empty : Made empty
  | withBuiltins : Made withBuiltins
  | define {s : Scope} (n : String) (v : Value) (made : Made s) : Made (s.define n v).2
  | setVariable {s : Scope} (n : String) (v : Value) (made : Made s) : Made (s.setVariable n v)
  | unsetVariable {s : Scope} (n : String) (made : Made s) : Made (s.unsetVariable n)
  | markLoaded {s : Scope} (path : Path) (made : Made s) : Made (s.markLoaded path)
  | executeSource {s : Scope} (env : Environment) (source : List Char) (file : Path) (made : Made s) :
      Made (s.executeSource env source file).2

/-- Every scope that can be made is distinct: making one only defines, assigns and marks. -/
theorem Scope.Made.distinct {s : Scope} (h : s.Made) : s.Distinct := by
  induction h with
  | empty => exact ⟨.nil, .nil, .nil⟩
  | withBuiltins => exact ⟨by decide, .nil, .nil⟩
  | define n v _ ih => exact (defines_define _ n v).grows.distinct ih
  | setVariable n v _ ih => exact (defines_setVariable _ n v).grows.distinct ih
  | unsetVariable n _ ih => exact (defines_unsetVariable _ n).grows.distinct ih
  | markLoaded path _ ih => exact (grows_markLoaded _ path).distinct ih
  | executeSource env source file _ ih => exact (executeSource_grows _ env source file).2.2 ih

namespace Reader

variable {r : Reader} {env : Environment} {source : List Char} {file path : Path} {es : List Entry}

/-- What the entries of a script are: its constants are new, no name is reported twice in a namespace,
and a constant has the value of the first definition of it that was carried out. -/
structure Reports (r : Reader) (env : Environment) (source : List Char) (file : Path)
    (es : List Entry) : Prop where
  fresh : ∀ e ∈ es, e.kind = .const → r.host.constant? e.name = none
  constants : (Entry.names .const es).Nodup
  vars : (Entry.names .var es).Nodup
  executed : ∃ log ending t, Executes (.file ⟨env, source, file⟩) ⟨r.start file, 0⟩ log ending t
  first : ∀ log ending t, Executes (.file ⟨env, source, file⟩) ⟨r.start file, 0⟩ log ending t →
    ∀ name value, ⟨.const, name, value⟩ ∈ es ↔
      r.host.constant? name = none ∧ Assoc.lookup name (Event.bindings log) = some value

theorem constants_start (r : Reader) (file : Path) : (r.start file).constants = r.host.constants :=
  (r.host.grows_markLoaded file).constants

/-- What is read is what the scope holds beyond the host, behind a run that did not fail. -/
theorem exists_of_readSource (h : r.readSource env source file = .ok es) : ∃ after,
    (r.start file).executeSource env source file = (.ok (), after) ∧
      es = (r.start file).snapshot.diff after := by
  rw [readSource] at h
  rcases run : (r.start file).executeSource env source file with ⟨e | _, after⟩
  · rw [run] at h
    cases h
  · rw [run] at h
    exact ⟨after, rfl, (Except.ok.inj h).symm⟩

/-- What is read from a script are the definitions of its execution: the new ones, each name once, each
with the value of its first definition. -/
theorem reports (distinct : r.host.Distinct) (read : r.readSource env source file = .ok es) :
    r.Reports env source file es := by
  obtain ⟨after, run, rfl⟩ := exists_of_readSource read
  have history := (r.start file).executeSource_grows env source file
  rw [run] at history
  have distinctAfter : after.Distinct := history.2.2 ((r.host.grows_markLoaded file).distinct distinct)
  -- A script is loaded when it starts, but nothing is defined yet.
  have host : ∀ n, (r.start file).constant? n = r.host.constant? n := fun n ↦
    congrArg (Assoc.lookup n) (r.constants_start file)
  obtain ⟨constants, vars⟩ := Snapshot.names_diff (r.start file).snapshot after
  refine ⟨fun e he isConst ↦ ?_, ?_, ?_, ends_file 0 _ _ rfl, fun log ending t execution name value ↦ ?_⟩
  · have new := (Snapshot.value?_of_mem_diff he (by rw [isConst]; decide)).1
    rw [isConst] at new
    exact (host e.name).symm.trans new
  · rw [constants]
    exact distinctAfter.constants.sublist (List.filter_sublist.map _)
  · rw [vars]
    exact distinctAfter.vars.sublist (List.filter_sublist.map _)
  · obtain rfl : after = t.scope := congrArg Prod.snd (run.symm.trans execution.executeSource)
    rw [Snapshot.mem_diff_const distinctAfter, host]
    refine and_congr_right fun new ↦ ?_
    rw [Scope.constant?, execution.grows.constants, Assoc.lookup_offerAll, constants_start,
      show Assoc.lookup name r.host.constants = none from new, Option.none_or]

/-- Reading a file is reading its source text under the path that it has without detours. -/
theorem exists_of_read (h : r.read env path = .ok es) : ∃ file source,
    env.canonical path = .ok file ∧ env.read file = .ok (.text source) ∧
      r.readSource env source file = .ok es := by
  simp only [Reader.read, Scope.afterFile, readScript, bind, Except.bind] at h
  split at h
  · cases h
  cases canonical : env.canonical path with
  | error e => rw [canonical] at h; cases h
  | ok file =>
    simp only [canonical, mapError_ok] at h
    cases there : env.read file with
    | error e => rw [there] at h; cases h
    | ok content =>
      cases content with
      | binary bytes => rw [there] at h; cases h
      | text source =>
        refine ⟨file, source, rfl, there, ?_⟩
        simp only [there] at h
        rw [readSource]
        rcases run : (r.start file).executeSource env source file with ⟨e | _, after⟩ <;>
          rw [run] at h
        · cases h
        · exact congrArg Except.ok (Except.ok.inj h)

end Reader

/-- Whatever a script does, also in the files that it loads and up to where it fails: constants keep
their values and their order, files stay loaded, and neither a name nor a file occurs twice, as in any
scope that can be made. So the entries that are read are new, each is reported once, and the value of a
constant is that of the first definition. -/
theorem executions_grow :
    (∀ scope : Scope, scope.Made → scope.Distinct) ∧
    (∀ (scope : Scope) env source file,
      scope.constants <+: (scope.executeSource env source file).2.constants ∧
        scope.loaded <+: (scope.executeSource env source file).2.loaded ∧
        (scope.Distinct → (scope.executeSource env source file).2.Distinct)) ∧
    (∀ (r : Reader) env source file es, r.host.Distinct → r.readSource env source file = .ok es →
      r.Reports env source file es) ∧
    ∀ (r : Reader) env path es, r.host.Distinct → r.read env path = .ok es →
      ∃ file source, env.canonical path = .ok file ∧ env.read file = .ok (.text source) ∧
        r.Reports env source file es := by
  refine ⟨fun _ ↦ Scope.Made.distinct, Scope.executeSource_grows, fun r env source file es ↦ Reader.reports,
    fun r env path es distinct read ↦ ?_⟩
  obtain ⟨file, source, canonical, there, readSource⟩ := Reader.exists_of_read read
  exact ⟨file, source, canonical, there, Reader.reports distinct readSource⟩

/-- Definitions in a condition, in another file, and too late. -/
theorem executions_grow_nested : ∃ source es,
    source = "<?php if (define('A', 1)) include '/a'; define('B', 4); $v = [define('C', 5)];".toList ∧
      Reader.standard.readSource (.single "<?php define('A', 2); const B = 3;".toList) source ⟨['/', 'b']⟩ =
        .ok es ∧
      es.map (fun e ↦ (e.kind, e.name, e.value.toText)) =
        [(.var, "v", "Array"), (.const, "A", "1"), (.const, "B", "3"), (.const, "C", "5"),
          (.inclusion, "a", "/a")] ∧
      Reader.standard.Reports (.single "<?php define('A', 2); const B = 3;".toList) source ⟨['/', 'b']⟩
        es := by
  obtain ⟨es, read, entries⟩ := Script.exists_of_any
    (p := fun es : List Entry ↦ es.map (fun e ↦ (e.kind, e.name, e.value.toText)) ==
      [(.var, "v", "Array"), (.const, "A", "1"), (.const, "B", "3"), (.const, "C", "5"),
        (.inclusion, "a", "/a")])
    (show (Reader.standard.readSource (.single "<?php define('A', 2); const B = 3;".toList)
      "<?php if (define('A', 1)) include '/a'; define('B', 4); $v = [define('C', 5)];".toList
      ⟨['/', 'b']⟩).toOption.any _ by decide +kernel)
  exact ⟨_, es, rfl, read, beq_iff_eq.1 entries,
    executions_grow.2.2.1 _ _ _ _ _ Scope.Made.withBuiltins.distinct read⟩

end ConfigScript
