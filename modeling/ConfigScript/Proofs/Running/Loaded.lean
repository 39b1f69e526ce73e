import ConfigScript.Proofs.Running.Growth

/-!
# The files that an execution loads

The files that a scope counts as loaded are the files that were begun, each once and in the order in
which they were begun first. This holds behind an execution (`Executes.accounts`), and at every
statement that loads a file on the way (`Executes.loaded_at`).
-/

namespace ConfigScript

/-! ### Files one after the other -/

namespace Path

/-- The files that are loaded once the file is. -/
def addTo (p : Path) (loaded : List Path) : List Path :=
  if loaded.any p.same then loaded else loaded ++ [p]

/-- The files that are loaded once one file after the other is. -/
def addAll (ps loaded : List Path) : List Path := ps.foldl (fun loaded p ↦ p.addTo loaded) loaded

theorem addTo_of_any {p : Path} {loaded : List Path} (h : loaded.any p.same) :
    p.addTo loaded = loaded := if_pos h

/-- A file is loaded once it was added. -/
theorem any_addTo (p : Path) (loaded : List Path) : (p.addTo loaded).any p.same := by
  unfold addTo
  split
  · assumption
  · have self : p.same p = true := beq_self_eq_true _
    simp [self]

@[simp]
theorem addAll_append (ps qs loaded : List Path) :
    addAll (ps ++ qs) loaded = addAll qs (addAll ps loaded) := List.foldl_append

/-- All files are loaded as the list without repetitions. -/
theorem addAll_singleton (p : Path) (ps : List Path) :
    addAll ps [p] = (p :: ps).eraseDupsBy Path.same := by
  have loop : ∀ ps loaded : List Path,
      addAll ps loaded = List.eraseDupsBy.loop Path.same ps loaded.reverse := by
    intro ps
    induction ps with
    | nil => simp [addAll, List.eraseDupsBy.loop]
    | cons q ps ih =>
      intro loaded
      show addAll ps (q.addTo loaded) = _
      rw [ih, addTo, List.eraseDupsBy.loop, List.any_reverse]
      cases loaded.any q.same <;> simp
  exact loop ps [p]

/-- A file that is loaded was loaded before or is the added one. -/
theorem mem_addTo {p q : Path} {loaded : List Path} (h : p ∈ q.addTo loaded) :
    p ∈ loaded ∨ p = q := by
  unfold addTo at h
  split at h
  · exact .inl h
  · exact (List.mem_append.1 h).imp_right List.mem_singleton.1

/-- A file that is loaded was loaded before or is one of those added. -/
theorem mem_addAll {p : Path} {ps loaded : List Path} (h : p ∈ addAll ps loaded) :
    p ∈ loaded ∨ p ∈ ps := by
  induction ps generalizing loaded with
  | nil => exact .inl h
  | cons q ps ih =>
    rcases ih h with mem | mem
    · exact (mem_addTo mem).imp_right fun same ↦ List.mem_cons.2 (.inl same)
    · exact .inr (List.mem_cons_of_mem q mem)

end Path

theorem Scope.loaded_markLoaded (s : Scope) (p : Path) :
    (s.markLoaded p).loaded = p.addTo s.loaded := by
  unfold markLoaded Path.addTo isLoaded
  split <;> rfl

/-! ### Events -/

namespace Event

/-- The file that an event begins. -/
def file? : Event → Option Path
  | .begun file _ => some file
  | .defined _ _ | .reached _ => none

/-- The files that are begun, in their order. -/
def files (log : List Event) : List Path := log.filterMap file?

@[simp]
theorem files_append (log log' : List Event) : files (log ++ log') = files log ++ files log' :=
  List.filterMap_append

@[simp]
theorem files_definitions (ds : Bindings) : files (definitions ds) = [] := by
  simp [files, definitions, file?]

/-- The files of an execution are those that are begun in it. -/
theorem mem_files {p : Path} {log : List Event} :
    p ∈ files log ↔ ∃ depth, .begun p depth ∈ log := by
  simp only [files, List.mem_filterMap]
  refine ⟨?_, fun ⟨depth, mem⟩ ↦ ⟨_, mem, rfl⟩⟩
  rintro ⟨_ | _ | _, mem, same⟩
  · exact ⟨_, Option.some.inj same ▸ mem⟩
  · cases same
  · cases same

/-- At each statement that loads a file, those files are loaded that were so at first, and those
that were begun before. -/
def Traces : List Path → List Event → Prop
  | _, [] => True
  | loaded, .begun file _ :: log => Traces (file.addTo loaded) log
  | loaded, .defined _ _ :: log => Traces loaded log
  | loaded, .reached site :: log => site.turn.scope.loaded = loaded ∧ Traces loaded log

/-- An execution is traced if its parts are, the second one from the files of the first. -/
theorem traces_append {loaded : List Path} {log log' : List Event} :
    Traces loaded (log ++ log') ↔
      Traces loaded log ∧ Traces (Path.addAll (files log) loaded) log' := by
  induction log generalizing loaded with
  | nil => exact (and_iff_right trivial).symm
  | cons e log ih =>
    match e with
    | .begun file _ => exact ih
    | .defined _ _ => exact ih
    | .reached site =>
      show site.turn.scope.loaded = loaded ∧ Traces loaded (log ++ log') ↔ _
      rw [ih, ← and_assoc]
      rfl

/-- From the loaded files `before` on, the files that are begun are loaded, which makes them
`after`. -/
structure Accounts (log : List Event) (before after : List Path) : Prop where
  loaded : after = Path.addAll (files log) before
  traces : Traces before log

variable {log log' : List Event} {before after last : List Path}

theorem Accounts.nil (loaded : List Path) : Accounts [] loaded loaded := ⟨rfl, trivial⟩

theorem Accounts.append (h : Accounts log before after) (h' : Accounts log' after last) :
    Accounts (log ++ log') before last where
  loaded := by rw [h'.loaded, h.loaded, files_append, Path.addAll_append]
  traces := traces_append.2 ⟨h.traces, h.loaded ▸ h'.traces⟩

/-- Definitions load no file. -/
theorem Accounts.definitions (ds : Bindings) (loaded : List Path) :
    Accounts (definitions ds) loaded loaded where
  loaded := by rw [files_definitions]; rfl
  traces := by
    induction ds with
    | nil => trivial
    | cons d ds ih => exact ih

theorem Accounts.reached {site : LoadSite} (same : site.turn.scope.loaded = before)
    (h : Accounts log before after) : Accounts (.reached site :: log) before after :=
  ⟨h.loaded, same, h.traces⟩

theorem accounts_begun {file : Path} {depth : Nat} :
    Accounts (.begun file depth :: log) before after ↔ Accounts log (file.addTo before) after :=
  ⟨fun h ↦ ⟨h.loaded, h.traces⟩, fun h ↦ ⟨h.loaded, h.traces⟩⟩

end Event

/-! ### What an execution loads -/

/-- Where a file is executed, it counts as loaded. -/
def Task.IsStarted (s : Scope) : Task → Prop
  | .file f => s.isLoaded f.file
  | _ => True

namespace Executes

variable {task : Task} {t t' : Turn} {log : List Event} {r : Ending}

open Event

/-- The execution of a file begins with that file. -/
theorem exists_begun {f : Frame} (h : Executes (.file f) t log r t') :
    ∃ rest, log = .begun f.file t.depth :: rest := by
  match h with
  | .unreadable _ => exact ⟨_, rfl⟩
  | .file _ _ => exact ⟨_, rfl⟩

/-- An execution loads the files that it begins. -/
theorem accounts (h : Executes task t log r t') (started : task.IsStarted t.scope) :
    Accounts log t.scope.loaded t'.scope.loaded := by
  -- The path of a file or a condition is evaluated first, which loads nothing.
  have asked {f : Frame} {e : Expr} {s s' : Scope} {v : Value} {ds : Bindings}
      (h : (f.recordedEval e).outcome s = (v, ds, s')) :
      Accounts (Event.definitions ds) s.loaded s'.loaded :=
    (Frame.defines_value h).loaded ▸ .definitions ds _
  induction h with
  | unreadable _ =>
    rw [accounts_begun, Path.addTo_of_any started]
    exact .nil _
  | file _ _ ih =>
    rw [accounts_begun, Path.addTo_of_any started]
    exact ih trivial
  | done | leave | stop => exact .nil _
  | next _ _ firstIh moreIh => exact (firstIh trivial).append (moreIh trivial)
  | ended _ _ ih | block _ ih | conditional _ ih | otherwise _ ih => exact ih trivial
  | effect plain done =>
    exact (Frame.outcome_effect plain done none).2.loaded ▸ .definitions _ _
  | unknown condition _ => exact asked condition
  | holds condition _ _ _ ih | fails condition _ _ _ ih =>
    exact (asked condition).append (ih trivial)
  | skipped path _ | refused path _ => exact (asked path).append (.reached (by rfl) (.nil _))
  | @entered f g sp kind p t t' v ds scope log r path verdict inside ih =>
    refine (asked path).append (.reached (by rfl) ?_)
    obtain ⟨rest, rfl⟩ := inside.exists_begun
    -- The statement marks the file as loaded, and its begin does so again, which changes nothing.
    have marked := scope.loaded_markLoaded g.file
    have there := g.file.any_addTo scope.loaded
    have more := ih (by rw [Task.IsStarted, Scope.isLoaded, marked]; exact there)
    rw [marked, accounts_begun, Path.addTo_of_any there] at more
    exact accounts_begun.2 more

/-- At a statement that loads a file, those files are loaded that were so at first, and those that
were begun before. -/
theorem loaded_at (h : Executes task t log r t') (started : task.IsStarted t.scope)
    {before after : List Event} {site : LoadSite} (here : log = before ++ .reached site :: after) :
    site.turn.scope.loaded = Path.addAll (files before) t.scope.loaded := by
  have traces := (h.accounts started).traces
  rw [here, traces_append] at traces
  exact traces.2.1

end Executes

end ConfigScript
