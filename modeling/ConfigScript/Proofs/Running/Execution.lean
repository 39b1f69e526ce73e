import ConfigScript.Proofs.Parsing.Faults
import ConfigScript.Proofs.Running.Record

/-!
# Executions

An execution of a script, told as it happens: which file is begun, which constants are defined, which
statements that load a file are reached, and how it ends (`Executes`). The depth is a counter that goes
up when a file is entered and down when it is left, however that ends. Nothing in the rules says that
files nest no deeper than the limit; it is the check of the counter that keeps them from it
(`LoadSite.verdict`).

Every execution does what the run does that nests files as deep as is left
(`Executes.outcome`), and every file that is executed has an execution, which is a finite tree
(`ends_file`).
-/

namespace ConfigScript

/-! ### Statements that load a file -/

/-- Where an execution is: what is defined, and how many files it is in besides the first. -/
structure Turn where
  scope : Scope
  depth : Nat

/-- A statement that loads a file is reached, and its path has a value. -/
structure LoadSite where
  frame : Frame
  span : Span
  kind : IncludeKind
  path : Value
  turn : Turn

/-- What a statement that loads a file comes to: nothing, an error, or that a file is run. -/
inductive Verdict where
  | skip
  | refuse (e : ScriptError)
  | enter (f : Frame)

namespace LoadSite

/-- The path to load, seen from the directory of the script. -/
def candidate (l : LoadSite) : Path := l.frame.directory.join (.ofString l.path.toText)

/-- The checks of a statement that loads a file, in their order. -/
def verdict (l : LoadSite) : Verdict :=
  if l.path.isOpaque then .skip
  else if l.candidate.fileName? == some bootstrapName then .skip
  else match l.frame.locate l.candidate with
    | .error _ =>
      if l.kind.isRequired then .refuse (l.frame.error l.span (.missingRequire l.candidate)) else .skip
    | .ok (resolved, content) =>
      if l.kind.isOnce && l.turn.scope.isLoaded resolved then .skip
      else if maxDepth ≤ l.turn.depth then .refuse (l.frame.error l.span .includeDepthExceeded)
      else match content with
        | .binary _ => .refuse ⟨some resolved, 1, 1, .invalidUtf8⟩
        | .text source => .enter ⟨l.frame.environment, source, resolved⟩

end LoadSite

/-! ### The rules -/

/-- What happens in an execution. -/
inductive Event where
  /-- A file is begun, at a depth. -/
  | begun (file : Path) (depth : Nat)
  /-- A constant is defined, or would be if it were not defined already. -/
  | defined (name : String) (value : Value)
  /-- A statement that loads a file is reached. -/
  | reached (site : LoadSite)

/-- The definitions of a record as events. -/
def Event.definitions (ds : Bindings) : List Event := ds.map fun d ↦ .defined d.1 d.2

/-- What is executed. -/
inductive Task where
  | file (f : Frame)
  | stmt (f : Frame) (s : Stmt)
  | stmts (f : Frame) (ss : List Stmt)
  /-- Branches, and what is run if no condition holds. -/
  | branches (f : Frame) (bs : List Branch) (otherwise : List Stmt)

/-- How an execution ends. -/
abbrev Ending := Except ScriptError Flow

/-- How it goes on behind a file that was loaded: errors and the end of the whole run get out of it. -/
def Ending.behindFile : Ending → Ending
  | .ok .stop => .ok .stop
  | .ok _ => .ok .goOn
  | .error e => .error e

/-- The executions, with what happens in them, how they end, and where. -/
inductive Executes : Task → Turn → List Event → Ending → Turn → Prop
  | unreadable {f : Frame} {t : Turn} {e : ScriptError} (unparsed : Script.parse f.source = .error e) :
      Executes (.file f) t [.begun f.file t.depth] (.error (e.inFile f.file)) t
  | file {f : Frame} {t t' : Turn} {ss : List Stmt} {log : List Event} {r : Ending}
      (parsed : Script.parse f.source = .ok ss) (inside : Executes (.stmts f ss) t log r t') :
      Executes (.file f) t (.begun f.file t.depth :: log) r t'
  | done {f : Frame} {t : Turn} : Executes (.stmts f []) t [] (.ok .goOn) t
  | next {f : Frame} {s : Stmt} {ss : List Stmt} {t t₁ t' : Turn} {log log' : List Event} {r : Ending}
      (first : Executes (.stmt f s) t log (.ok .goOn) t₁)
      (more : Executes (.stmts f ss) t₁ log' r t') : Executes (.stmts f (s :: ss)) t (log ++ log') r t'
  | ended {f : Frame} {s : Stmt} {ss : List Stmt} {t t' : Turn} {log : List Event} {r : Ending}
      (first : Executes (.stmt f s) t log r t') (ends : r ≠ .ok .goOn) :
      Executes (.stmts f (s :: ss)) t log r t'
  | effect {f : Frame} {s : Stmt} {t : Turn} {x : Recorded Unit} {ds : Bindings} {scope : Scope}
      (plain : f.effect? s = some x) (done : x.outcome t.scope = ((), ds, scope)) :
      Executes (.stmt f s) t (Event.definitions ds) (.ok .goOn) ⟨scope, t.depth⟩
  | leave {f : Frame} {sp : Span} {t : Turn} : Executes (.stmt f (.ret sp)) t [] (.ok .leave) t
  | stop {f : Frame} {sp : Span} {t : Turn} : Executes (.stmt f (.exit sp)) t [] (.ok .stop) t
  | block {f : Frame} {sp : Span} {ss : List Stmt} {t t' : Turn} {log : List Event} {r : Ending}
      (inside : Executes (.stmts f ss) t log r t') : Executes (.stmt f (.block sp ss)) t log r t'
  | conditional {f : Frame} {sp : Span} {bs : List Branch} {otherwise : Option (List Stmt)} {t t' : Turn}
      {log : List Event} {r : Ending}
      (inside : Executes (.branches f bs (otherwise.getD [])) t log r t') :
      Executes (.stmt f (.conditional sp bs otherwise)) t log r t'
  | otherwise {f : Frame} {ss : List Stmt} {t t' : Turn} {log : List Event} {r : Ending}
      (inside : Executes (.stmts f ss) t log r t') : Executes (.branches f [] ss) t log r t'
  | unknown {f : Frame} {c : Expr} {body : List Stmt} {bs : List Branch} {ss : List Stmt} {t : Turn}
      {v : Value} {ds : Bindings} {scope : Scope}
      (asked : (f.recordedEval c).outcome t.scope = (v, ds, scope)) (unknown : v.isOpaque) :
      Executes (.branches f (.mk c body :: bs) ss) t (Event.definitions ds) (.ok .goOn) ⟨scope, t.depth⟩
  | holds {f : Frame} {c : Expr} {body : List Stmt} {bs : List Branch} {ss : List Stmt} {t t' : Turn}
      {v : Value} {ds : Bindings} {scope : Scope} {log : List Event} {r : Ending}
      (asked : (f.recordedEval c).outcome t.scope = (v, ds, scope)) (known : ¬v.isOpaque)
      (yes : v.isTruthy) (inside : Executes (.stmts f body) ⟨scope, t.depth⟩ log r t') :
      Executes (.branches f (.mk c body :: bs) ss) t (Event.definitions ds ++ log) r t'
  | fails {f : Frame} {c : Expr} {body : List Stmt} {bs : List Branch} {ss : List Stmt} {t t' : Turn}
      {v : Value} {ds : Bindings} {scope : Scope} {log : List Event} {r : Ending}
      (asked : (f.recordedEval c).outcome t.scope = (v, ds, scope)) (known : ¬v.isOpaque)
      (no : ¬v.isTruthy) (more : Executes (.branches f bs ss) ⟨scope, t.depth⟩ log r t') :
      Executes (.branches f (.mk c body :: bs) ss) t (Event.definitions ds ++ log) r t'
  | skipped {f : Frame} {sp : Span} {kind : IncludeKind} {p : Expr} {t : Turn} {v : Value}
      {ds : Bindings} {scope : Scope} (asked : (f.recordedEval p).outcome t.scope = (v, ds, scope))
      (verdict : LoadSite.verdict ⟨f, sp, kind, v, ⟨scope, t.depth⟩⟩ = .skip) :
      Executes (.stmt f (.load sp kind p)) t
        (Event.definitions ds ++ [.reached ⟨f, sp, kind, v, ⟨scope, t.depth⟩⟩]) (.ok .goOn)
        ⟨scope, t.depth⟩
  | refused {f : Frame} {sp : Span} {kind : IncludeKind} {p : Expr} {t : Turn} {v : Value}
      {ds : Bindings} {scope : Scope} {e : ScriptError}
      (asked : (f.recordedEval p).outcome t.scope = (v, ds, scope))
      (verdict : LoadSite.verdict ⟨f, sp, kind, v, ⟨scope, t.depth⟩⟩ = .refuse e) :
      Executes (.stmt f (.load sp kind p)) t
        (Event.definitions ds ++ [.reached ⟨f, sp, kind, v, ⟨scope, t.depth⟩⟩]) (.error e)
        ⟨scope, t.depth⟩
  | entered {f g : Frame} {sp : Span} {kind : IncludeKind} {p : Expr} {t t' : Turn} {v : Value}
      {ds : Bindings} {scope : Scope} {log : List Event} {r : Ending}
      (asked : (f.recordedEval p).outcome t.scope = (v, ds, scope))
      (verdict : LoadSite.verdict ⟨f, sp, kind, v, ⟨scope, t.depth⟩⟩ = .enter g)
      (inside : Executes (.file g) ⟨scope.markLoaded g.file, t.depth + 1⟩ log r t') :
      Executes (.stmt f (.load sp kind p)) t
        (Event.definitions ds ++ .reached ⟨f, sp, kind, v, ⟨scope, t.depth⟩⟩ :: log) r.behindFile
        ⟨t'.scope, t'.depth - 1⟩

/-! ### Executions and runs -/

/-- How files are run where `left` more of them may nest. -/
def runnerBelow (env : Environment) : Nat → Option Runner
  | 0 => none
  | left + 1 => some (runNested env left)

theorem runNested_eq (env : Environment) (left : Nat) :
    runNested env left = runWith env (runnerBelow env left) := by cases left <;> rfl

/-- The run of a task where `left` more files may nest. -/
def Task.run (left : Nat) : Task → Run Flow
  | .file f => runNested f.environment left f.source f.file
  | .stmt f s => f.exec (runnerBelow f.environment left) s
  | .stmts f ss => f.execAll (runnerBelow f.environment left) ss
  | .branches f bs ss =>
    f.choose (runnerBelow f.environment left) (f.execAll (runnerBelow f.environment left) ss) bs

/-- A text that is found is run, and only errors and the end of the whole run get out of it. -/
theorem Frame.outcome_runFound (f : Frame) (run : Runner) (sp : Span) (source : List Char)
    (resolved : Path) (s : Scope) :
    (f.runFound (some run) sp resolved (.text source)).outcome s =
      (Ending.behindFile ((run source resolved).outcome (s.markLoaded resolved)).1,
        ((run source resolved).outcome (s.markLoaded resolved)).2) := by
  have marked : Run.outcome (modify (·.markLoaded resolved)) s = (.ok (), s.markLoaded resolved) := rfl
  unfold Frame.runFound
  dsimp only
  rw [Run.outcome_bind_ok marked, Run.outcome_bind]
  rcases (run source resolved).outcome (s.markLoaded resolved) with ⟨_ | _ | _ | _, t⟩ <;> rfl

namespace LoadSite

variable {l : LoadSite}

/-- Files are entered in front of the limit only. -/
theorem lt_of_enter {g : Frame} (h : l.verdict = .enter g) : l.turn.depth < maxDepth := by
  unfold verdict at h
  split at h
  · cases h
  split at h
  · cases h
  split at h
  · split at h <;> cases h
  split at h
  · cases h
  split at h
  · cases h
  · rename_i below
    exact Nat.lt_of_not_le below

/-- What a statement that loads a file does is what its verdict says. -/
theorem outcome_load (l : LoadSite) {left : Nat} (h : l.turn.depth + left = maxDepth) :
    (l.frame.load (runnerBelow l.frame.environment left) l.span l.kind l.path).outcome l.turn.scope =
      match l.verdict with
      | .skip => (.ok .goOn, l.turn.scope)
      | .refuse e => (.error e, l.turn.scope)
      | .enter g =>
        let r := (runNested g.environment (left - 1) g.source g.file).outcome
          (l.turn.scope.markLoaded g.file)
        (Ending.behindFile r.1, r.2) := by
  obtain ⟨f, sp, kind, v, ⟨s, depth⟩⟩ := l
  unfold verdict Frame.load candidate
  dsimp only at h ⊢
  split
  · rfl
  split
  · rfl
  cases found : f.locate (f.directory.join (.ofString v.toText)) with
  | error e =>
    dsimp only
    split <;> rfl
  | ok x =>
    obtain ⟨resolved, content⟩ := x
    show Run.outcome (if kind.isOnce && s.isLoaded resolved then pure .goOn
      else f.runFound (runnerBelow f.environment left) sp resolved content) s = _
    dsimp only
    split
    · rfl
    -- The counter is at the limit exactly if no file may be run below.
    cases left with
    | zero =>
      rw [if_pos (show maxDepth ≤ depth from Nat.le_of_eq h.symm)]
      rfl
    | succ left =>
      rw [if_neg (show ¬maxDepth ≤ depth by omega)]
      cases content with
      | binary _ => rfl
      | text source => exact f.outcome_runFound _ sp source resolved s

end LoadSite

namespace Frame

variable {f : Frame} {runner : Option Runner} {s s' : Scope} {v : Value} {ds : Bindings}

/-- An expression has the value of its recorded evaluation. -/
theorem outcome_value {e : Expr} (h : (f.recordedEval e).outcome s = (v, ds, s')) :
    (f.value e).outcome s = (.ok v, s') := by
  have run : (f.eval e).run s = (v, s') := ((f.recordedEval_of e).run_eq h).1
  show (Except.ok ((f.eval e).run s).1, ((f.eval e).run s).2) = _
  rw [run]

/-- Nothing is run behind a statement that ends the file or the run, or fails. -/
theorem execAll_ended {a : Stmt} (as : List Stmt) {r : Ending}
    (h : (f.exec runner a).outcome s = (r, s')) (ends : r ≠ .ok .goOn) :
    (f.execAll runner (a :: as)).outcome s = (r, s') := by
  rw [execAll, Run.outcome_bind, h]
  rcases r with _ | _ | _ | _
  · rfl
  · exact absurd rfl ends
  · rfl
  · rfl

/-- A conditional chooses among its branches. -/
theorem exec_conditional (sp : Span) (bs : List Branch) (otherwise : Option (List Stmt)) :
    f.exec runner (.conditional sp bs otherwise) =
      f.choose runner (f.execAll runner (otherwise.getD [])) bs := by
  cases otherwise with
  | none => rw [exec, Option.getD_none, execAll]
  | some ss => rw [exec, Option.getD_some]

/-- A branch whose condition has a value. -/
theorem outcome_choose {c : Expr} (body : List Stmt) (bs : List Branch) (otherwise : Run Flow)
    (h : (f.recordedEval c).outcome s = (v, ds, s')) :
    (f.choose runner otherwise (.mk c body :: bs)).outcome s =
      if v.isOpaque then (.ok .goOn, s')
      else if v.isTruthy then (f.execAll runner body).outcome s'
      else (f.choose runner otherwise bs).outcome s' := by
  rw [choose, Run.outcome_bind_ok (outcome_value h)]
  split
  · rfl
  split <;> rfl

/-- A statement that loads a file, when its path has a value. -/
theorem outcome_exec_load (sp : Span) (kind : IncludeKind) {p : Expr} {left depth : Nat}
    (h : (f.recordedEval p).outcome s = (v, ds, s')) (room : depth + left = maxDepth) :
    (f.exec (runnerBelow f.environment left) (.load sp kind p)).outcome s =
      match LoadSite.verdict ⟨f, sp, kind, v, ⟨s', depth⟩⟩ with
      | .skip => (.ok .goOn, s')
      | .refuse e => (.error e, s')
      | .enter g =>
        let r := (runNested g.environment (left - 1) g.source g.file).outcome (s'.markLoaded g.file)
        (Ending.behindFile r.1, r.2) := by
  rw [exec, Run.outcome_bind_ok (outcome_value h)]
  exact LoadSite.outcome_load ⟨f, sp, kind, v, ⟨s', depth⟩⟩ room

end Frame

namespace Executes

variable {task : Task} {t t' : Turn} {log : List Event} {r : Ending}

/-- The depth behind an execution is the depth in front of it, however it ends. -/
theorem depth_eq (h : Executes task t log r t') : t'.depth = t.depth := by
  induction h with
  | unreadable | done | effect | leave | stop | unknown | skipped | refused => rfl
  | file _ _ ih | ended _ _ ih | block _ ih | conditional _ ih | otherwise _ ih => exact ih
  | holds _ _ _ _ ih | fails _ _ _ _ ih => exact ih
  | next _ _ first more => exact more.trans first
  | entered _ _ _ ih => exact Nat.sub_eq_of_eq_add ih

/-- An execution does what the run does that may nest as many files as are left. -/
theorem outcome (h : Executes task t log r t') {left : Nat} (room : t.depth + left = maxDepth) :
    (task.run left).outcome t.scope = (r, t'.scope) := by
  induction h generalizing left with
  | unreadable unparsed =>
    rw [Task.run, runNested_eq, runWith, unparsed]
    rfl
  | file parsed _ ih =>
    rw [Task.run, runNested_eq, runWith, parsed]
    exact ih room
  | done =>
    rw [Task.run, Frame.execAll]
    rfl
  | @next f s ss t t₁ t' log log' r first _ firstIh moreIh =>
    rw [Task.run, Frame.execAll_cons ss (firstIh room)]
    exact moreIh (by rw [first.depth_eq, room])
  | @ended f s ss t t' log r _ ends ih =>
    exact Frame.execAll_ended ss (ih room) ends
  | effect plain done => exact (Frame.outcome_effect plain done _).1
  | leave =>
    rw [Task.run, Frame.exec]
    rfl
  | stop =>
    rw [Task.run, Frame.exec]
    rfl
  | block _ ih =>
    rw [Task.run, Frame.exec]
    exact ih room
  | conditional _ ih =>
    rw [Task.run, Frame.exec_conditional]
    exact ih room
  | otherwise _ ih =>
    rw [Task.run, Frame.choose]
    exact ih room
  | unknown asked unknown => rw [Task.run, Frame.outcome_choose _ _ _ asked, if_pos unknown]
  | holds asked known yes _ ih =>
    rw [Task.run, Frame.outcome_choose _ _ _ asked, if_neg known, if_pos yes]
    exact ih room
  | fails asked known no _ ih =>
    rw [Task.run, Frame.outcome_choose _ _ _ asked, if_neg known, if_neg no]
    exact ih room
  | skipped asked verdict => rw [Task.run, Frame.outcome_exec_load _ _ asked room, verdict]
  | refused asked verdict => rw [Task.run, Frame.outcome_exec_load _ _ asked room, verdict]
  | @entered f g sp kind p t t' v ds scope log r asked verdict _ ih =>
    have below := LoadSite.lt_of_enter verdict
    rw [Task.run, Frame.outcome_exec_load _ _ asked room, verdict]
    dsimp only
    -- Below, the counter is one higher and room is left for one file less.
    have less : t.depth + 1 + (left - 1) = maxDepth := by
      dsimp only at below
      omega
    have inside := ih less
    rw [Task.run] at inside
    dsimp only at inside
    rw [inside]

end Executes

/-! ### Every execution ends -/

/-- From a depth on, the task has an execution in every scope. -/
def Task.Ends (task : Task) (depth : Nat) : Prop :=
  ∀ t : Turn, t.depth = depth → ∃ log r t', Executes task t log r t'

/-- From a depth on, the files that may be entered have an execution. -/
def FilesEnd (depth : Nat) : Prop := depth < maxDepth → ∀ g, (Task.file g).Ends (depth + 1)

section Ends

variable {depth : Nat}

/-- A statement that loads a file has an execution if the files that may be entered have one. -/
theorem ends_load (files : FilesEnd depth) (f : Frame) (sp : Span) (kind : IncludeKind) (p : Expr) :
    (Task.stmt f (.load sp kind p)).Ends depth := by
  rintro ⟨scope, d⟩ rfl
  rcases asked : (f.recordedEval p).outcome scope with ⟨v, ds, s⟩
  cases verdict : LoadSite.verdict ⟨f, sp, kind, v, ⟨s, d⟩⟩ with
  | skip => exact ⟨_, _, _, .skipped asked verdict⟩
  | refuse e => exact ⟨_, _, _, .refused asked verdict⟩
  | enter g =>
    obtain ⟨log, r, t', inside⟩ :=
      files (LoadSite.lt_of_enter verdict) g ⟨s.markLoaded g.file, d + 1⟩ rfl
    exact ⟨_, _, _, .entered asked verdict inside⟩

mutual

/-- Each statement has an execution if the files that may be entered have one. By recursion on the
statement. -/
theorem ends_stmt (files : FilesEnd depth) (f : Frame) (s : Stmt) : (Task.stmt f s).Ends depth := by
  have plain : ∀ x, f.effect? s = some x → (Task.stmt f s).Ends depth := fun x h t _ ↦ by
    rcases done : x.outcome t.scope with ⟨_, ds, scope⟩
    exact ⟨_, _, _, .effect h done⟩
  match s with
  | .expr .. | .assign .. | .const .. | .unset .. | .global .. | .inlineHtml .. | .opaqueStmt .. =>
    exact plain _ rfl
  | .ret sp => exact fun t _ ↦ ⟨_, _, _, .leave⟩
  | .exit sp => exact fun t _ ↦ ⟨_, _, _, .stop⟩
  | .load sp kind p => exact ends_load files f sp kind p
  | .block sp ss =>
    intro t ht
    obtain ⟨log, r, t', inside⟩ := ends_stmts files f ss t ht
    exact ⟨_, _, _, .block inside⟩
  | .conditional sp bs none =>
    intro t ht
    obtain ⟨log, r, t', inside⟩ := ends_branches files f bs (fun _ _ ↦ ⟨_, _, _, .done⟩) t ht
    exact ⟨_, _, _, .conditional inside⟩
  | .conditional sp bs (some ss) =>
    intro t ht
    obtain ⟨log, r, t', inside⟩ := ends_branches files f bs (ends_stmts files f ss) t ht
    exact ⟨_, _, _, .conditional inside⟩

/-- Statements have an execution one after the other. -/
theorem ends_stmts (files : FilesEnd depth) (f : Frame) (ss : List Stmt) : (Task.stmts f ss).Ends depth := by
  match ss with
  | [] => exact fun t _ ↦ ⟨_, _, _, .done⟩
  | s :: ss =>
    intro t ht
    obtain ⟨log, r, t₁, first⟩ := ends_stmt files f s t ht
    by_cases goesOn : r = .ok .goOn
    · subst goesOn
      obtain ⟨log', r', t', more⟩ := ends_stmts files f ss t₁ (first.depth_eq.trans ht)
      exact ⟨_, _, _, .next first more⟩
    · exact ⟨_, _, _, .ended first goesOn⟩

/-- Branches have an execution, whichever of them is chosen. -/
theorem ends_branches (files : FilesEnd depth) (f : Frame) (bs : List Branch) {ss : List Stmt}
    (otherwise : (Task.stmts f ss).Ends depth) : (Task.branches f bs ss).Ends depth := by
  match bs with
  | [] =>
    intro t ht
    obtain ⟨log, r, t', inside⟩ := otherwise t ht
    exact ⟨_, _, _, .otherwise inside⟩
  | .mk c body :: bs =>
    intro t ht
    rcases asked : (f.recordedEval c).outcome t.scope with ⟨v, ds, s⟩
    by_cases unknown : v.isOpaque
    · exact ⟨_, _, _, .unknown asked unknown⟩
    by_cases yes : v.isTruthy
    · obtain ⟨log, r, t', inside⟩ := ends_stmts files f body ⟨s, t.depth⟩ ht
      exact ⟨_, _, _, .holds asked unknown yes inside⟩
    · obtain ⟨log, r, t', more⟩ := ends_branches files f bs otherwise ⟨s, t.depth⟩ ht
      exact ⟨_, _, _, .fails asked unknown yes more⟩

end

end Ends

/-- Files end: by the depth that is left, and at each depth by the statements of the file. -/
theorem ends_file (depth : Nat) (f : Frame) : (Task.file f).Ends depth := by
  intro t ht
  cases parsed : Script.parse f.source with
  | error e => exact ⟨_, _, _, .unreadable parsed⟩
  | ok ss =>
    obtain ⟨log, r, t', inside⟩ := ends_stmts (fun _ g ↦ ends_file (depth + 1) g) f ss t ht
    exact ⟨_, _, _, .file parsed inside⟩
termination_by maxDepth - depth

/-- Running a source text is executing it as a file at depth zero. -/
theorem Executes.executeSource {env : Environment} {source : List Char} {file : Path} {scope : Scope}
    {t : Turn} {log : List Event} {r : Ending}
    (h : Executes (.file ⟨env, source, file⟩) ⟨scope, 0⟩ log r t) :
    scope.executeSource env source file = (r.map fun _ ↦ (), t.scope) := by
  have run : (runNested env maxDepth source file).outcome scope = (r, t.scope) :=
    h.outcome (Nat.zero_add maxDepth)
  show Run.outcome (runSource env source file) scope = _
  rw [runSource, Run.outcome_bind, run]
  cases r <;> rfl

end ConfigScript
