import ConfigScript.Proofs.Files.Absolute
import ConfigScript.Proofs.Running.Depth
import ConfigScript.Proofs.Running.Loaded

/-!
# The files that a script includes

A script that starts in an environment stays in it: all files that are begun, and all scripts with a
statement that is reached, stand there under a path from the root (`Executes.isOf`). Each file that
is loaded is included by a statement (`Executes.includes`), under its path without detours. It is no
bootstrap file: what tells that is the name in the path as it is written, but this is the name of
the file that is found.

So a statement that loads once does nothing where the file is loaded, however its path is spelled
(`Executes.isIdle`), and the files that are read from a script are those that it ran, each once,
without the script itself (`files_load_once`).
-/

namespace ConfigScript

/-! ### Scripts of an environment -/

/-- A path from the root that leads to a text. -/
def Environment.IsScript (env : Environment) (p : Path) (source : List Char) : Prop :=
  p.isAbsolute ∧ env.read p = .ok (.text source)

/-- A script that is run from where it stands. -/
structure Frame.IsOf (env : Environment) (f : Frame) : Prop where
  environment : f.environment = env
  script : env.IsScript f.file f.source

/-- The script that a task belongs to. -/
def Task.frame : Task → Frame
  | .file f | .stmt f _ | .stmts f _ | .branches f _ _ => f

/-- Files that are begun, and those that statements are in, are scripts of the environment. -/
def Event.IsOf (env : Environment) : Event → Prop
  | .begun file _ => ∃ source, env.IsScript file source
  | .reached site => site.frame.IsOf env
  | .defined _ _ => True

namespace LoadSite

variable {l : LoadSite} {g : Frame} {env : Environment} {p : Path} {content : Content}

/-- What a statement has found when it enters a file. -/
theorem finds_of_enter (h : l.verdict = .enter g) : l.frame.Finds l.path g := by
  unfold verdict at h
  split at h
  · cases h
  rename_i known
  split at h
  · cases h
  rename_i ordinary
  split at h
  · split at h <;> cases h
  rename_i found
  obtain ⟨canonical, text⟩ := Frame.locate_eq_ok.1 found
  split at h
  · cases h
  split at h
  · cases h
  split at h
  · cases h
  · obtain rfl := Verdict.enter.inj h
    exact ⟨known, by simpa [candidate] using ordinary, canonical, text, rfl⟩

/-- A file that is loaded already is passed over by a statement that loads once. -/
theorem verdict_of_isLoaded (once : l.kind.isOnce)
    (found : l.frame.locate l.candidate = .ok (p, content)) (loaded : l.turn.scope.isLoaded p) : l.verdict = .skip := by
  unfold verdict
  rw [found]
  simp only [once, loaded, Bool.and_self, if_true, ite_self]

/-- A file that is passed over is not run, and nothing changes. -/
theorem outcome_of_skip (h : l.verdict = .skip) (runner : Option Runner) :
    (l.frame.load runner l.span l.kind l.path).outcome l.turn.scope =
      (.ok .goOn, l.turn.scope) := by
  obtain ⟨f, sp, kind, v, ⟨s, depth⟩⟩ := l
  unfold verdict candidate at h
  unfold Frame.load
  dsimp only at h ⊢
  -- The run makes the same checks in the same order.
  by_cases unknown : v.isOpaque
  · rw [if_pos unknown]
    rfl
  rw [if_neg unknown] at h ⊢
  split
  · rfl
  rename_i ordinary
  rw [if_neg ordinary] at h
  cases found : f.locate (f.directory.join (.ofString v.toText)) with
  | error e =>
    rw [found] at h
    dsimp only at h ⊢
    split at h
    · cases h
    · rename_i optional
      rw [if_neg optional]
      rfl
  | ok x =>
    obtain ⟨resolved, content⟩ := x
    rw [found] at h
    dsimp only at h
    show Run.outcome (if kind.isOnce && s.isLoaded resolved then pure .goOn
      else f.runFound runner sp resolved content) s = _
    split at h
    · rename_i again
      rw [if_pos again]
      rfl
    · split at h
      · cases h
      · split at h <;> cases h

/-- The path of a statement that loads a file leads from the root. -/
theorem isAbsolute_candidate (h : l.frame.IsOf env) : l.candidate.isAbsolute := by
  obtain ⟨absolute, text⟩ := h.script
  obtain ⟨place, resolved, there⟩ := Environment.read_eq_ok.1 text
  obtain ⟨_, n, -, name, -⟩ := Environment.exists_name_of_file absolute resolved there
  obtain ⟨directory, parent, above⟩ := Path.isAbsolute_parent? absolute (by rw [name]; rfl)
  have same : l.frame.directory = directory := by rw [Frame.directory, parent]; rfl
  exact Path.isAbsolute_join (same ▸ above) _

/-- A file that is entered is a script of the environment, under its path without detours, and has
the name that the statement gives it. -/
theorem isOf_of_enter (h : l.frame.IsOf env) (enters : l.verdict = .enter g) :
    g.IsOf env ∧ env.canonical l.candidate = .ok g.file ∧ env.canonical g.file = .ok g.file ∧
      g.file.fileName? ≠ some bootstrapName := by
  have finds := finds_of_enter enters
  have canonical := h.environment ▸ finds.canonical
  have text := h.environment ▸ finds.text
  obtain ⟨place, resolved, path⟩ := Environment.canonical_eq_ok.1 canonical
  have absolute := isAbsolute_candidate h
  have reached : env.resolve g.file = .ok place :=
    path ▸ Environment.isReached_of_isAbsolute absolute place resolved
  obtain ⟨_, again, there⟩ := Environment.read_eq_ok.1 text
  obtain rfl := Except.ok.inj (reached.symm.trans again)
  obtain ⟨_, n, -, name, name'⟩ := Environment.exists_name_of_file absolute resolved there
  refine ⟨⟨finds.environment.trans h.environment, path ▸ Environment.isAbsolute_pathOf place, text⟩,
    canonical, Environment.canonical_eq_ok.2 ⟨place, reached, path⟩, ?_⟩
  rw [← path, name', ← name]
  exact finds.ordinary

/-- A file that is found counts as loaded if it is under any spelling, also where only its name is
found. -/
theorem verdict_of_same (h : l.frame.IsOf env) (once : l.kind.isOnce)
    (scripts : ∀ q ∈ l.turn.scope.loaded, ∃ source, env.IsScript q source)
    (canonical : env.canonical l.candidate = .ok p) (again : l.turn.scope.isLoaded p) :
    l.verdict = .skip := by
  obtain ⟨q, mem, same⟩ := List.any_eq_true.1 again
  obtain ⟨source, absolute, text⟩ := scripts q mem
  have absolute' := isAbsolute_candidate h
  obtain ⟨place, resolved, rfl⟩ := Environment.canonical_eq_ok.1 canonical
  obtain ⟨place', resolved', there⟩ := Environment.read_eq_ok.1 text
  obtain rfl := Environment.eq_of_same (Environment.isLegal_of_resolve absolute' resolved) same
    absolute resolved'
  have read : env.read (Environment.pathOf place') = .ok (.text source) :=
    Environment.read_eq_ok.2
      ⟨place', Environment.isReached_of_isAbsolute absolute' _ resolved, there⟩
  rw [← h.environment] at canonical read
  exact verdict_of_isLoaded once (Frame.locate_eq_ok.2 ⟨canonical, read⟩) again

/-- The statement does nothing besides evaluating its path, however files are run. -/
def IsIdle (l : LoadSite) : Prop :=
  l.verdict = .skip ∧ ∀ (runner : Option Runner) (e : Expr) (s : Scope),
    (l.frame.eval e).run s = (l.path, l.turn.scope) →
      (l.frame.exec runner (.load l.span l.kind e)).outcome s = (.ok .goOn, l.turn.scope)

/-- A statement that the checks skip is idle: it leaves the scope as it is, whatever files would do. -/
theorem isIdle_of_skip (h : l.verdict = .skip) : l.IsIdle := by
  refine ⟨h, fun runner e s value ↦ ?_⟩
  have path : (l.frame.value e).outcome s = (.ok l.path, l.turn.scope) := by
    show (Except.ok ((l.frame.eval e).run s).1, ((l.frame.eval e).run s).2) = _
    rw [value]
  rw [Frame.exec, Run.outcome_bind_ok path]
  exact outcome_of_skip h runner

end LoadSite

/-! ### Files that are included -/

/-- The statement `site` includes the file `p`: it is reached and the file is begun right behind it,
and what it names leads to the file, which is no bootstrap file. -/
structure Event.Includes (env : Environment) (log : List Event) (p : Path) (site : LoadSite)
    (source : List Char) : Prop where
  begun : [.reached site, .begun p (site.turn.depth + 1)] <:+: log
  verdict : site.verdict = .enter ⟨env, source, p⟩
  found : env.canonical site.candidate = .ok p
  canonical : env.canonical p = .ok p
  text : env.read p = .ok (.text source)
  ordinary : p.fileName? ≠ some bootstrapName

theorem Event.Includes.mono {env : Environment} {log log' : List Event} {p : Path} {site : LoadSite}
    {source : List Char} (h : Includes env log p site source) (sub : log <:+: log') :
    Includes env log' p site source := { h with begun := h.begun.trans sub }

namespace Executes

variable {task : Task} {t t' : Turn} {log : List Event} {r : Ending} {env : Environment}

open Event

/-- An execution that starts in a script of the environment stays in such scripts. -/
theorem isOf (h : Executes task t log r t') (script : task.frame.IsOf env) :
    ∀ e ∈ log, e.IsOf env := by
  have defined (ds : Bindings) : ∀ e ∈ Event.definitions ds, e.IsOf env := by
    rintro e he
    obtain ⟨d, -, rfl⟩ := List.mem_map.1 he
    trivial
  induction h with
  | unreadable _ => exact List.forall_mem_singleton.2 ⟨_, script.script⟩
  | file _ _ ih => exact List.forall_mem_cons.2 ⟨⟨_, script.script⟩, ih script⟩
  | done | leave | stop => exact List.forall_mem_nil _
  | next _ _ firstIh moreIh => exact List.forall_mem_append.2 ⟨firstIh script, moreIh script⟩
  | ended _ _ ih | block _ ih | conditional _ ih | otherwise _ ih => exact ih script
  | effect | unknown => exact defined _
  | holds _ _ _ _ ih | fails _ _ _ _ ih => exact List.forall_mem_append.2 ⟨defined _, ih script⟩
  | skipped | refused =>
    exact List.forall_mem_append.2 ⟨defined _, List.forall_mem_singleton.2 script⟩
  | entered _ verdict _ ih =>
    have inside := (LoadSite.isOf_of_enter script verdict).1
    exact List.forall_mem_append.2 ⟨defined _, List.forall_mem_cons.2 ⟨script, ih inside⟩⟩

/-- Whatever an execution loads is included in it. -/
theorem includes (h : Executes task t log r t') (script : task.frame.IsOf env) :
    ∀ p ∈ t'.scope.loaded, p ∈ t.scope.loaded ∨ ∃ site source, Includes env log p site source := by
  have asked {f : Frame} {e : Expr} {s s' : Scope} {v : Value} {ds : Bindings}
      (h : (f.recordedEval e).outcome s = (v, ds, s')) : s'.loaded = s.loaded :=
    (Frame.defines_value h).loaded
  induction h with
  | unreadable | done | leave | stop => exact fun p mem ↦ .inl mem
  | file _ _ ih =>
    intro p mem
    refine (ih script p mem).imp_right ?_
    rintro ⟨site, source, includes⟩
    exact ⟨site, source, includes.mono (List.infix_cons (List.infix_refl _))⟩
  | next _ _ firstIh moreIh =>
    intro p mem
    rcases moreIh script p mem with mem | ⟨site, source, includes⟩
    · refine (firstIh script p mem).imp_right ?_
      rintro ⟨site, source, includes⟩
      exact ⟨site, source, includes.mono (List.prefix_append _ _).isInfix⟩
    · exact .inr ⟨site, source, includes.mono (List.suffix_append _ _).isInfix⟩
  | ended _ _ ih | block _ ih | conditional _ ih | otherwise _ ih => exact ih script
  | effect plain done =>
    exact fun p mem ↦ .inl ((Frame.outcome_effect plain done none).2.loaded ▸ mem)
  | unknown path _ | skipped path _ | refused path _ => exact fun p mem ↦ .inl (asked path ▸ mem)
  | holds condition _ _ _ ih | fails condition _ _ _ ih =>
    intro p mem
    refine (ih script p mem).imp (fun mem ↦ asked condition ▸ mem) ?_
    rintro ⟨site, source, includes⟩
    exact ⟨site, source, includes.mono (List.suffix_append _ _).isInfix⟩
  | @entered f g sp kind p t t' v ds scope log r path verdict inside ih =>
    obtain ⟨isOf, found, canonical, ordinary⟩ := LoadSite.isOf_of_enter script verdict
    obtain ⟨rest, rfl⟩ := inside.exists_begun
    intro q mem
    rcases ih isOf q mem with mem | ⟨site, source, includes⟩
    · rw [Scope.loaded_markLoaded] at mem
      rcases Path.mem_addTo mem with mem | rfl
      · exact .inl (asked path ▸ mem)
      · -- The file itself: the statement, and behind it where the file is begun.
        refine .inr ⟨⟨f, sp, kind, v, ⟨scope, t.depth⟩⟩, g.source, ?_, ?_, found, canonical,
          isOf.script.2, ordinary⟩
        · exact ⟨Event.definitions ds, rest, by simp⟩
        · rw [verdict, ← isOf.environment]
    · exact .inr ⟨site, source, includes.mono
        ((List.infix_cons (List.infix_refl _)).trans (List.suffix_append _ _).isInfix)⟩

/-- A file that is loaded is passed over where it is to be loaded once. -/
theorem isIdle (h : Executes task t log r t') (script : task.frame.IsOf env)
    (started : task.IsStarted t.scope)
    (scripts : ∀ q ∈ t.scope.loaded, ∃ source, env.IsScript q source)
    {site : LoadSite} {p : Path} (mem : .reached site ∈ log) (once : site.kind.isOnce)
    (canonical : env.canonical site.candidate = .ok p) (again : site.turn.scope.isLoaded p) :
    site.IsIdle := by
  have isOf := h.isOf script
  refine LoadSite.isIdle_of_skip (LoadSite.verdict_of_same (isOf _ mem) once (fun q there ↦ ?_)
    canonical again)
  -- Whatever is loaded there was so at first, or was begun on the way.
  obtain ⟨before, after, here⟩ := List.append_of_mem mem
  rw [h.loaded_at started here] at there
  rcases Path.mem_addAll there with there | there
  · exact scripts q there
  · obtain ⟨depth, begun⟩ := mem_files.1 there
    exact isOf _ (here ▸ List.mem_append_left _ begun)

end Executes

/-! ### What is read -/

theorem Snapshot.inclusions_diff (before : Snapshot) (t : Scope) :
    (before.diff t).filter (·.kind = .inclusion) =
      (t.loaded.filter fun p ↦ !before.hasLoaded p).map inclusion := by
  simp [diff, inclusion, List.filter_map, Function.comp_def]

namespace Reader

variable {r : Reader} {env : Environment} {path main : Path} {source : List Char} {es : List Entry}

/-- The readers that can be made. -/
inductive Made : Reader → Prop
  | standard : Made standard
  | withConstant {r : Reader} (name : String) (value : Value) (made : Made r) :
      Made (r.withConstant name value)

/-- A reader has loaded nothing. -/
theorem Made.loaded {r : Reader} (h : r.Made) : r.host.loaded = [] := by
  induction h with
  | standard => rfl
  | withConstant name value _ ih =>
    exact (Scope.defines_define _ name value).loaded.trans ih

/-- What the files of an execution of the script `main` come to, and the entries that are read. -/
structure LoadsOnce (env : Environment) (main : Path) (log : List Event) (t : Turn)
    (es : List Entry) : Prop where
  /-- The script itself is begun first. -/
  first : (Event.files log).head? = some main
  /-- The loaded files are those that were begun, in the order in which they were so first. -/
  loaded : t.scope.loaded = (Event.files log).eraseDupsBy Path.same
  /-- All but the script itself were included by a statement. -/
  included : ∀ p ∈ t.scope.loaded.tail, ∃ site source, Event.Includes env log p site source
  /-- So it is at each statement that loads a file with those that were begun before. -/
  loadedAt : ∀ before site after, log = before ++ .reached site :: after →
    site.turn.scope.loaded = (Event.files before).eraseDupsBy Path.same
  /-- A statement that loads once passes over a file that is loaded. -/
  once : ∀ site p, .reached site ∈ log → site.kind.isOnce → env.canonical site.candidate = .ok p →
    site.turn.scope.isLoaded p → site.IsIdle
  /-- The entries for files are those that were begun, without repetitions and the script itself. -/
  inclusions : es.filter (·.kind = .inclusion) =
    ((Event.files log).eraseDupsBy Path.same).tail.map Snapshot.inclusion

/-- The loading of files in an execution of a script that does not fail. -/
theorem loadsOnce (made : r.Made) (script : Frame.IsOf env ⟨env, source, main⟩) {log : List Event}
    {ending : Ending} {t : Turn}
    (h : Executes (.file ⟨env, source, main⟩) ⟨r.start main, 0⟩ log ending t) :
    LoadsOnce env main log t ((r.start main).snapshot.diff t.scope) := by
  have start : (r.start main).loaded = [main] := by
    rw [Reader.start, Scope.loaded_markLoaded, made.loaded]
    rfl
  have self : main.same main := beq_self_eq_true _
  have started : Task.IsStarted (r.start main) (.file ⟨env, source, main⟩) := by
    simp [Task.IsStarted, Scope.isLoaded, start, self]
  have scripts : ∀ q ∈ (r.start main).loaded, ∃ source, env.IsScript q source := by
    rw [start]
    exact List.forall_mem_singleton.2 ⟨source, script.script⟩
  obtain ⟨rest, begun⟩ := h.exists_begun
  have files : Event.files log = main :: Event.files rest := by rw [begun]; rfl
  -- The script is there first, and nothing under the same path is behind it.
  obtain ⟨added, whole⟩ : ∃ added, t.scope.loaded = main :: added := by
    obtain ⟨added, whole⟩ := h.grows.loaded
    exact ⟨added, by rw [← whole, start]; rfl⟩
  have others : ∀ q ∈ added, ¬main.same q := by
    have distinct := h.grows.files (by rw [start]; exact List.pairwise_singleton _ _)
    rw [whole] at distinct
    exact (List.pairwise_cons.1 distinct).1
  have all (ps : List Path) :
      Path.addAll (main :: ps) [main] = (main :: ps).eraseDupsBy Path.same := by
    rw [Path.addAll, List.foldl_cons, Path.addTo_of_any (by simp [self]), ← Path.addAll,
      Path.addAll_singleton]
  have loaded : t.scope.loaded = (Event.files log).eraseDupsBy Path.same := by
    rw [(h.accounts started).loaded, start, files, all]
  have entries : (t.scope.loaded.filter fun p ↦ !(r.start main).snapshot.hasLoaded p) =
      t.scope.loaded.tail := by
    have before (p : Path) : (r.start main).snapshot.hasLoaded p = main.same p := by
      show (r.start main).loaded.any p.same = _
      rw [start, Path.same_comm]
      exact Bool.or_false _
    simp only [before, whole, List.filter_cons, self, Bool.not_true, Bool.false_eq_true, if_false,
      List.tail_cons]
    exact List.filter_eq_self.2 fun q mem ↦ by simpa using others q mem
  refine ⟨by rw [files]; rfl, loaded, fun p mem ↦ ?_, fun before site after here ↦ ?_, ?_, ?_⟩
  · rw [whole, List.tail_cons] at mem
    have there : p ∈ t.scope.loaded := whole ▸ List.mem_cons_of_mem _ mem
    rcases h.includes script p there with here | included
    · rw [start, List.mem_singleton] at here
      exact absurd self (here ▸ others p mem)
    · exact included
  · rw [h.loaded_at started here, start]
    rw [begun] at here
    cases before with
    | nil => cases here
    | cons e before =>
      obtain ⟨rfl, -⟩ := List.cons.inj here
      exact all (Event.files before)
  · exact fun site p mem once canonical again ↦
      h.isIdle script started scripts mem once canonical again
  · rw [Snapshot.inclusions_diff, entries, loaded]

end Reader

/-- What a script that is read loads: every file besides the script itself is included by a
statement, under its path without detours and not as the bootstrap file; a statement that loads once
does nothing where the file was begun before; and the entries for files are the files that were
begun, in the order in which they were so first, without the script itself. -/
theorem files_load_once {r : Reader} (made : r.Made) {env : Environment} {path : Path}
    {es : List Entry} (read : r.read env path = .ok es) : ∃ main source,
      env.canonical path = .ok main ∧ env.read main = .ok (.text source) ∧
      (∃ log ending t, Executes (.file ⟨env, source, main⟩) ⟨r.start main, 0⟩ log ending t) ∧
      ∀ log ending t, Executes (.file ⟨env, source, main⟩) ⟨r.start main, 0⟩ log ending t →
        Reader.LoadsOnce env main log t es := by
  obtain ⟨main, source, canonical, text, readSource⟩ := Reader.exists_of_read read
  obtain ⟨after, run, rfl⟩ := Reader.exists_of_readSource readSource
  refine ⟨main, source, canonical, text, ends_file 0 _ _ rfl, fun log ending t execution ↦ ?_⟩
  obtain ⟨place, -, path⟩ := Environment.canonical_eq_ok.1 canonical
  have script : Frame.IsOf env ⟨env, source, main⟩ :=
    ⟨rfl, path ▸ Environment.isAbsolute_pathOf place, text⟩
  obtain rfl : after = t.scope := congrArg Prod.snd (run.symm.trans execution.executeSource)
  exact Reader.loadsOnce made script execution

/-- Two scripts that load each other under several spellings, and the bootstrap file. -/
def circle : Environment :=
  { files := .directory
      [(['a'], .file (.text ("<?php include './d/../d/b'; require_once 'd/b'; " ++
          "include_once __FILE__; include '/d/b'; require 'wp-settings.php'; $v = 1;").toList)),
        (['d'], .directory [(['b'], .file (.text
          "<?php require_once '../a'; include '../d/wp-settings.php'; define('B', 2);".toList))])]
    workingDirectory := [['d']]
    exported := [] }

/-- Two scripts that load each other by paths with detours, once and again, and the bootstrap file by
name: the second one is the only file that is read as an inclusion. -/
theorem files_load_once_circle : ∃ es, Reader.standard.read circle ⟨"../a".toList⟩ = .ok es ∧
    es.map (fun e ↦ (e.kind, e.name, e.value.toText)) =
      [(.var, "v", "1"), (.const, "B", "2"), (.inclusion, "b", "/d/b")] ∧
    ∃ main source, circle.canonical ⟨"../a".toList⟩ = .ok main ∧
      circle.read main = .ok (.text source) ∧
      (∃ log ending t, Executes (.file ⟨circle, source, main⟩) ⟨Reader.standard.start main, 0⟩ log
        ending t) ∧
      ∀ log ending t, Executes (.file ⟨circle, source, main⟩) ⟨Reader.standard.start main, 0⟩ log
        ending t → Reader.LoadsOnce circle main log t es := by
  obtain ⟨es, read, entries⟩ := Script.exists_of_any
    (p := fun es : List Entry ↦ es.map (fun e ↦ (e.kind, e.name, e.value.toText)) ==
      [(.var, "v", "1"), (.const, "B", "2"), (.inclusion, "b", "/d/b")])
    (show (Reader.standard.read circle ⟨"../a".toList⟩).toOption.any _ by decide +kernel)
  exact ⟨es, read, beq_iff_eq.1 entries, files_load_once .standard read⟩

end ConfigScript
