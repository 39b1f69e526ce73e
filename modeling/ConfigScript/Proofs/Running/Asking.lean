import ConfigScript.Proofs.Files.Held
import ConfigScript.Proofs.Running.Depth
import ConfigScript.Salt.Set

/-!
# What a script learns of the machine

A script looks at the machine through five functions and through the files that it loads
(`Builtin.asking`, `Frame.locate`). So two environments that answer the functions it calls alike, and if
it loads files find the same ones, are the same to it: its expressions mean the same (`meaning_ask`), and
it runs in the same way (`execAll_ask`). The answer of a salt service is such a script; it may ask like
any other, and if it does what is read from it depends on the machine (`Salt.parse_asks`).
-/

namespace ConfigScript

/-! ### What an environment is asked -/

/-- The functions that look at the environment. -/
def Builtin.asking : List String := ["getenv", "file_exists", "is_file", "is_dir", "is_readable"]

/-- The function that an expression calls, in lower case. -/
def Expr.word? : Expr → Option String
  | .call _ name _ => some (String.ofList (Script.lower name.toList))
  | _ => none

/-- The functions that are called anywhere in a script. -/
def Stmt.words (ss : List Stmt) : List String :=
  (((Stmt.nodesOfList ss).flatMap Stmt.exprs).flatMap Expr.nodes).filterMap Expr.word?

namespace Environment

/-- A function answers alike in two environments. -/
def AnswersAlike (env env' : Environment) (word : String) : Prop :=
  ∀ scope args, Builtin.call env scope word args = Builtin.call env' scope word args

/-- The same files are found in two environments. -/
def FindsAlike (env env' : Environment) : Prop :=
  ∀ source file path, ((⟨env, source, file⟩ : Frame).locate path).toOption =
    ((⟨env', source, file⟩ : Frame).locate path).toOption

/-- Two environments cannot be told apart by a script: the functions that it calls answer alike, and if
it loads files then all functions do, and the same files are found. -/
structure AlikeFor (env env' : Environment) (ss : List Stmt) : Prop where
  words : ∀ word ∈ Stmt.words ss, word ∈ Builtin.asking → env.AnswersAlike env' word
  files : (∃ s ∈ Stmt.nodesOfList ss, s.isLoad) →
    (∀ word ∈ Builtin.asking, env.AnswersAlike env' word) ∧ env.FindsAlike env'

/-- All other functions depend on their arguments and the scope. -/
theorem answersAlike_of_not_mem {word : String} (h : word ∉ Builtin.asking)
    (env env' : Environment) : env.AnswersAlike env' word := by
  intro scope args
  unfold Builtin.call
  split <;> first | rfl | exact absurd (by simp [Builtin.asking]) h

/-- Where the variables are the same, they are told alike. -/
theorem answersAlike_getenv {env env' : Environment} (h : env.exported = env'.exported) :
    env.AnswersAlike env' "getenv" := by
  intro scope args
  match args with
  | [] | _ :: _ :: _ => rfl
  | [v] => simp only [Builtin.call, h]

theorem answersAlike_of_imp {env env' : Environment} {word : String}
    (h : word ∈ Builtin.asking → env.AnswersAlike env' word) : env.AnswersAlike env' word :=
  if asks : word ∈ Builtin.asking then h asks else answersAlike_of_not_mem asks env env'

end Environment

/-! ### Expressions -/

variable {env env' : Environment} {source : List Char} {file : Path}

/-- A call does what it does in the other environment. -/
theorem Meaning.call_ask {word : String} (same : env.AnswersAlike env' word) (args : List Meaning) :
    Meaning.call env word args = Meaning.call env' word args := by
  unfold Meaning.call
  split
  · rfl
  · rfl
  · rfl
  · simp only [callBuiltin, same _ _]

/-- The functions that an expression calls answer alike. -/
def Expr.Asks (env env' : Environment) (e : Expr) : Prop :=
  ∀ word ∈ e.nodes.filterMap Expr.word?, env.AnswersAlike env' word

/-- An expression means what it means in the other environment. -/
theorem Frame.meaning_ask {e : Expr} (same : e.Asks env env') :
    (⟨env, source, file⟩ : Frame).meaning e = (⟨env', source, file⟩ : Frame).meaning e := by
  induction e using Expr.induction_parts with
  | step e ih =>
    -- What is called in a part is called in the expression.
    replace ih : ∀ p ∈ e.parts,
        (⟨env, source, file⟩ : Frame).meaning p = (⟨env', source, file⟩ : Frame).meaning p := by
      intro p hp
      refine ih p hp fun word hw ↦ same word ?_
      rw [Expr.nodes_eq_parts, List.filterMap_cons]
      have inside : word ∈ (e.parts.flatMap Expr.nodes).filterMap Expr.word? := by
        obtain ⟨n, mem, called⟩ := List.mem_filterMap.1 hw
        exact List.mem_filterMap.2 ⟨n, List.mem_flatMap.2 ⟨p, hp, mem⟩, called⟩
      split
      · exact inside
      · exact List.mem_cons_of_mem _ inside
    cases e with
    | null | bool | int | float | str | const | magic | var | opaqueExpr => rfl
    | array s is =>
      have items : (⟨env, source, file⟩ : Frame).itemMeanings is =
          (⟨env', source, file⟩ : Frame).itemMeanings is := by
        rw [itemMeanings_eq_map, itemMeanings_eq_map]
        refine List.map_congr_left fun i hi ↦ ?_
        have parts : ∀ p ∈ i.parts, p ∈ is.flatMap Item.parts := fun p hp ↦
          List.mem_flatMap.2 ⟨i, hi, hp⟩
        cases i with
        | value e => rw [itemMeaning, itemMeaning, ih e (parts e (by simp [Item.parts]))]
        | keyed k e =>
          rw [itemMeaning, itemMeaning, ih k (parts k (by simp [Item.parts])),
            ih e (parts e (by simp [Item.parts]))]
      rw [meaning, meaning, items]
      rfl
    | call s n es =>
      have args : (⟨env, source, file⟩ : Frame).meanings es = (⟨env', source, file⟩ : Frame).meanings es := by
        rw [meanings_eq_map, meanings_eq_map]
        exact List.map_congr_left ih
      have word : String.ofList (Script.lower n.toList) ∈
          (Expr.call s n es).nodes.filterMap Expr.word? :=
        List.mem_filterMap.2 ⟨_, Expr.mem_nodes _, rfl⟩
      rw [meaning, meaning, args]
      dsimp only
      rw [Meaning.call_ask (same _ word)]
      rfl
    | index | cast | unary | binary | ternary | elvis =>
      simp only [Expr.parts, List.forall_mem_cons] at ih
      simp only [meaning, ih]
      rfl

/-! ### Statements -/

/-- The two environments are alike for a statement: its expressions call functions that answer alike,
and if it loads a file then the same files are found and run in the same way. -/
structure Stmt.Asks (env env' : Environment) (runner runner' : Option Runner) (st : Stmt) : Prop where
  words : ∀ e ∈ st.exprs, e.Asks env env'
  files : st.isLoad → env.FindsAlike env' ∧ runner = runner'

namespace Frame

variable {runner runner' : Option Runner}

theorem eval_ask {e : Expr} (same : e.Asks env env') :
    (⟨env, source, file⟩ : Frame).eval e = (⟨env', source, file⟩ : Frame).eval e :=
  congrArg Meaning.value (meaning_ask same)

theorem value_ask {e : Expr} (same : e.Asks env env') :
    (⟨env, source, file⟩ : Frame).value e = (⟨env', source, file⟩ : Frame).value e :=
  congrArg ExceptT.lift (eval_ask same)

/-- Keys that ask alike are the same. -/
theorem keys_ask {is : List (Option Expr)}
    (same : ∀ e ∈ is.filterMap id, e.Asks env env') :
    (⟨env, source, file⟩ : Frame).keys is = (⟨env', source, file⟩ : Frame).keys is := by
  induction is with
  | nil => rfl
  | cons i is ih =>
    cases i with
    | none => rw [keys, keys, ih same]
    | some e =>
      replace same := List.forall_mem_cons.1 same
      rw [keys, keys, ih same.2, eval_ask same.1]

/-- The keys of a target to be unset are the same if they ask alike. -/
theorem closedKeys_ask {is : List (Option Expr)}
    (same : ∀ e ∈ is.filterMap id, e.Asks env env') :
    (⟨env, source, file⟩ : Frame).closedKeys is = (⟨env', source, file⟩ : Frame).closedKeys is := by
  induction is with
  | nil => rfl
  | cons i is ih =>
    cases i with
    | none => rfl
    | some e =>
      replace same := List.forall_mem_cons.1 same
      rw [closedKeys, closedKeys, ih same.2, eval_ask same.1]

/-- Constants are declared alike if their values ask alike. -/
theorem declare_ask {is : List ConstItem}
    (same : ∀ e ∈ is.map (·.value), e.Asks env env') :
    (⟨env, source, file⟩ : Frame).declare is = (⟨env', source, file⟩ : Frame).declare is := by
  induction is with
  | nil => rfl
  | cons i is ih =>
    rw [List.map_cons, List.forall_mem_cons] at same
    rw [declare, declare, ih same.2, eval_ask same.1]

theorem unset_ask {t : Target}
    (same : ∀ e ∈ t.exprs, e.Asks env env') :
    (⟨env, source, file⟩ : Frame).unset t = (⟨env', source, file⟩ : Frame).unset t := by
  rw [unset, unset, closedKeys_ask same]

/-- Targets are unset alike if their indices ask alike. -/
theorem unsetAll_ask {ts : List Target} (same : ∀ e ∈ ts.flatMap Target.exprs, e.Asks env env') :
    ts.forM (⟨env, source, file⟩ : Frame).unset = ts.forM (⟨env', source, file⟩ : Frame).unset := by
  induction ts with
  | nil => rw [List.forM, List.forM]
  | cons t ts ih =>
    rw [List.flatMap_cons, List.forall_mem_append] at same
    rw [List.forM, List.forM, unset_ask same.1, ih same.2]

/-- A file that is found in both environments is the same, and it is run in the same way. -/
theorem load_ask (finds : env.FindsAlike env') (runner : Option Runner) (sp : Span) (kind : IncludeKind)
    (path : Value) : (⟨env, source, file⟩ : Frame).load runner sp kind path =
      (⟨env', source, file⟩ : Frame).load runner sp kind path := by
  have found := finds source file ((⟨env, source, file⟩ : Frame).directory.join (.ofString path.toText))
  unfold load
  dsimp only [directory] at found ⊢
  generalize (⟨env, source, file⟩ : Frame).locate _ = x at found ⊢
  generalize (⟨env', source, file⟩ : Frame).locate _ = y at found ⊢
  cases x <;> cases y <;> cases found <;> rfl

mutual

/-- A statement runs as in the other environment. -/
theorem exec_ask {st : Stmt} (asks : ∀ n ∈ st.nodes, n.Asks env env' runner runner') :
    (⟨env, source, file⟩ : Frame).exec runner st = (⟨env', source, file⟩ : Frame).exec runner' st := by
  have own := asks st st.mem_nodes
  match st with
  | .expr sp e => rw [exec, exec, value_ask (own.words e (List.mem_singleton_self _))]
  | .assign sp op t e =>
    have words := own.words
    rw [Stmt.exprs, List.forall_mem_append, List.forall_mem_singleton] at words
    rw [exec, exec, assign, assign, keys_ask words.1, eval_ask words.2]
    rfl
  | .const sp is => rw [exec, exec, declare_ask own.words]
  | .load sp kind e =>
    obtain ⟨finds, rfl⟩ := own.files rfl
    rw [exec, exec, value_ask (own.words e (List.mem_singleton_self _))]
    exact congrArg (_ >>= ·) (funext fun path ↦ load_ask finds runner sp kind path)
  | .conditional sp bs none =>
    rw [exec, exec]
    exact choose_ask own.words (fun n hn ↦ asks n (List.mem_cons_of_mem _ hn)) rfl
  | .conditional sp bs (some body) =>
    rw [exec, exec]
    refine choose_ask own.words
      (fun n hn ↦ asks n (List.mem_cons_of_mem _ (List.mem_append_left _ hn))) ?_
    exact execAll_ask fun n hn ↦ asks n (List.mem_cons_of_mem _ (List.mem_append_right _ hn))
  | .block sp body =>
    rw [exec, exec]
    exact execAll_ask fun n hn ↦ asks n (List.mem_cons_of_mem _ hn)
  | .unset sp ts =>
    rw [exec, exec, unsetAll_ask own.words]
  | .global .. | .ret _ | .exit _ | .inlineHtml _ | .opaqueStmt _ => rw [exec, exec]

/-- Statements run as in the other environment. -/
theorem execAll_ask {ss : List Stmt} (asks : ∀ n ∈ Stmt.nodesOfList ss, n.Asks env env' runner runner') :
    (⟨env, source, file⟩ : Frame).execAll runner ss =
      (⟨env', source, file⟩ : Frame).execAll runner' ss := by
  match ss with
  | [] => rw [execAll, execAll]
  | st :: ss =>
    rw [execAll, execAll, exec_ask fun n hn ↦ asks n (List.mem_append_left _ hn),
      execAll_ask fun n hn ↦ asks n (List.mem_append_right _ hn)]

/-- Branches are chosen as in the other environment. -/
theorem choose_ask {bs : List Branch} {otherwise otherwise' : Run Flow}
    (words : ∀ e ∈ bs.map Branch.condition, e.Asks env env')
    (asks : ∀ n ∈ Stmt.nodesOfBranches bs, n.Asks env env' runner runner')
    (others : otherwise = otherwise') :
    (⟨env, source, file⟩ : Frame).choose runner otherwise bs =
      (⟨env', source, file⟩ : Frame).choose runner' otherwise' bs := by
  match bs with
  | [] =>
    rw [choose, choose]
    exact others
  | .mk c body :: bs =>
    obtain ⟨condition, words⟩ : c.Asks env env' ∧ _ := List.forall_mem_cons.1 words
    rw [choose, choose, value_ask condition, execAll_ask fun n hn ↦ asks n (List.mem_append_left _ hn),
      choose_ask words (fun n hn ↦ asks n (List.mem_append_right _ hn)) others]

end

end Frame

/-! ### Files -/

/-- Where all functions answer alike and the same files are found, all files run alike. -/
theorem runNested_ask (words : ∀ word ∈ Builtin.asking, env.AnswersAlike env' word)
    (finds : env.FindsAlike env') (depth : Nat) : runNested env depth = runNested env' depth := by
  have all (word : String) : env.AnswersAlike env' word :=
    Environment.answersAlike_of_imp (words word)
  have asks (runner : Option Runner) (st : Stmt) : st.Asks env env' runner runner :=
    ⟨fun _ _ word _ ↦ all word, fun _ ↦ ⟨finds, rfl⟩⟩
  have run (runner : Option Runner) : runWith env runner = runWith env' runner := by
    funext source file
    rw [runWith, runWith]
    cases Script.parse source with
    | error e => rfl
    | ok body => exact Frame.execAll_ask fun n _ ↦ asks runner n
  induction depth with
  | zero => exact run none
  | succ depth ih => rw [runNested, runNested, ih, run]

/-- A script that two environments are alike for runs in the same way. -/
theorem runNested_succ_ask (alike : ∀ ss, Script.parse source = .ok ss → env.AlikeFor env' ss)
    (depth : Nat) : runNested env (depth + 1) source file = runNested env' (depth + 1) source file := by
  rw [runNested, runNested, runWith, runWith]
  cases parsed : Script.parse source with
  | error e => rfl
  | ok body =>
    obtain ⟨words, files⟩ := alike body parsed
    refine Frame.execAll_ask fun n hn ↦ ⟨fun e he word hw ↦ ?_, fun load ↦ ?_⟩
    · refine Environment.answersAlike_of_imp (words word ?_)
      obtain ⟨m, mem, called⟩ := List.mem_filterMap.1 hw
      exact List.mem_filterMap.2
        ⟨m, List.mem_flatMap.2 ⟨e, List.mem_flatMap.2 ⟨n, hn, he⟩, mem⟩, called⟩
    · obtain ⟨all, finds⟩ := files ⟨n, hn, load⟩
      exact ⟨finds, congrArg some (runNested_ask all finds depth)⟩

theorem runSource_ask (alike : ∀ ss, Script.parse source = .ok ss → env.AlikeFor env' ss) :
    runSource env source file = runSource env' source file := by
  have deep : maxDepth = 31 + 1 := rfl
  rw [runSource, runSource, deep, runNested_succ_ask alike]

/-- A script that two environments are alike for has the same entries in both, or the same error. -/
theorem Reader.readSource_ask (r : Reader)
    (alike : ∀ ss, Script.parse source = .ok ss → env.AlikeFor env' ss) :
    r.readSource env source file = r.readSource env' source file := by
  simp only [readSource, Scope.executeSource, runSource_ask alike]

/-! ### The answer of a service -/

namespace Salt

/-- The answer of a service as a script: the opening tag may be missing. -/
def script (body : List Char) : List Char :=
  if ['<', '?'].isPrefixOf (Text.trimStart body) then body else "<?php\n".toList ++ body

theorem parse_eq (env : Environment) (body : List Char) : parse env body =
    (Reader.standard.readSource env (script body) answerPath).map (·.filterMap ofEntry?) := rfl

/-- What is read from an answer depends on the answer and on what it asks: on the functions that look at
the machine and that it calls, and if it loads files, on all of them and on the files. An answer that does
not ask depends on itself alone. -/
theorem parse_eq_of_alike (body : List Char) :
    (∀ env env' : Environment,
      (∀ ss, Script.parse (script body) = .ok ss → env.AlikeFor env' ss) →
        parse env body = parse env' body) ∧
    ((∀ ss, Script.parse (script body) = .ok ss →
        (∀ word ∈ Stmt.words ss, word ∉ Builtin.asking) ∧ ∀ st ∈ Stmt.nodesOfList ss, ¬st.isLoad) →
      ∀ env env' : Environment, parse env body = parse env' body) := by
  have alike (env env' : Environment)
      (h : ∀ ss, Script.parse (script body) = .ok ss → env.AlikeFor env' ss) :
      parse env body = parse env' body := by
    rw [parse_eq, parse_eq, Reader.readSource_ask _ h]
  refine ⟨alike, fun silent env env' ↦ alike env env' fun ss parsed ↦ ?_⟩
  obtain ⟨words, loads⟩ := silent ss parsed
  exact {
    words := fun word mem asks ↦ absurd asks (words word mem)
    files := fun ⟨st, mem, load⟩ ↦ absurd load (loads st mem) }

/-- An environment with a directory, a file of settings and a variable. -/
def furnished : Environment where
  files := .directory [("etc".toList, .directory []),
    ("a".toList, .file (.text "<?php define('DB_PASSWORD', 'secret');".toList))]
  workingDirectory := []
  exported := [("HOME", "/root")]

/-- An answer may tell whether a directory is there, what a variable is and what a file defines. -/
theorem parse_asks :
    (let body := "define('AUTH_KEY', is_dir('/etc') ? 'there' : 'absent');".toList;
      parse furnished body = .ok [("AUTH_KEY", "there")] ∧
        parse .bare body = .ok [("AUTH_KEY", "absent")]) ∧
    (let body := "define('AUTH_KEY', getenv('HOME') ?: 'none');".toList;
      parse furnished body = .ok [("AUTH_KEY", "/root")] ∧
        parse .bare body = .ok [("AUTH_KEY", "none")]) ∧
    (let body := "include '/a';".toList;
      parse furnished body = .ok [("DB_PASSWORD", "secret")] ∧ parse .bare body = .ok []) := by
  refine ⟨⟨?_, ?_⟩, ⟨?_, ?_⟩, ?_, ?_⟩ <;> exact Script.eq_ok_of_toOption (by decide +kernel)

/-- A call of one of the functions, or another expression. -/
def callsOnly (words : List (List Char)) : Expr → Bool
  | .call _ name _ => words.contains (Script.lower name.toList)
  | _ => true

/-- What a script calls is among the words that it is known to call. -/
theorem mem_words_of_callsOnly {words : List (List Char)} {ss : List Stmt}
    (only : ((Stmt.nodesOfList ss).flatMap Stmt.exprs).flatMap Expr.nodes |>.all (callsOnly words))
    {word : String} (mem : word ∈ Stmt.words ss) : word.toList ∈ words := by
  obtain ⟨e, inside, called⟩ := List.mem_filterMap.1 mem
  have allowed := List.all_eq_true.1 only e inside
  cases e with
  | call s name args =>
    obtain rfl := Option.some.inj called
    rw [String.toList_ofList]
    simpa [callsOnly] using allowed
  | _ => cases called

/-- What an answer that asks for a variable says does not depend on the files. -/
theorem parse_eq_getenv :
    let body := "define('AUTH_KEY', getenv('HOME') ?: 'none');".toList
    parse furnished body = parse { furnished with files := .directory [] } body := by
  intro body
  obtain ⟨ss, parsed, calls⟩ := Script.exists_of_any (x := Script.parse (script body))
    (p := fun ss ↦ (((Stmt.nodesOfList ss).flatMap Stmt.exprs).flatMap Expr.nodes).all
      (callsOnly ["define".toList, "getenv".toList]) && (Stmt.nodesOfList ss).all (!·.isLoad))
    (by decide +kernel)
  rw [Bool.and_eq_true, List.all_eq_true (p := fun st ↦ !Stmt.isLoad st)] at calls
  refine (parse_eq_of_alike body).1 _ _ fun ss' parsed' ↦ ?_
  obtain rfl := Except.ok.inj (parsed.symm.trans parsed')
  refine ⟨fun word mem asks ↦ ?_, fun ⟨st, mem, load⟩ ↦ ?_⟩
  · have called := mem_words_of_callsOnly calls.1 mem
    simp only [List.mem_cons, List.not_mem_nil, or_false, String.toList_inj] at called
    rcases called with rfl | rfl
    · simp [Builtin.asking] at asks
    · exact Environment.answersAlike_getenv rfl
  · have idle := calls.2 st mem
    rw [load] at idle
    cases idle

end Salt

end ConfigScript
