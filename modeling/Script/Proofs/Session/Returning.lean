import Script.Proofs.Session.Interpreting

/-!
# Returns outside of functions

A return ends the function that it is carried out in and goes no further. So a statement that
returns does so by one of its own returns, outside of all functions in it, whatever functions it
calls on the way. A program that comes to such a return is stopped there, with one warning, and
counts as run without a fault. A program without such returns is never warned about.

## Main definitions

* `Node.returns` : the keywords of the returns of a statement outside of its functions.
* `Run.ReturnsBy` : an action that returns by certain keywords only.
* `Interpreter.Ends` : how interpreting a program can end, and what the reporter is told.

## Main results

* `Evaluator.returnsBy_bounded` : statements return by their own returns, at every depth.
* `returns_stay_inside` : what a return does to the statement and to the program it stands in.
-/

namespace Script

/-! ### Returns of a statement -/

namespace Node

mutual

/-- The keywords of the returns of a statement that lie outside of all functions in it. What stands
in the place of an expression is evaluated, and no return is carried out there. -/
def returns : Node → List Token
  | .result keyword _ => [keyword]
  | .block statements => returnsOfAll statements
  | .branch _ thenBranch none => thenBranch.returns
  | .branch _ thenBranch (some elseBranch) => thenBranch.returns ++ elseBranch.returns
  | .loop _ body => body.returns
  | _ => []

/-- The keywords of the returns of statements. -/
def returnsOfAll : List Node → List Token
  | [] => []
  | statement :: statements => statement.returns ++ returnsOfAll statements

end

theorem returnsOfAll_eq_flatMap (statements : List Node) :
    returnsOfAll statements = statements.flatMap returns := by
  induction statements with
  | nil => rfl
  | cons statement statements ih => rw [returnsOfAll, ih, List.flatMap_cons]

end Node

/-! ### Actions that return -/

/-- An action that returns, if at all, by one of some keywords. -/
def Run.ReturnsBy (keywords : List Token) (x : Run (Option Returning)) : Prop :=
  Keeps (fun _ => True) (fun _ => True) x fun returning => ∀ r ∈ returning, r.keyword ∈ keywords

namespace Run

variable {α : Type} {keywords keywords' : List Token} {x y : Run (Option Returning)}

/-- Nothing is asked of an action that does not return. -/
theorem keeps_any (x : Run α) : Keeps (fun _ => True) (fun _ => True) x fun _ => True := by
  intro m _
  cases x m <;> exact ⟨trivial, trivial⟩

theorem ReturnsBy.mono (hx : ReturnsBy keywords x) (hsub : keywords ⊆ keywords') :
    ReturnsBy keywords' x := by
  intro m hm
  have hrun := hx m hm
  split at hrun
  · exact ⟨hrun.1, fun r hr => hsub (hrun.2 r hr)⟩
  · exact hrun

theorem returnsBy_none : ReturnsBy keywords (pure none) :=
  .pure fun _ h => nomatch h

theorem returnsBy_throw (halt : Halt) : ReturnsBy keywords (throw halt) :=
  .throw trivial

/-- An action that returns in its last part only. -/
theorem returnsBy_bind (x : Run α) {f : α → Run (Option Returning)}
    (hf : ∀ a, ReturnsBy keywords (f a)) : ReturnsBy keywords (x >>= f) :=
  (keeps_any x).bind fun a _ => hf a

/-- An action that passes on the return of its first part, and goes on if there is none. -/
theorem ReturnsBy.orElse (hx : ReturnsBy keywords x) (hy : ReturnsBy keywords y) :
    ReturnsBy keywords (x >>= fun
      | some returning => pure (some returning)
      | none => y) := by
  refine hx.bind fun returning hreturning => ?_
  cases returning with
  | none => exact hy
  | some returning => exact .pure hreturning

theorem ReturnsBy.within (hx : ReturnsBy keywords x) (id : ScopeId) :
    ReturnsBy keywords (within id x) :=
  keeps_within (fun _ _ _ => trivial) hx id

/-- A run that returns does so by one of the keywords. -/
theorem ReturnsBy.keyword_mem (hx : ReturnsBy keywords x) {m m' : Machine} {returning : Returning}
    (hrun : x m = .ok (some returning) m') : returning.keyword ∈ keywords := by
  have hend := hx m trivial
  rw [hrun] at hend
  exact hend.2 returning rfl

end Run

/-! ### Evaluation -/

open Run

/-- Statements return by their own returns. -/
def Evaluator.ReturnsByOwn (sub : Evaluator) : Prop :=
  ∀ node, Run.ReturnsBy node.returns (sub.execute node)

namespace Evaluator

variable {sub : Evaluator} {keywords : List Token}

theorem returnsBy_executeAll (hsub : sub.ReturnsByOwn) (statements : List Node) :
    Run.ReturnsBy (statements.flatMap Node.returns) (sub.executeAll statements) := by
  induction statements with
  | nil => exact returnsBy_none
  | cons statement statements ih =>
    rw [List.flatMap_cons]
    exact ((hsub statement).mono (List.subset_append_left ..)).orElse
      (ih.mono (List.subset_append_right ..))

theorem returnsBy_executeInside (hsub : sub.ReturnsByOwn) (parent : ScopeId)
    (bindings : List (String × Value)) (statements : List Node) :
    Run.ReturnsBy (statements.flatMap Node.returns)
      (sub.executeInside parent bindings statements) :=
  returnsBy_bind _ fun scope =>
    .within (returnsBy_bind _ fun _ => returnsBy_executeAll hsub statements) scope

theorem returnsBy_repeatWhile (condition : Run Bool) {body : Run (Option Returning)}
    (hbody : Run.ReturnsBy keywords body) (fuel : Nat) :
    Run.ReturnsBy keywords (repeatWhile condition body fuel) := by
  induction fuel with
  | zero => exact returnsBy_throw _
  | succ fuel ih =>
    refine returnsBy_bind _ fun holds => ?_
    by_cases hholds : holds = true
    · rw [if_pos hholds]
      exact hbody.orElse ih
    · rw [if_neg hholds]
      exact returnsBy_none

/-- Only the statements that a statement is made of can make it return. A call is none of them: it
has a value, whether the function returns it or not. -/
theorem returnsBy_statement (hsub : sub.ReturnsByOwn) (fuel : Nat) (node : Node) :
    Run.ReturnsBy node.returns (sub.statement fuel node) := by
  cases node with
  | discard expression => exact returnsBy_bind _ fun _ => returnsBy_none
  | declaration name initial =>
    cases initial with
    | none => exact returnsBy_bind _ fun _ => returnsBy_none
    | some initial => exact returnsBy_bind _ fun _ => returnsBy_bind _ fun _ => returnsBy_none
  | block statements =>
    refine returnsBy_bind _ fun m => ?_
    rw [Node.returns, Node.returnsOfAll_eq_flatMap]
    exact returnsBy_executeInside hsub m.scope [] statements
  | branch condition thenBranch elseBranch =>
    refine returnsBy_bind _ fun value => ?_
    by_cases hvalue : value.isTruthy = true
    · rw [if_pos hvalue]
      cases elseBranch with
      | none => exact hsub thenBranch
      | some elseBranch => exact (hsub thenBranch).mono (List.subset_append_left ..)
    · rw [if_neg hvalue]
      cases elseBranch with
      | none => exact returnsBy_none
      | some elseBranch => exact (hsub elseBranch).mono (List.subset_append_right ..)
  | loop condition body => exact returnsBy_repeatWhile _ (hsub body) fuel
  | function name params body =>
    exact returnsBy_bind _ fun _ => returnsBy_bind _ fun _ => returnsBy_none
  | result keyword value =>
    have hreturn (value : Value) : Run.ReturnsBy [keyword] (pure (some ⟨keyword, value⟩)) := by
      refine .pure ?_
      rintro _ ⟨rfl⟩
      exact List.mem_cons_self
    cases value with
    | none => exact hreturn _
    | some value => exact returnsBy_bind _ hreturn
  | _ => exact returnsBy_throw _

/-- Statements return by their own returns, at every depth. -/
theorem returnsBy_bounded (fuel depth : Nat) : (bounded fuel depth).ReturnsByOwn := by
  induction depth with
  | zero => exact fun _ => returnsBy_throw _
  | succ depth ih => exact returnsBy_statement ih fuel

/-- Statements that return run up to one that does, and no further. -/
theorem exists_of_executeAll_eq_some {statements : List Node} {m m' : Machine}
    {returning : Returning} (hrun : sub.executeAll statements m = .ok (some returning) m') :
    ∃ before statement after between, statements = before ++ statement :: after ∧
      sub.executeAll before m = .ok none between ∧
      sub.execute statement between = .ok (some returning) m' := by
  induction statements generalizing m with
  | nil => cases hrun
  | cons statement statements ih =>
    simp only [executeAll, Bind.bind, EStateM.bind] at hrun
    cases hfirst : sub.execute statement m with
    | error halt between =>
      rw [hfirst] at hrun
      cases hrun
    | ok result between =>
      rw [hfirst] at hrun
      cases result with
      | some first =>
        obtain ⟨rfl, rfl⟩ : first = returning ∧ between = m' := by
          cases hrun
          exact ⟨rfl, rfl⟩
        exact ⟨[], statement, statements, m, rfl, rfl, hfirst⟩
      | none =>
        obtain ⟨before, last, after, between', rfl, hbefore, hlast⟩ := ih hrun
        refine ⟨statement :: before, last, after, between', rfl, ?_, hlast⟩
        simp only [executeAll, Bind.bind, EStateM.bind, hfirst, hbefore]

end Evaluator

/-! ### Programs -/

/-- How interpreting a program can end, and what the reporter is told by then. -/
inductive Interpreter.Ends (fuel : Nat) (program : List Node) (i : Interpreter) :
    EStateM.Result Escape Interpreter Bool → Prop
  /-- All statements have run and none has returned. The reporter is told nothing. -/
  | finished {m : Machine}
      (hall : (Evaluator.bounded fuel nestingLimit).executeAll program i.machine = .ok none m) :
      Ends fuel program i (.ok true ⟨m, i.reporter⟩)
  /-- A statement has returned by one of its own returns, and none before it has. The reporter is
  told of this return, and nothing has run after it. -/
  | returned {before after : List Node} {statement : Node} {m m' : Machine} {returning : Returning}
      (hprogram : program = before ++ statement :: after)
      (hbefore : (Evaluator.bounded fuel nestingLimit).executeAll before i.machine = .ok none m)
      (hreturn : execute fuel statement m = .ok (some returning) m')
      (hkeyword : returning.keyword ∈ statement.returns) :
      Ends fuel program i (.ok true ⟨m', i.reporter.warn (strayReturn returning.keyword)⟩)
  /-- A statement is at fault, and the reporter is told of the fault. -/
  | faulted {f : RuntimeFault} {m : Machine}
      (hfault : (Evaluator.bounded fuel nestingLimit).executeAll program i.machine =
        .error (.fault f) m) :
      Ends fuel program i (.ok false ⟨m, i.reporter.report f.problem⟩)
  /-- A statement has halted without a fault, and the run is given up. The reporter is told
  nothing. -/
  | escaped {halt : Halt} {m : Machine}
      (hhalt : (Evaluator.bounded fuel nestingLimit).executeAll program i.machine = .error halt m)
      (hfault : ∀ f, halt ≠ .fault f) :
      Ends fuel program i (.error halt.escape ⟨m, i.reporter⟩)

theorem Interpreter.ends_interpret (fuel : Nat) (program : List Node) (i : Interpreter) :
    Ends fuel program i (interpret fuel program i) := by
  have hconclude : interpret fuel program i = _ :=
    interpret_eq_conclude fuel program i.machine i.reporter
  rw [hconclude]
  cases hrun : (Evaluator.bounded fuel nestingLimit).executeAll program i.machine with
  | ok result m =>
    cases result with
    | none => exact .finished hrun
    | some returning =>
      obtain ⟨before, statement, after, between, hprogram, hbefore, hlast⟩ :=
        Evaluator.exists_of_executeAll_eq_some hrun
      exact .returned hprogram hbefore hlast
        ((Evaluator.returnsBy_bounded fuel nestingLimit statement).keyword_mem hlast)
  | error halt m =>
    cases halt with
    | fault f => exact .faulted hrun
    | breakdown b => exact .escaped hrun fun _ h => nomatch h
    | unfinished => exact .escaped hrun fun _ h => nomatch h

/-- A program is interpreted up to the first statement that returns, whatever stands behind it. -/
theorem Interpreter.interpret_of_execute_eq_some {fuel : Nat} {before : List Node}
    {statement : Node} {i : Interpreter} {m m' : Machine} {returning : Returning}
    (hbefore : (Evaluator.bounded fuel nestingLimit).executeAll before i.machine = .ok none m)
    (hreturn : execute fuel statement m = .ok (some returning) m') (after : List Node) :
    interpret fuel (before ++ statement :: after) i =
      .ok true ⟨m', i.reporter.warn (strayReturn returning.keyword)⟩ := by
  have hrun : (Evaluator.bounded fuel nestingLimit).executeAll (before ++ statement :: after)
      i.machine = .ok (some returning) m' := by
    rw [execute] at hreturn
    rw [Evaluator.executeAll_append _ hbefore]
    simp only [Evaluator.executeAll, Bind.bind, EStateM.bind, hreturn]
    rfl
  rw [show i = ⟨i.machine, i.reporter⟩ from rfl, interpret_eq_conclude, hrun]
  rfl

/-- A return never leaves the function it stands in. A statement that returns, on whatever machine
and at whatever depth, does so by the keyword of one of its own returns. Interpreting a program
warns of a return only if it is one of the program's own, warns once, runs nothing after it, and
counts as a run without a fault: when the statements before have run and a statement returns, this
is all there is to it, whatever stands behind. Without such returns nothing is warned about,
whatever functions are called. -/
theorem returns_stay_inside :
    (∀ fuel depth node (m m' : Machine) returning,
      (Evaluator.bounded fuel depth).execute node m = .ok (some returning) m' →
        returning.keyword ∈ node.returns) ∧
    (∀ fuel program (i : Interpreter), i.Ends fuel program (i.interpret fuel program)) ∧
    (∀ fuel before statement after (i : Interpreter) (m m' : Machine) returning,
      (Evaluator.bounded fuel nestingLimit).executeAll before i.machine = .ok none m →
      execute fuel statement m = .ok (some returning) m' →
        i.interpret fuel (before ++ statement :: after) =
          .ok true ⟨m', i.reporter.warn (Interpreter.strayReturn returning.keyword)⟩) ∧
    ∀ fuel program (i : Interpreter), (∀ statement ∈ program, statement.returns = []) →
      let run := (Evaluator.bounded fuel nestingLimit).executeAll program i.machine
      (∃ m, run = .ok none m ∧ i.interpret fuel program = .ok true ⟨m, i.reporter⟩) ∨
        (∃ (f : RuntimeFault) (m : Machine), run = .error (.fault f) m ∧
          i.interpret fuel program = .ok false ⟨m, i.reporter.report f.problem⟩) ∨
        ∃ halt m, run = .error halt m ∧ (∀ f, halt ≠ .fault f) ∧
          i.interpret fuel program = .error halt.escape ⟨m, i.reporter⟩ := by
  refine ⟨fun fuel depth node m m' returning hrun => ?_, fun fuel program i => ?_,
    fun fuel before statement after i m m' returning hbefore hreturn => ?_,
    fun fuel program i hnone => ?_⟩
  · exact (Evaluator.returnsBy_bounded fuel depth node).keyword_mem hrun
  · exact i.ends_interpret fuel program
  · exact Interpreter.interpret_of_execute_eq_some hbefore hreturn after
  · generalize hend : i.interpret fuel program = result
    have hends := i.ends_interpret fuel program
    rw [hend] at hends
    cases hends with
    | finished hall => exact .inl ⟨_, hall, rfl⟩
    | @returned before after statement m m' returning hprogram _ _ hkeyword =>
      have hmem : statement ∈ program := hprogram ▸ List.mem_append_right _ List.mem_cons_self
      rw [hnone statement hmem] at hkeyword
      cases hkeyword
    | faulted hfault => exact .inr (.inl ⟨_, _, hfault, rfl⟩)
    | escaped hhalt hfault => exact .inr (.inr ⟨_, _, hhalt, hfault, rfl⟩)

/-- The keyword of the returns below. -/
def stoppingReturn : Token := ⟨.returnWord, "return", .null, 1, 8, 6⟩

/-- The name in `x;`. -/
def undefinedName : Token := ⟨.identifier, "x", .null, 1, 5, 1⟩

/-- The statement `x;`. -/
def lookingUp : Node := .discard (.reference undefinedName)

/-- The program `fun f() { return; } f();`. -/
def callingReturn : List Node :=
  let f : Token := ⟨.identifier, "f", .null, 1, 5, 1⟩
  [.function f [] [.result stoppingReturn none],
    .discard (.call (.reference f) ⟨.rightParen, ")", .null, 1, 21, 1⟩ [])]

/-- An interpreter that has not interpreted anything. -/
def unused : Interpreter := .new (.new .plain false)

/-- The return in `{ return; x; }` is a return of the block. The one in `fun f() { return; } f();`
is none of the program, which is interpreted to its end without a warning. With `return; x;` behind
it the program is stopped at the return, with a warning and before `x` can be found undefined. -/
theorem returns_stay_inside_call :
    let block : Node := .block [.result stoppingReturn none, lookingUp]
    (∃ m', execute 0 block unused.machine = .ok (some ⟨stoppingReturn, .null⟩) m') ∧
      stoppingReturn ∈ block.returns ∧ (∀ statement ∈ callingReturn, statement.returns = []) ∧
      ∃ m, unused.interpret 0 callingReturn = .ok true ⟨m, unused.reporter⟩ ∧
        unused.interpret 0 (callingReturn ++ .result stoppingReturn none :: [lookingUp]) =
          .ok true ⟨m, unused.reporter.warn (Interpreter.strayReturn stoppingReturn)⟩ ∧
        m.store.get? m.scope undefinedName.text = none := by
  intro block
  have hrun : ∃ m', execute 0 block unused.machine = .ok (some ⟨stoppingReturn, .null⟩) m' :=
    ⟨_, rfl⟩
  obtain ⟨m', hblock⟩ := hrun
  have hnone : ∀ statement ∈ callingReturn, statement.returns = [] := by
    simp [callingReturn, Node.returns]
  have hends := eq_ok_of_resultOf? (x := Interpreter.interpret 0 callingReturn) (s := unused)
    (a := true) (by decide +kernel)
  have hundefined (m : Machine)
      (hm : stateAfter (Interpreter.interpret 0 callingReturn) unused = ⟨m, unused.reporter⟩) :
      m.store.get? m.scope undefinedName.text = none := by
    obtain rfl : (stateAfter (Interpreter.interpret 0 callingReturn) unused).machine = m :=
      congrArg Interpreter.machine hm
    rw [← Option.isNone_iff_eq_none]
    decide +kernel
  obtain ⟨hkeyword, -, hstopped, hwithout⟩ := returns_stay_inside
  refine ⟨⟨m', hblock⟩, hkeyword 0 nestingLimit block _ _ _ hblock, hnone, ?_⟩
  rcases hwithout 0 callingReturn unused hnone with ⟨m, hall, hend⟩ | ⟨_, _, -, hend⟩ |
    ⟨_, _, -, -, hend⟩
  · refine ⟨m, hend, hstopped 0 callingReturn _ _ unused m m ⟨stoppingReturn, .null⟩ hall rfl, ?_⟩
    refine hundefined m ?_
    rw [stateAfter, hend]
  · cases hends.symm.trans hend
  · cases hends.symm.trans hend

end Script
