import Script.Proofs.Evaluation.Keeping
import Script.Proofs.Number.Dividing
import Script.Proofs.Tree.WellFormed

/-!
# Running trees of the grammar

A running program meets the tree it was started with and the bodies of functions that earlier
programs left behind, so the trees of the grammar have to be told of values and of whole machines as
well. A machine is sound when every function bound in one of its scopes has a body from the grammar.

Running a statement of the grammar on a sound machine leaves a sound machine. If the run halts, then
it was too deep, a loop has used up its repetitions, or the program is at fault at a token of the
text that the trees were built from.

## Main definitions

* `Machine.IsSound` : the functions of a machine come from the grammar.
* `Halt.IsSound` : a halt that trees of the grammar can lead to.

## Main results

* `Evaluator.isSound_bounded` : evaluation keeps machines sound.
-/

namespace Script

open Run

variable {isOf : Token → Prop}

/-- A value that is no function, or a function with a body from the grammar. -/
def Value.IsSound (isOf : Token → Prop) : Value → Prop
  | .constant _ => True
  | .function f => ∀ node ∈ f.body, node.IsStatement isOf

/-- All values that are bound in a machine are sound. -/
def Machine.IsSound (isOf : Token → Prop) (m : Machine) : Prop :=
  ∀ id, ∀ entry ∈ m.store.bindings id, entry.2.IsSound isOf

/-- A fault at a token of the text, or a run that is too deep or has not ended. -/
def Halt.IsSound (isOf : Token → Prop) : Halt → Prop
  | .fault f => isOf f.token
  | .breakdown b => b = .tooDeep
  | .unfinished => True

/-- What a statement that returns gives is sound. -/
def Returning.IsSound (isOf : Token → Prop) (returning : Option Returning) : Prop :=
  ∀ r ∈ returning, r.value.IsSound isOf

theorem Machine.IsSound.mono {isOf' : Token → Prop} (hsub : ∀ token, isOf token → isOf' token)
    {m : Machine} (h : m.IsSound isOf) : m.IsSound isOf' := by
  intro id entry hentry
  have hvalue := h id entry hentry
  cases hentry : entry.2 with
  | constant c => trivial
  | function f =>
    rw [hentry] at hvalue
    exact fun node hnode => (hvalue node hnode).mono hsub

theorem Machine.isSound_start (id : Nat) : (Machine.start id).IsSound isOf := by
  intro scope entry hentry
  rcases Store.mem_bindings_define hentry with rfl | hmem
  · trivial
  · rw [Store.bindings_push] at hmem
    simp [Store.bindings, Store.empty] at hmem

/-- An action on sound machines. -/
abbrev Run.IsSound {α : Type} (isOf : Token → Prop) (x : Run α) (post : α → Prop) : Prop :=
  Keeps (Machine.IsSound isOf) (Halt.IsSound isOf) x post

namespace Run

/-! ### Basic actions -/

theorem isSound_fail {α : Type} {cause : RuntimeFault.Cause} {token : Token} {post : α → Prop}
    (htoken : isOf token) : Run.IsSound isOf (fail cause token) post :=
  .throw htoken

theorem isSound_fail_bind {α β : Type} {cause : RuntimeFault.Cause} {token : Token}
    {f : α → Run β} {post : β → Prop} (htoken : isOf token) :
    Run.IsSound isOf (fail cause token >>= f) post :=
  fun _ hm => ⟨hm, htoken⟩

theorem isSound_define {name : String} {value : Value} (hvalue : value.IsSound isOf) :
    Run.IsSound isOf (define name value) fun _ => True := by
  refine .modify fun m hm id entry hentry => ?_
  rcases Store.mem_bindings_define hentry with rfl | hmem
  · exact hvalue
  · exact hm id entry hmem

theorem isSound_lookUp {name : Token} (hname : isOf name) :
    Run.IsSound isOf (lookUp name) (Value.IsSound isOf) := by
  refine Keeps.get.bind fun m hm => ?_
  split
  · next value hvalue =>
    obtain ⟨id, hmem⟩ := Store.mem_bindings_of_get? hvalue
    exact .pure (hm id _ hmem)
  · exact isSound_fail hname

theorem isSound_assign {name : Token} {value : Value} (hname : isOf name)
    (hvalue : value.IsSound isOf) : Run.IsSound isOf (assign name value) fun _ => True := by
  intro m hm
  simp only [assign]
  rcases m.store.assign_cases m.scope name.text value with hassign | ⟨target, hassign⟩
  · rw [hassign]
    exact ⟨hm, hname⟩
  · rw [hassign]
    refine ⟨fun id entry hentry => ?_, trivial⟩
    rcases Store.mem_bindings_define hentry with rfl | hmem
    · exact hvalue
    · exact hm id entry hmem

theorem isSound_makeScope {parent : ScopeId} :
    Run.IsSound isOf (makeScope parent) fun _ => True := by
  intro m hm
  refine ⟨fun id entry hentry => hm id entry ?_, trivial⟩
  rwa [Store.bindings_push] at hentry

theorem isSound_makeFunction {name : Token} {params : List Token} {body : List Node}
    (hbody : ∀ node ∈ body, node.IsStatement isOf) :
    Run.IsSound isOf (makeFunction name params body) (Value.IsSound isOf) :=
  fun _ hm => ⟨hm, hbody⟩

theorem isSound_printLine {line : String} : Run.IsSound isOf (printLine line) fun _ => True :=
  .modify fun _ hm => hm

end Run

/-! ### Operators -/

namespace Value

theorem isSound_unary {operator : Token} (hoperator : isOf operator) (right : Value) :
    Run.IsSound isOf (Run.ofExcept (unary operator right)) (Value.IsSound isOf) := by
  unfold unary
  split
  · exact .pure trivial
  · split
    · exact .pure trivial
    · exact isSound_fail hoperator

theorem isSound_arithmetic {operator : Token}
    (hkind : operator.kind ∈ binaryOperators) (hplus : operator.kind ≠ .plus)
    (hequal : operator.kind ≠ .equalEqual) (hbang : operator.kind ≠ .bangEqual) (x y : Number) :
    Run.IsSound isOf (Run.ofExcept (arithmetic operator x y)) (Value.IsSound isOf) := by
  unfold arithmetic
  simp only [Number.divide_eq]
  split
  case h_10 => simp_all [binaryOperators]
  all_goals exact .pure trivial

theorem isSound_binary {operator : Token} (hkind : operator.kind ∈ binaryOperators)
    (hoperator : isOf operator) (left right : Value) :
    Run.IsSound isOf (Run.ofExcept (left.binary operator right)) (Value.IsSound isOf) := by
  unfold binary
  split
  · exact .pure trivial
  · exact .pure trivial
  · split
    · exact .pure trivial
    · exact .pure trivial
    · exact isSound_fail hoperator
  · next hequal hbang hplus =>
    split
    · exact isSound_arithmetic hkind hplus hequal hbang _ _
    · exact isSound_fail hoperator

theorem isSound_stepped {operator : Token} (hoperator : isOf operator) (value : Value) :
    Run.IsSound isOf (Run.ofExcept (value.stepped operator)) (Value.IsSound isOf) := by
  unfold stepped
  split
  · exact .pure trivial
  · exact isSound_fail hoperator

end Value

/-! ### Evaluation -/

/-- The parts of a tree are treated soundly. -/
structure Evaluator.IsSound (isOf : Token → Prop) (sub : Evaluator) : Prop where
  evaluate : ∀ node, node.IsExpression isOf →
    Run.IsSound isOf (sub.evaluate node) (Value.IsSound isOf)
  execute : ∀ node, node.IsStatement isOf →
    Run.IsSound isOf (sub.execute node) (Returning.IsSound isOf)

namespace Evaluator

variable {sub : Evaluator}

theorem isSound_executeAll (hsub : sub.IsSound isOf) {statements : List Node}
    (h : ∀ node ∈ statements, node.IsStatement isOf) :
    Run.IsSound isOf (sub.executeAll statements) (Returning.IsSound isOf) := by
  induction statements with
  | nil => exact .pure fun _ hr => nomatch hr
  | cons statement statements ih =>
    rw [List.forall_mem_cons] at h
    refine (hsub.execute statement h.1).bind fun returning hreturning => ?_
    cases returning with
    | some returning => exact .pure hreturning
    | none => exact ih h.2

theorem isSound_executeInside (hsub : sub.IsSound isOf) {parent : ScopeId}
    {bindings : List (String × Value)} (hbindings : ∀ entry ∈ bindings, entry.2.IsSound isOf)
    {statements : List Node} (h : ∀ node ∈ statements, node.IsStatement isOf) :
    Run.IsSound isOf (sub.executeInside parent bindings statements) (Returning.IsSound isOf) := by
  refine isSound_makeScope.bind fun scope _ => ?_
  refine keeps_within (fun _ _ hm => hm) ?_ scope
  refine (Keeps.forM fun entry hentry => ?_).bind fun _ _ => isSound_executeAll hsub h
  exact isSound_define (hbindings entry hentry)

theorem isSound_repeatWhile {condition : Run Bool} {body : Run (Option Returning)}
    (hcondition : Run.IsSound isOf condition fun _ => True)
    (hbody : Run.IsSound isOf body (Returning.IsSound isOf)) (fuel : Nat) :
    Run.IsSound isOf (repeatWhile condition body fuel) (Returning.IsSound isOf) := by
  induction fuel with
  | zero => exact .throw trivial
  | succ fuel ih =>
    refine hcondition.bind fun holds _ => ?_
    cases holds with
    | false => exact .pure fun _ hr => nomatch hr
    | true =>
      refine hbody.bind fun returning hreturning => ?_
      cases returning with
      | some returning => exact .pure hreturning
      | none => exact ih

/-- A call makes a function run its body with its parameters bound to the arguments. -/
theorem isSound_call (hsub : sub.IsSound isOf) {callee : Value} (hcallee : callee.IsSound isOf)
    {paren : Token} (hparen : isOf paren) {args : List Value}
    (hargs : ∀ arg ∈ args, arg.IsSound isOf) :
    Run.IsSound isOf (sub.call callee paren args) (Value.IsSound isOf) := by
  unfold call
  split
  · next f =>
    have hbindings : ∀ entry ∈ (f.params.map Token.text).zip args, entry.2.IsSound isOf :=
      fun entry hentry => hargs _ (List.of_mem_zip hentry).2
    split
    · exact isSound_fail_bind hparen
    · refine (isSound_executeInside hsub hbindings hcallee).bind fun returning hreturning => ?_
      refine .pure ?_
      cases returning with
      | none => trivial
      | some returning => exact hreturning returning rfl
  · rw [calling_print]
    split
    · exact isSound_fail hparen
    · exact isSound_printLine.bind fun _ _ => .pure trivial
  · exact isSound_fail hparen

theorem isSound_step {name operator : Token} (hname : isOf name) (hoperator : isOf operator) :
    Run.IsSound isOf (step name operator) fun result =>
      result.1.IsSound isOf ∧ result.2.IsSound isOf := by
  refine (isSound_lookUp hname).bind fun old hold => ?_
  refine (Value.isSound_stepped hoperator old).bind fun new hnew => ?_
  exact (isSound_assign hname hnew).bind fun _ _ => .pure ⟨hold, hnew⟩

theorem isSound_expression (hsub : sub.IsSound isOf) {node : Node} (h : node.IsExpression isOf) :
    Run.IsSound isOf (sub.expression node) (Value.IsSound isOf) := by
  cases h with
  | literal => exact .pure trivial
  | reference hname => exact isSound_lookUp hname
  | assignment hname hvalue =>
    refine (hsub.evaluate _ hvalue).bind fun value hsound => ?_
    exact (isSound_assign hname hsound).bind fun _ _ => .pure hsound
  | binary hkind hoperator hleft hright =>
    refine (hsub.evaluate _ hleft).bind fun left _ => ?_
    refine (hsub.evaluate _ hright).bind fun right _ => ?_
    exact Value.isSound_binary hkind hoperator left right
  | logical _ _ hleft hright =>
    refine (hsub.evaluate _ hleft).bind fun left hsound => ?_
    split
    · exact .pure hsound
    · exact hsub.evaluate _ hright
  | unary _ hoperator hright =>
    exact (hsub.evaluate _ hright).bind fun right _ => Value.isSound_unary hoperator right
  | ternary hcondition hthen helse =>
    refine (hsub.evaluate _ hcondition).bind fun value _ => ?_
    split
    · exact hsub.evaluate _ hthen
    · exact hsub.evaluate _ helse
  | grouping hinner => exact hsub.evaluate _ hinner
  | call hparen hcallee hargs =>
    refine (hsub.evaluate _ hcallee).bind fun callee hsound => ?_
    refine (Keeps.mapM fun arg harg => hsub.evaluate _ (hargs arg harg)).bind
      fun values hvalues => ?_
    exact isSound_call hsub hsound hparen hvalues
  | stepAfter _ hname hoperator =>
    exact (isSound_step hname hoperator).bind fun _ hresult => .pure hresult.1
  | stepBefore _ hname hoperator =>
    exact (isSound_step hname hoperator).bind fun _ hresult => .pure hresult.2

theorem isSound_statement (hsub : sub.IsSound isOf) {node : Node} (h : node.IsStatement isOf)
    (fuel : Nat) : Run.IsSound isOf (sub.statement fuel node) (Returning.IsSound isOf) := by
  have hnone : Returning.IsSound isOf none := fun _ hr => nomatch hr
  cases h with
  | discard hinner => exact (hsub.evaluate _ hinner).bind fun _ _ => .pure hnone
  | @declaration name initial hinitial =>
    cases initial with
    | none =>
      have hnull : Value.null.IsSound isOf := trivial
      exact (isSound_define hnull).bind fun _ _ => .pure hnone
    | some initial =>
      refine (hsub.evaluate _ (hinitial initial rfl)).bind fun value hvalue => ?_
      exact (isSound_define hvalue).bind fun _ _ => .pure hnone
  | block hstatements =>
    refine Keeps.get.bind fun m _ => ?_
    exact isSound_executeInside hsub (List.forall_mem_nil _) hstatements
  | branch hcondition hthen helse =>
    refine (hsub.evaluate _ hcondition).bind fun value _ => ?_
    split
    · exact hsub.execute _ hthen
    · split
      · next statement => exact hsub.execute _ (helse statement rfl)
      · exact .pure hnone
  | loop hcondition hbody =>
    refine isSound_repeatWhile ?_ (hsub.execute _ hbody) fuel
    exact (hsub.evaluate _ hcondition).map fun _ _ => trivial
  | function hbody =>
    refine (isSound_makeFunction hbody).bind fun value hvalue => ?_
    exact (isSound_define hvalue).bind fun _ _ => .pure hnone
  | @result word value hvalue =>
    have hsome (value : Value) (hsound : value.IsSound isOf) :
        Returning.IsSound isOf (some ⟨word, value⟩) := by
      intro returning hr
      cases hr
      exact hsound
    cases value with
    | none => exact .pure (hsome _ trivial)
    | some value =>
      exact (hsub.evaluate _ (hvalue value rfl)).bind fun value hsound => .pure (hsome value hsound)

/-- Evaluation is sound at every depth. -/
theorem isSound_bounded (isOf : Token → Prop) (fuel depth : Nat) :
    (bounded fuel depth).IsSound isOf := by
  induction depth with
  | zero => exact ⟨fun _ _ => .throw rfl, fun _ _ => .throw rfl⟩
  | succ depth ih =>
    exact ⟨fun _ h => isSound_expression ih h, fun _ h => isSound_statement ih h fuel⟩

end Evaluator

theorem isSound_execute (fuel : Nat) {node : Node} (h : node.IsStatement isOf) :
    Run.IsSound isOf (execute fuel node) (Returning.IsSound isOf) :=
  (Evaluator.isSound_bounded isOf fuel nestingLimit).execute node h

end Script
