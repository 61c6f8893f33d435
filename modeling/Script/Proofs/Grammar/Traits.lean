import Script.Grammar.Rule

/-!
# Traits of parsers

The parsers of the grammar are put together from a few basic parsers in a few ways. A property of
parsers that the basic ones have, and that is kept when parsers are put together, is a trait. What
has a trait is found out once for all rules: if the parsers that a rule is given have a trait, then
so has the parser of the rule, and by induction on the depth so has the parser of the grammar.

A trait cannot speak of what a parser finds, because every result may be replaced by another one. It
can speak of where a parser stops and of what it looks at.

## Main definitions

* `Parsing.Trait` : a property of parsers that is kept by putting them together.

## Main results

* `Rule.has_parseWithin` : the parsers of the rules have every trait.
-/

namespace Script

namespace Parsing

/-- A property of parsers that the basic ones have and that is kept by putting parsers together. -/
structure Trait where
  Has : {α : Type} → Parsing α → Prop
  has_pure : ∀ {α : Type} (a : α), Has (pure a)
  has_throw : ∀ {α : Type} (halt : ParseHalt), Has (throw halt : Parsing α)
  has_peek : Has peek
  has_accept? : ∀ kinds : List Kind, Has (accept? kinds)
  has_bind : ∀ {α β : Type} {x : Parsing α} {f : α → Parsing β}, Has x → (∀ a, Has (f a)) →
    Has (x >>= f)
  has_iterate : ∀ {α β : Type} {step : α → Parsing (α ⊕ β)}, (∀ a, Has (step a)) → ∀ a : α,
    Has (iterate step a)

namespace Trait

variable {α : Type} (t : Trait)

theorem has_complain (complaint : Complaint) (token : Token) :
    t.Has (complain complaint token : Parsing α) :=
  t.has_throw _

theorem has_atEnd : t.Has atEnd :=
  t.has_bind t.has_peek fun _ => t.has_pure _

theorem has_check (kind : Kind) : t.Has (check kind) :=
  t.has_bind t.has_peek fun _ => t.has_pure _

theorem has_accept (kind : Kind) : t.Has (accept kind) :=
  t.has_bind (t.has_accept? [kind]) fun _ => t.has_pure _

theorem has_expect (kind : Kind) (complaint : Complaint) : t.Has (expect kind complaint) := by
  refine t.has_bind (t.has_accept? [kind]) fun token => ?_
  cases token with
  | none => exact t.has_bind t.has_peek fun token => t.has_complain complaint token
  | some token => exact t.has_pure token

theorem has_ite {x y : Parsing α} (b : Bool) (hx : t.Has x) (hy : t.Has y) :
    t.Has (if b then x else y) := by
  cases b with
  | true => exact hx
  | false => exact hy

end Trait

end Parsing

namespace Rule

open Parsing

section

variable {α : Type} {t : Trait} {sub : Rule → Parsing Node}

/-! ### Lists, chains and optional parts -/

private theorem has_commaList {item : Parsing α} (hitem : t.Has item) (complaint : Complaint) :
    t.Has (commaList item complaint) := by
  refine t.has_bind (t.has_check _) fun closing => t.has_ite closing (t.has_pure _) ?_
  refine t.has_iterate (fun items => ?_) []
  unfold listStep
  split
  · refine t.has_bind t.has_peek fun token => ?_
    exact t.has_bind (t.has_complain complaint token) fun _ => t.has_bind hitem fun a =>
      t.has_bind (t.has_accept _) fun comma => t.has_ite comma (t.has_pure _) (t.has_pure _)
  · refine t.has_bind hitem fun a => ?_
    exact t.has_bind (t.has_accept _) fun comma => t.has_ite comma (t.has_pure _) (t.has_pure _)

private theorem has_announced {part : Parsing Node} (hpart : t.Has part) (kind : Kind) :
    t.Has (announced kind part) := by
  refine t.has_bind (t.has_accept kind) fun accepted => t.has_ite accepted ?_ (t.has_pure _)
  exact t.has_bind hpart fun node => t.has_pure _

private theorem has_chain {operand : Parsing Node} (hoperand : t.Has operand) (kinds : List Kind)
    (join : Node → Token → Node → Node) : t.Has (chain operand kinds join) := by
  refine t.has_bind hoperand fun first => t.has_iterate (fun left => ?_) first
  refine t.has_bind (t.has_accept? kinds) fun operator => ?_
  cases operator with
  | none => exact t.has_pure _
  | some operator => exact t.has_bind hoperand fun right => t.has_pure _

variable (hsub : ∀ rule, t.Has (sub rule))
include hsub

private theorem has_expressionBefore (stop : Kind) : t.Has (expressionBefore sub stop) := by
  refine t.has_bind (t.has_check stop) fun stopped => t.has_ite stopped (t.has_pure _) ?_
  exact t.has_bind (hsub .expression) fun node => t.has_pure _

private theorem has_blockItems : t.Has (blockItems sub) := by
  have hitems : t.Has (iterate (blockStep sub) []) := by
    refine t.has_iterate (fun items => ?_) []
    refine t.has_bind (t.has_check _) fun closing => t.has_bind t.has_atEnd fun ended => ?_
    refine t.has_ite (closing || ended) (t.has_pure _) ?_
    exact t.has_bind (hsub .declaration) fun node => t.has_pure _
  refine t.has_bind hitems fun items => ?_
  exact t.has_bind (t.has_expect _ _) fun closing => t.has_pure _

/-! ### Declarations and statements -/

private theorem has_function : t.Has (function sub) := by
  refine t.has_bind (t.has_expect _ _) fun name => t.has_bind (t.has_expect _ _) fun opening => ?_
  refine t.has_bind (has_commaList (t.has_expect _ _) _) fun params => ?_
  refine t.has_bind (t.has_expect _ _) fun closing => t.has_bind (t.has_expect _ _) fun brace => ?_
  exact t.has_bind (has_blockItems hsub) fun body => t.has_pure _

private theorem has_variableItem : t.Has (variableItem sub) := by
  refine t.has_bind (t.has_expect _ _) fun name => ?_
  refine t.has_bind (has_announced (hsub .expression) _) fun initial => ?_
  exact t.has_bind (t.has_expect _ _) fun semicolon => t.has_pure _

private theorem has_expressionStatement : t.Has (expressionStatement sub) := by
  refine t.has_bind (hsub .expression) fun expression => t.has_bind t.has_atEnd fun ended => ?_
  cases ended with
  | true => exact t.has_pure _
  | false => exact t.has_bind (t.has_expect _ _) fun semicolon => t.has_pure _

private theorem has_returnStatement (keyword : Token) : t.Has (returnStatement sub keyword) := by
  refine t.has_bind (has_expressionBefore hsub _) fun value => ?_
  exact t.has_bind (t.has_expect _ _) fun semicolon => t.has_pure _

private theorem has_initialClause : t.Has (initialClause sub) := by
  refine t.has_bind (t.has_accept _) fun missing => t.has_ite missing (t.has_pure _) ?_
  refine t.has_bind (t.has_accept _) fun declared => t.has_ite declared ?_ ?_
  · exact t.has_bind (has_variableItem hsub) fun node => t.has_pure _
  · exact t.has_bind (has_expressionStatement hsub) fun node => t.has_pure _

private theorem has_forStatement : t.Has (forStatement sub) := by
  refine t.has_bind (t.has_expect _ _) fun opening => ?_
  refine t.has_bind (has_initialClause hsub) fun initial => ?_
  refine t.has_bind (has_expressionBefore hsub _) fun condition => ?_
  refine t.has_bind (t.has_expect _ _) fun semicolon => ?_
  refine t.has_bind (has_expressionBefore hsub _) fun increment => ?_
  refine t.has_bind (t.has_expect _ _) fun closing => ?_
  exact t.has_bind (hsub .statement) fun body => t.has_pure _

private theorem has_whileStatement : t.Has (whileStatement sub) := by
  refine t.has_bind (t.has_expect _ _) fun opening => ?_
  refine t.has_bind (hsub .expression) fun condition => ?_
  refine t.has_bind (t.has_expect _ _) fun closing => ?_
  exact t.has_bind (hsub .statement) fun body => t.has_pure _

private theorem has_ifStatement : t.Has (ifStatement sub) := by
  refine t.has_bind (t.has_expect _ _) fun opening => ?_
  refine t.has_bind (hsub .expression) fun condition => ?_
  refine t.has_bind (t.has_expect _ _) fun closing => ?_
  refine t.has_bind (hsub .statement) fun thenBranch => ?_
  exact t.has_bind (has_announced (hsub .statement) _) fun elseBranch => t.has_pure _

/-! ### Expressions -/

private theorem has_calls : t.Has (calls sub) := by
  refine t.has_bind (hsub .primary) fun first => t.has_iterate (fun callee => ?_) first
  refine t.has_bind (t.has_accept _) fun opened => t.has_ite opened ?_ (t.has_pure _)
  refine t.has_bind (has_commaList (hsub .expression) _) fun args => ?_
  exact t.has_bind (t.has_expect _ _) fun paren => t.has_pure _

private theorem has_primaryItem : t.Has (primaryItem sub) := by
  refine t.has_bind (t.has_accept? _) fun token => ?_
  cases token with
  | none => exact t.has_bind t.has_peek fun token => t.has_complain _ token
  | some token =>
    dsimp only
    split
    case h_5 =>
      refine t.has_bind (hsub .expression) fun expression => ?_
      exact t.has_bind (t.has_expect _ _) fun closing => t.has_pure _
    all_goals exact t.has_pure _

/-- The parser of a rule has a trait if the parsers that it is given have it. -/
theorem has_rule (rule : Rule) : t.Has (rule.parser sub) := by
  cases rule with
  | declaration =>
    refine t.has_bind (t.has_accept _) fun isFunction => t.has_ite isFunction (has_function hsub) ?_
    refine t.has_bind (t.has_accept _) fun isVariable => ?_
    exact t.has_ite isVariable (has_variableItem hsub) (hsub .statement)
  | statement =>
    refine t.has_bind (t.has_accept? _) fun token => ?_
    cases token with
    | none => exact has_expressionStatement hsub
    | some token =>
      dsimp only
      split
      · exact has_returnStatement hsub token
      · exact has_forStatement hsub
      · exact has_whileStatement hsub
      · exact has_ifStatement hsub
      · exact t.has_bind (has_blockItems hsub) fun statements => t.has_pure _
  | expression => exact hsub .assignment
  | assignment =>
    refine t.has_bind (hsub .ternary) fun target => ?_
    refine t.has_bind (t.has_accept? _) fun equals => ?_
    cases equals with
    | none => exact t.has_pure _
    | some equals =>
      refine t.has_bind (hsub .assignment) fun value => ?_
      cases target with
      | reference name => exact t.has_pure _
      | _ => exact t.has_complain _ equals
  | ternary =>
    refine t.has_bind (hsub .disjunction) fun condition => ?_
    refine t.has_bind (t.has_accept _) fun asked => t.has_ite asked ?_ (t.has_pure _)
    refine t.has_bind (hsub .expression) fun thenBranch => ?_
    refine t.has_bind (t.has_expect _ _) fun colon => ?_
    exact t.has_bind (hsub .ternary) fun elseBranch => t.has_pure _
  | disjunction => exact has_chain (hsub .conjunction) _ _
  | conjunction => exact has_chain (hsub .equality) _ _
  | equality => exact has_chain (hsub .bitwise) _ _
  | bitwise => exact has_chain (hsub .comparison) _ _
  | comparison => exact has_chain (hsub .sum) _ _
  | sum => exact has_chain (hsub .product) _ _
  | product => exact has_chain (hsub .unary) _ _
  | unary =>
    refine t.has_bind (t.has_accept? _) fun operator => ?_
    cases operator with
    | none => exact hsub .step
    | some operator =>
      refine t.has_bind (hsub .unary) fun right => ?_
      split
      · exact t.has_pure _
      · cases right with
        | reference name => exact t.has_pure _
        | _ => exact t.has_complain _ operator
  | step =>
    refine t.has_bind (hsub .call) fun operand => ?_
    refine t.has_bind (t.has_accept? _) fun operator => ?_
    cases operator with
    | none => exact t.has_pure _
    | some operator =>
      cases operand with
      | reference name => exact t.has_pure _
      | _ => exact t.has_complain _ operator
  | call => exact has_calls hsub
  | primary => exact has_primaryItem hsub

end

/-- The parsers of the rules have every trait, at every depth. -/
theorem has_parseWithin (t : Trait) (depth : Nat) (rule : Rule) :
    t.Has (parseWithin depth rule) := by
  induction depth generalizing rule with
  | zero => exact t.has_throw _
  | succ depth ih => exact has_rule ih rule

end Rule

end Script
