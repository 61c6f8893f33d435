import Script.Grammar.Parse
import Script.Proofs.Agreement
import Script.Proofs.Tree.Relocation

/-!
# Parsing does not look at places

The grammar speaks of the kinds of tokens only, and a tree takes texts and literals from them. So
tokens that are moved to other places are parsed to the tree with its tokens moved, or rejected with
the same complaints about the moved tokens.

## Main definitions

* `Parsing.Moves` : a parser that does to moved tokens what another one does to the tokens.

## Main results

* `Rule.moves_parseWithin` : the parsers of the rules do not look at places.
* `parse_map` : parsing moved tokens.
-/

namespace Script

/-- The fault with its token moved. -/
def ParseFault.relocate (r : Relocation) (f : ParseFault) : ParseFault :=
  { f with token := r f.token }

/-- The halt with its token moved. -/
def ParseHalt.relocate (r : Relocation) : ParseHalt → ParseHalt
  | .fault f => .fault (f.relocate r)
  | .breakdown b => .breakdown b

namespace Parsing

variable {α β α' β' : Type} {r : Relocation}

/-- A parser of tokens and a parser of the moved tokens that end in the same way. Results of the
first are turned into results of the second by `image`. -/
abbrev Moves (r : Relocation) (image : α → β) (x : Parsing α) (y : Parsing β) : Prop :=
  Agree (fun tokens moved => moved = tokens.map r) (fun halt moved => moved = halt.relocate r) x y
    fun a b => b = image a

/-- Moves one after the other. -/
theorem Moves.then {image : α → β} {image' : α' → β'} {x : Parsing α} {y : Parsing β}
    {f : α → Parsing α'} {g : β → Parsing β'} (hxy : Moves r image x y)
    (hfg : ∀ a, Moves r image' (f a) (g (image a))) : Moves r image' (x >>= f) (y >>= g) := by
  refine hxy.bind ?_
  rintro a _ rfl
  exact hfg a

theorem Moves.ite {image : α → β} {x y : Parsing α} {x' y' : Parsing β} (b : Bool)
    (hx : Moves r image x x') (hy : Moves r image y y') :
    Moves r image (if b then x else y) (if b then x' else y') := by
  cases b with
  | true => exact hx
  | false => exact hy

theorem moves_peek : Moves r r peek peek := by
  rintro tokens _ rfl
  cases tokens with
  | nil => exact .error rfl rfl
  | cons token rest => exact .ok rfl rfl

theorem moves_complain {image : α → β} (complaint : Complaint) (token : Token) :
    Moves r image (complain complaint token) (complain complaint (r token)) :=
  .throw rfl

theorem moves_complain_bind {image : α' → β'} (complaint : Complaint) (token : Token)
    (f : α → Parsing α') (g : β → Parsing β') :
    Moves r image (complain complaint token >>= f) (complain complaint (r token) >>= g) :=
  fun _ _ htokens => .error htokens rfl

theorem moves_atEnd : Moves r id atEnd atEnd :=
  moves_peek.then fun _ => .pure rfl

theorem moves_check (kind : Kind) : Moves r id (check kind) (check kind) :=
  moves_peek.then fun _ => .pure rfl

theorem moves_accept? (kinds : List Kind) :
    Moves r (Option.map r) (accept? kinds) (accept? kinds) := by
  rintro tokens _ rfl
  cases tokens with
  | nil => exact .error rfl rfl
  | cons token rest =>
    by_cases h : token.kind ≠ .endOfInput ∧ token.kind ∈ kinds
    · have hmoved : (r token).kind ≠ .endOfInput ∧ (r token).kind ∈ kinds := h
      rw [List.map_cons, accept?, accept?, if_pos h, if_pos hmoved]
      exact .ok rfl rfl
    · have hmoved : ¬((r token).kind ≠ .endOfInput ∧ (r token).kind ∈ kinds) := h
      rw [List.map_cons, accept?, accept?, if_neg h, if_neg hmoved]
      exact .ok rfl rfl

theorem moves_accept (kind : Kind) : Moves r id (accept kind) (accept kind) := by
  refine (moves_accept? [kind]).then fun token => .pure ?_
  exact Option.isSome_map

theorem moves_expect (kind : Kind) (complaint : Complaint) :
    Moves r r (expect kind complaint) (expect kind complaint) := by
  refine (moves_accept? [kind]).then fun token => ?_
  cases token with
  | none => exact moves_peek.then fun token => moves_complain complaint token
  | some token => exact .pure rfl

private theorem moves_iterateFor {image : α → α'} {image' : β → β'} {step : α → Parsing (α ⊕ β)}
    {step' : α' → Parsing (α' ⊕ β')}
    (hstep : ∀ a, Moves r (Sum.map image image') (step a) (step' (image a)))
    (bound : List Token) (a : α) :
    Moves r image' (iterateFor step bound a) (iterateFor step' (bound.map r) (image a)) := by
  induction bound generalizing a with
  | nil => exact .throw rfl
  | cons _ bound ih =>
    refine (hstep a).then fun next => ?_
    cases next with
    | inl a => exact ih a
    | inr b => exact .pure rfl

theorem moves_iterate (image : α → α') {image' : β → β'} {step : α → Parsing (α ⊕ β)}
    {step' : α' → Parsing (α' ⊕ β')}
    (hstep : ∀ a, Moves r (Sum.map image image') (step a) (step' (image a))) (a : α) :
    Moves r image' (iterate step a) (iterate step' (image a)) := by
  refine Agree.get.bind ?_
  rintro tokens _ rfl
  exact moves_iterateFor hstep tokens a

end Parsing

namespace Rule

open Parsing

section

variable {α β : Type} {r : Relocation} {sub : Rule → Parsing Node}

/-! ### Lists, chains and optional parts -/

private theorem moves_commaList {image : α → β} {item : Parsing α} {item' : Parsing β}
    (hitem : Moves r image item item') (complaint : Complaint) :
    Moves r (List.map image) (commaList item complaint) (commaList item' complaint) := by
  refine (moves_check _).then fun closing => .ite closing (.pure rfl) ?_
  refine moves_iterate (List.map image) (fun items => ?_) []
  unfold listStep
  rw [List.length_map]
  split
  · exact moves_peek.then fun token => moves_complain_bind complaint token _ _
  · refine hitem.then fun a => (moves_accept _).then fun comma => ?_
    have hmore : items.map image ++ [image a] = (items ++ [a]).map image := by
      rw [List.map_append, List.map_singleton]
    rw [hmore]
    exact .ite comma (.pure rfl) (.pure rfl)

private theorem moves_announced {part part' : Parsing Node} (kind : Kind)
    (hpart : Moves r (Node.relocate r) part part') :
    Moves r (Option.map (Node.relocate r)) (announced kind part) (announced kind part') := by
  refine (moves_accept kind).then fun accepted => .ite accepted ?_ (.pure rfl)
  exact hpart.then fun node => .pure rfl

private theorem moves_chain {operand : Parsing Node}
    (hoperand : Moves r (Node.relocate r) operand operand) (kinds : List Kind)
    {join : Node → Token → Node → Node}
    (hjoin : ∀ left operator right, (join left operator right).relocate r =
      join (left.relocate r) (r operator) (right.relocate r)) :
    Moves r (Node.relocate r) (chain operand kinds join) (chain operand kinds join) := by
  refine hoperand.then fun first => moves_iterate (Node.relocate r) (fun left => ?_) first
  refine (moves_accept? kinds).then fun operator => ?_
  cases operator with
  | none => exact .pure rfl
  | some operator =>
    refine hoperand.then fun right => .pure ?_
    rw [Sum.map_inl, hjoin]

theorem relocate_countingLoop (r : Relocation) (initial condition increment : Option Node)
    (body : Node) :
    (countingLoop initial condition increment body).relocate r =
      countingLoop (initial.map (Node.relocate r)) (condition.map (Node.relocate r))
        (increment.map (Node.relocate r)) (body.relocate r) := by
  cases initial <;> cases condition <;> cases increment <;> rfl

variable (hsub : ∀ rule, Moves r (Node.relocate r) (sub rule) (sub rule))
include hsub

private theorem moves_expressionBefore (stop : Kind) :
    Moves r (Option.map (Node.relocate r)) (expressionBefore sub stop)
      (expressionBefore sub stop) := by
  refine (moves_check stop).then fun stopped => .ite stopped (.pure rfl) ?_
  exact (hsub .expression).then fun node => .pure rfl

private theorem moves_blockItems :
    Moves r (List.map (Node.relocate r)) (blockItems sub) (blockItems sub) := by
  have hitems : Moves r (List.map (Node.relocate r)) (iterate (blockStep sub) [])
      (iterate (blockStep sub) []) := by
    refine moves_iterate (List.map (Node.relocate r)) (fun items => ?_) []
    refine (moves_check _).then fun closing => moves_atEnd.then fun ended => ?_
    refine .ite (closing || ended) (.pure ?_) ((hsub .declaration).then fun node => .pure rfl)
    rw [← List.map_reverse]
    rfl
  exact hitems.then fun items => (moves_expect _ _).then fun _ => .pure rfl

/-! ### Declarations and statements -/

private theorem moves_function : Moves r (Node.relocate r) (function sub) (function sub) := by
  refine (moves_expect _ _).then fun name => (moves_expect _ _).then fun _ => ?_
  refine (moves_commaList (moves_expect _ _) _).then fun params => ?_
  refine (moves_expect _ _).then fun _ => (moves_expect _ _).then fun _ => ?_
  refine (moves_blockItems hsub).then fun body => .pure ?_
  rw [Node.relocate, Node.relocateAll_eq_map]

private theorem moves_variableItem :
    Moves r (Node.relocate r) (variableItem sub) (variableItem sub) := by
  refine (moves_expect _ _).then fun name => ?_
  refine (moves_announced _ (hsub .expression)).then fun initial => ?_
  refine (moves_expect _ _).then fun _ => .pure ?_
  rw [Node.relocate, Node.relocateOption_eq_map]

private theorem moves_expressionStatement :
    Moves r (Node.relocate r) (expressionStatement sub) (expressionStatement sub) := by
  refine (hsub .expression).then fun expression => moves_atEnd.then fun ended => ?_
  cases ended with
  | true => exact .pure rfl
  | false => exact (moves_expect _ _).then fun _ => .pure rfl

private theorem moves_returnStatement (keyword : Token) :
    Moves r (Node.relocate r) (returnStatement sub keyword) (returnStatement sub (r keyword)) := by
  refine (moves_expressionBefore hsub _).then fun value => ?_
  refine (moves_expect _ _).then fun _ => .pure ?_
  rw [Node.relocate, Node.relocateOption_eq_map]

private theorem moves_initialClause :
    Moves r (Option.map (Node.relocate r)) (initialClause sub) (initialClause sub) := by
  refine (moves_accept _).then fun missing => .ite missing (.pure rfl) ?_
  refine (moves_accept _).then fun declared => .ite declared ?_ ?_
  · exact (moves_variableItem hsub).then fun node => .pure rfl
  · exact (moves_expressionStatement hsub).then fun node => .pure rfl

private theorem moves_forStatement :
    Moves r (Node.relocate r) (forStatement sub) (forStatement sub) := by
  refine (moves_expect _ _).then fun _ => (moves_initialClause hsub).then fun initial => ?_
  refine (moves_expressionBefore hsub _).then fun condition => (moves_expect _ _).then fun _ => ?_
  refine (moves_expressionBefore hsub _).then fun increment => (moves_expect _ _).then fun _ => ?_
  exact (hsub .statement).then fun body => .pure (relocate_countingLoop ..).symm

private theorem moves_whileStatement :
    Moves r (Node.relocate r) (whileStatement sub) (whileStatement sub) := by
  refine (moves_expect _ _).then fun _ => (hsub .expression).then fun condition => ?_
  exact (moves_expect _ _).then fun _ => (hsub .statement).then fun body => .pure rfl

private theorem moves_ifStatement :
    Moves r (Node.relocate r) (ifStatement sub) (ifStatement sub) := by
  refine (moves_expect _ _).then fun _ => (hsub .expression).then fun condition => ?_
  refine (moves_expect _ _).then fun _ => (hsub .statement).then fun thenBranch => ?_
  refine (moves_announced _ (hsub .statement)).then fun elseBranch => .pure ?_
  rw [Node.relocate, Node.relocateOption_eq_map]

/-! ### Expressions -/

private theorem moves_calls : Moves r (Node.relocate r) (calls sub) (calls sub) := by
  refine (hsub .primary).then fun first => moves_iterate (Node.relocate r) (fun callee => ?_) first
  refine (moves_accept _).then fun opened => .ite opened ?_ (.pure rfl)
  refine (moves_commaList (hsub .expression) _).then fun args => ?_
  refine (moves_expect _ _).then fun paren => .pure ?_
  rw [Sum.map_inl, Node.relocate, Node.relocateAll_eq_map]

private theorem moves_primaryItem :
    Moves r (Node.relocate r) (primaryItem sub) (primaryItem sub) := by
  refine (moves_accept? _).then fun token => ?_
  cases token with
  | none => exact moves_peek.then fun token => moves_complain _ token
  | some token =>
    simp only [Option.map_some, Relocation.kind_apply, Relocation.literal_apply]
    split
    case h_5 =>
      refine (hsub .expression).then fun expression => ?_
      exact (moves_expect _ _).then fun _ => .pure rfl
    all_goals exact .pure rfl

private theorem moves_rule (rule : Rule) :
    Moves r (Node.relocate r) (rule.parser sub) (rule.parser sub) := by
  cases rule with
  | declaration =>
    refine (moves_accept _).then fun isFunction => .ite isFunction (moves_function hsub) ?_
    refine (moves_accept _).then fun isVariable => .ite isVariable (moves_variableItem hsub) ?_
    exact hsub .statement
  | statement =>
    refine (moves_accept? _).then fun token => ?_
    cases token with
    | none => exact moves_expressionStatement hsub
    | some token =>
      simp only [Option.map_some, Relocation.kind_apply]
      split
      · exact moves_returnStatement hsub token
      · exact moves_forStatement hsub
      · exact moves_whileStatement hsub
      · exact moves_ifStatement hsub
      · refine (moves_blockItems hsub).then fun statements => .pure ?_
        rw [Node.relocate, Node.relocateAll_eq_map]
  | expression => exact hsub .assignment
  | assignment =>
    refine (hsub .ternary).then fun target => (moves_accept? _).then fun equals => ?_
    cases equals with
    | none => exact .pure rfl
    | some equals =>
      refine (hsub .assignment).then fun value => ?_
      cases target with
      | reference name => exact .pure rfl
      | _ => exact moves_complain _ equals
  | ternary =>
    refine (hsub .disjunction).then fun condition => ?_
    refine (moves_accept _).then fun asked => .ite asked ?_ (.pure rfl)
    refine (hsub .expression).then fun thenBranch => (moves_expect _ _).then fun _ => ?_
    exact (hsub .ternary).then fun elseBranch => .pure rfl
  | disjunction => exact moves_chain (hsub .conjunction) _ fun _ _ _ => rfl
  | conjunction => exact moves_chain (hsub .equality) _ fun _ _ _ => rfl
  | equality => exact moves_chain (hsub .bitwise) _ fun _ _ _ => rfl
  | bitwise => exact moves_chain (hsub .comparison) _ fun _ _ _ => rfl
  | comparison => exact moves_chain (hsub .sum) _ fun _ _ _ => rfl
  | sum => exact moves_chain (hsub .product) _ fun _ _ _ => rfl
  | product => exact moves_chain (hsub .unary) _ fun _ _ _ => rfl
  | unary =>
    refine (moves_accept? _).then fun operator => ?_
    cases operator with
    | none => exact hsub .step
    | some operator =>
      refine (hsub .unary).then fun right => ?_
      by_cases hkind : operator.kind = .bang ∨ operator.kind = .minus
      · have hmoved : (r operator).kind = .bang ∨ (r operator).kind = .minus := hkind
        simp only [if_pos hkind, if_pos hmoved]
        exact .pure rfl
      · have hmoved : ¬((r operator).kind = .bang ∨ (r operator).kind = .minus) := hkind
        simp only [if_neg hkind, if_neg hmoved]
        cases right with
        | reference name => exact .pure rfl
        | _ => exact moves_complain _ operator
  | step =>
    refine (hsub .call).then fun operand => (moves_accept? _).then fun operator => ?_
    cases operator with
    | none => exact .pure rfl
    | some operator =>
      cases operand with
      | reference name => exact .pure rfl
      | _ => exact moves_complain _ operator
  | call => exact moves_calls hsub
  | primary => exact moves_primaryItem hsub

end

/-- The parsers of the rules do not look at places. -/
theorem moves_parseWithin (r : Relocation) (depth : Nat) (rule : Rule) :
    Moves r (Node.relocate r) (parseWithin depth rule) (parseWithin depth rule) := by
  induction depth generalizing rule with
  | zero => exact .throw rfl
  | succ depth ih => exact moves_rule ih rule

end Rule

/-! ### Programs -/

theorem skipFrom_map (r : Relocation) (previous : Kind) (tokens : List Token) :
    skipFrom previous (tokens.map r) = (skipFrom previous tokens).map (List.map r) := by
  induction tokens generalizing previous with
  | nil => rfl
  | cons token rest ih =>
    rw [List.map_cons, skipFrom, skipFrom, ih, apply_ite (Option.map (List.map r))]
    rfl

theorem resynchronize_map (r : Relocation) (tokens : List Token) :
    resynchronize (tokens.map r) = (resynchronize tokens).map (List.map r) := by
  cases tokens with
  | nil => rfl
  | cons token rest =>
    rw [List.map_cons, resynchronize, resynchronize, skipFrom_map,
      apply_ite (Option.map (List.map r))]
    rfl

/-- The declarations and faults of a program with their tokens moved. -/
def relocateFound (r : Relocation) (found : List Node × List ParseFault) :
    List Node × List ParseFault :=
  (found.1.map (Node.relocate r), found.2.map (ParseFault.relocate r))

theorem parseDeclarations_map (r : Relocation) (depth : Nat) (bound tokens : List Token) :
    parseDeclarations depth (bound.map r) (tokens.map r) =
      (parseDeclarations depth bound tokens).map (relocateFound r) := by
  induction bound generalizing tokens with
  | nil => rfl
  | cons _ bound ih =>
    cases tokens with
    | nil => rfl
    | cons token rest =>
      have hend := Rule.moves_parseWithin r depth .declaration (token :: rest) _ rfl
      rw [List.map_cons] at hend
      simp only [List.map_cons, parseDeclarations]
      by_cases hmark : token.kind = .endOfInput
      · have hmoved : (r token).kind = .endOfInput := hmark
        rw [if_pos hmark, if_pos hmoved]
        rfl
      · have hmoved : ¬(r token).kind = .endOfInput := hmark
        rw [if_neg hmark, if_neg hmoved]
        generalize Rule.parseWithin depth .declaration (token :: rest) = end₁ at hend ⊢
        generalize Rule.parseWithin depth .declaration (r token :: rest.map r) = end₂ at hend ⊢
        cases hend with
        | @ok node _ rest' _ hrest hnode =>
          subst hrest hnode
          simp only [ih]
          cases parseDeclarations depth bound rest' <;> rfl
        | @error halt _ rest' _ hrest hhalt =>
          subst hrest hhalt
          cases halt with
          | breakdown b => rfl
          | fault f =>
            simp only [ParseHalt.relocate, resynchronize_map]
            cases resynchronize rest' with
            | none => rfl
            | some rest'' =>
              simp only [Option.map_some, ih]
              cases parseDeclarations depth bound rest'' <;> rfl

/-- Why there is no program, with the tokens moved. -/
def ParseFailure.relocate (r : Relocation) : ParseFailure → ParseFailure
  | .rejected first others => .rejected (first.relocate r) (others.map (ParseFault.relocate r))
  | .breakdown b => .breakdown b

/-- Moved tokens are parsed to the moved program, or rejected with the same complaints about the
moved tokens. -/
theorem parse_map (r : Relocation) (tokens : List Token) :
    parse (tokens.map r) =
      match parse tokens with
      | .ok program => .ok (program.map (Node.relocate r))
      | .error failure => .error (failure.relocate r) := by
  simp only [parse, parseDeclarations_map]
  cases parseDeclarations nestingLimit tokens tokens with
  | error b => rfl
  | ok found =>
    obtain ⟨nodes, faults⟩ := found
    cases faults <;> rfl

end Script
