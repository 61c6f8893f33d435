import Script.Proofs.Grammar.Completeness

/-!
# Nesting that is too deep

An expression starts with its first operand, and a statement with its expression, so the parser of a
rule goes down to the tightest rule before it reads anything, and goes down once more for every
opening parenthesis. Tokens that open as many parentheses as the parser may go down are too deep for
it, whatever follows them.

## Main results

* `parse_of_opened` : tokens that are too deep for parsing.
-/

namespace Script

namespace Parsing

variable {α β : Type} {x : Parsing α} {tokens rest : List Token}

/-- A parser finds some tokens too deep. -/
def BreaksDown (x : Parsing α) (tokens : List Token) : Prop :=
  ∃ rest, x tokens = .error (.breakdown .tooDeep) rest

theorem BreaksDown.bind (h : BreaksDown x tokens) (f : α → Parsing β) :
    BreaksDown (x >>= f) tokens := by
  obtain ⟨rest, hrun⟩ := h
  refine ⟨rest, ?_⟩
  simp only [Bind.bind, EStateM.bind, hrun]

theorem BreaksDown.bind_of_run {a : α} (hrun : x tokens = .ok a rest) {f : α → Parsing β}
    (h : BreaksDown (f a) rest) : BreaksDown (x >>= f) tokens := by
  obtain ⟨rest', hrest⟩ := h
  refine ⟨rest', ?_⟩
  simp only [Bind.bind, EStateM.bind, hrun, hrest]

end Parsing

namespace Rule

open Parsing

/-- The parser of a rule finds tokens too deep that start with an opening parenthesis, if the
parsers that it is given find them too deep, and the tokens behind the parenthesis as well. -/
theorem breaksDown_rule {sub : Rule → Parsing Node} {token : Token} {rest : List Token}
    (hkind : token.kind = .leftParen) (hsub : ∀ rule, BreaksDown (sub rule) (token :: rest))
    (hrest : BreaksDown (sub .expression) rest) (rule : Rule) :
    BreaksDown (rule.parser sub) (token :: rest) := by
  have hnone {kinds : List Kind} (h : .leftParen ∉ kinds) :
      accept? kinds (token :: rest) = .ok none (token :: rest) :=
    accept?_cons_of_notMem (hkind ▸ h)
  have hfalse {kind : Kind} (h : .leftParen ≠ kind) :
      accept kind (token :: rest) = .ok false (token :: rest) :=
    accept_cons_of_ne (hkind ▸ h)
  cases rule with
  | declaration =>
    refine .bind_of_run (hfalse (by decide)) (.bind_of_run (hfalse (by decide)) ?_)
    exact hsub .statement
  | statement => exact .bind_of_run (hnone (by decide)) ((hsub .expression).bind _)
  | expression => exact hsub .assignment
  | assignment => exact (hsub .ternary).bind _
  | ternary => exact (hsub .disjunction).bind _
  | disjunction => exact (hsub .conjunction).bind _
  | conjunction => exact (hsub .equality).bind _
  | equality => exact (hsub .bitwise).bind _
  | bitwise => exact (hsub .comparison).bind _
  | comparison => exact (hsub .sum).bind _
  | sum => exact (hsub .product).bind _
  | product => exact (hsub .unary).bind _
  | unary => exact .bind_of_run (hnone (by decide)) (hsub .step)
  | step => exact (hsub .call).bind _
  | call => exact (hsub .primary).bind _
  | primary =>
    have hopened : accept? [.falseWord, .trueWord, .nullWord, .number, .string, .identifier,
        .leftParen] (token :: rest) = .ok (some token) rest :=
      accept?_cons_of_mem (by simp [hkind]) (by decide)
    refine .bind_of_run hopened ?_
    simp only [hkind]
    exact hrest.bind _

/-- The parser of a rule finds tokens too deep that open as many parentheses as it may go down. -/
theorem breaksDown_parseWithin {depth : Nat} {tokens : List Token}
    (h : List.replicate depth .leftParen <+: tokens.map Token.kind) (rule : Rule) :
    BreaksDown (parseWithin depth rule) tokens := by
  induction depth generalizing tokens rule with
  | zero => exact ⟨tokens, rfl⟩
  | succ depth ih =>
    have hless : List.replicate depth Kind.leftParen <+: tokens.map Token.kind := by
      rw [List.replicate_succ'] at h
      exact (List.prefix_append _ _).trans h
    cases tokens with
    | nil => cases List.prefix_nil.mp h
    | cons token rest =>
      rw [List.replicate_succ, List.map_cons, List.cons_prefix_cons] at h
      exact breaksDown_rule h.1.symm (fun rule => ih hless rule) (ih h.2 .expression) rule

end Rule

/-- Parsing breaks down on tokens that open as many parentheses as it may nest. -/
theorem parse_of_opened {tokens : List Token}
    (h : List.replicate nestingLimit .leftParen <+: tokens.map Token.kind) :
    parse tokens = .error (.breakdown .tooDeep) := by
  obtain ⟨rest', hrun⟩ := Rule.breaksDown_parseWithin h .declaration
  cases tokens with
  | nil => cases List.prefix_nil.mp h
  | cons token rest =>
    have hkind : token.kind ≠ .endOfInput := by
      rw [nestingLimit, List.replicate_succ, List.map_cons, List.cons_prefix_cons] at h
      rw [← h.1]
      decide
    rw [parse, parseDeclarations, if_neg hkind, hrun]

end Script
