import Script.Proofs.Grammar.Programs

/-!
# Balanced brackets

A phrase closes every parenthesis and every brace that it opens and no others. So a program has as
many closing brackets of either pair as opening ones, and a source text with more opening ones than
closing ones is not yet a program.

The order of the brackets does not matter here. What a bracket adds to the excess of opening
brackets over closing ones is a number, and the tokens from the start of a phrase on have the same
excess as those behind it.

## Main definitions

* `BracketPair.excess` : how many more brackets are opened than closed.

## Main results

* `Derives.excess_eq` : phrases are balanced.
* `countP_closing_of_parse` : programs are balanced.
-/

namespace Script

/-- A pair of brackets. -/
inductive BracketPair where
  | paren
  | brace

namespace BracketPair

/-- The kind of an opening bracket. -/
def opening : BracketPair → Kind
  | paren => .leftParen
  | brace => .leftBrace

/-- The kind of a closing bracket. -/
def closing : BracketPair → Kind
  | paren => .rightParen
  | brace => .rightBrace

/-- What a token of a kind adds to the excess of opening brackets over closing ones. -/
def tilt (b : BracketPair) (kind : Kind) : Int :=
  if kind = b.opening then 1 else if kind = b.closing then -1 else 0

/-- How many more brackets are opened than closed by tokens. -/
def excess (b : BracketPair) : List Token → Int
  | [] => 0
  | token :: tokens => b.tilt token.kind + b.excess tokens

@[simp] theorem excess_cons (b : BracketPair) (token : Token) (tokens : List Token) :
    b.excess (token :: tokens) = b.tilt token.kind + b.excess tokens :=
  rfl

theorem excess_eq_countP (b : BracketPair) (tokens : List Token) :
    b.excess tokens =
      tokens.countP (·.kind = b.opening) - (tokens.countP (·.kind = b.closing) : Int) := by
  have hne : b.opening ≠ b.closing := by cases b <;> decide
  induction tokens with
  | nil => rfl
  | cons token tokens ih =>
    rw [excess_cons, ih, tilt, List.countP_cons, List.countP_cons]
    split
    · next hopening =>
      simp only [hopening, hne, decide_true, decide_false, if_true, Bool.false_eq_true, if_false]
      omega
    · next hopening =>
      split
      · next hclosing =>
        simp only [hclosing, hne.symm, decide_true, decide_false, if_true, Bool.false_eq_true,
          if_false]
        omega
      · next hclosing =>
        simp only [hopening, hclosing, decide_false, Bool.false_eq_true, if_false]
        omega

/-- A bracket that is opened and closed leaves the excess as it is. -/
theorem tilt_parens (b : BracketPair) : b.tilt .leftParen + b.tilt .rightParen = 0 := by
  cases b <;> decide

theorem tilt_braces (b : BracketPair) : b.tilt .leftBrace + b.tilt .rightBrace = 0 := by
  cases b <;> decide

/-- The kinds of tokens that are brackets of either pair. -/
def kinds : List Kind :=
  [.leftParen, .rightParen, .leftBrace, .rightBrace]

theorem tilt_eq_zero (b : BracketPair) {kind : Kind} (h : kind ∉ kinds) : b.tilt kind = 0 := by
  simp only [kinds, List.mem_cons, List.not_mem_nil, or_false, not_or] at h
  cases b <;> simp [tilt, opening, closing, h]

end BracketPair

open BracketPair

/-- The operators of a phrase are no brackets. This holds of every phrase but those with operators
of a level that the grammar does not have. -/
def Phrase.IsBracketless : Phrase → Prop
  | .operands level .. => ∀ kind ∈ level.operators, kind ∉ BracketPair.kinds
  | _ => True

theorem Rule.notMem_kinds_of_level? {rule : Rule} {level : Level} (h : rule.level? = some level) :
    ∀ kind ∈ level.operators, kind ∉ BracketPair.kinds := by
  cases rule <;> cases h <;> decide

theorem Token.notMem_kinds_of_constant? {t : Token} {value : Constant}
    (h : t.constant? = some value) : t.kind ∉ BracketPair.kinds := by
  simp only [Token.constant?] at h
  split at h <;> simp_all [BracketPair.kinds]

/-- A phrase closes the brackets that it opens and no others. -/
theorem Derives.excess_eq {phrase : Phrase} {before after : List Token}
    (h : Derives (some .varWord) phrase before after) (hphrase : phrase.IsBracketless)
    (b : BracketPair) : b.excess before = b.excess after := by
  have hparens := b.tilt_parens
  have hbraces := b.tilt_braces
  have hsteps : ∀ kind ∈ stepOperators, kind ∉ BracketPair.kinds := by decide
  have hunary : ∀ kind ∈ unaryOperators, kind ∉ BracketPair.kinds := by decide
  induction h with
  | level hlevel _ _ ih ihoperands =>
    rw [ih trivial, ihoperands (Rule.notMem_kinds_of_level? hlevel)]
  | moreOperands hoperator _ _ ih ihoperands =>
    rw [excess_cons, b.tilt_eq_zero (hphrase _ hoperator), ih trivial, ihoperands hphrase,
      Int.zero_add]
  | variableInitial hmarked _ ih =>
    cases hmarked with
    | word hword => rw [excess_cons, hword, b.tilt_eq_zero (by decide), ih trivial, Int.zero_add]
  | stepBefore hoperator hname =>
    simp [b.tilt_eq_zero (hsteps _ hoperator), hname, b.tilt_eq_zero, BracketPair.kinds]
  | stepAfter hname hoperator =>
    simp [b.tilt_eq_zero (hsteps _ hoperator), hname, b.tilt_eq_zero, BracketPair.kinds]
  | unary hoperator _ ih =>
    rw [excess_cons, b.tilt_eq_zero (hunary _ hoperator), ih trivial, Int.zero_add]
  | constant hword =>
    rw [excess_cons, b.tilt_eq_zero (Token.notMem_kinds_of_constant? hword), Int.zero_add]
  | _ =>
    -- the tokens are plain words, or a pair of brackets around phrases that are balanced
    simp_all [Phrase.IsBracketless, b.tilt_eq_zero, BracketPair.kinds] <;> omega

/-- A program closes as many brackets of a pair as it opens. -/
theorem countP_closing_of_parse {tokens : List Token} (hends : EndsOnce tokens)
    {program : List Node} (hparse : parse tokens = .ok program) (b : BracketPair) :
    tokens.countP (·.kind = b.closing) = tokens.countP (·.kind = b.opening) := by
  obtain ⟨mark, hmark, hprogram⟩ := isProgram_of_parse hends hparse
  have hexcess := hprogram.excess_eq trivial b
  have hnone : b.excess [mark] = 0 := by
    rw [excess_cons, hmark, b.tilt_eq_zero (by decide), Int.zero_add]
    rfl
  rw [hnone, excess_eq_countP] at hexcess
  omega

end Script
