import Script.Proofs.Agreement
import Script.Proofs.Evaluation.Growing
import Script.Proofs.Grammar.Programs
import Script.Proofs.Grammar.Traits

/-!
# Parsing up to the end of the input

A parser never reads a mark of the end of the input. So tokens with such a mark are never read past
the first one, however little of them makes sense, and nothing behind it can make a difference.

That parsing ends at all rests on progress. Every repetition is given as many rounds as there are
tokens, and one that needs more rounds breaks down as if the tokens had no end. So does a parser
that reads past the last token. If the tokens have an end, neither happens: each round reads a
token.

## Main definitions

* `throughEnd` : the tokens that matter.
* `Parsing.advancing` : the trait of moving forward and not past the end.
* `Parsing.unforeseeing` : the trait of not looking behind the end.
* `Visits` : the places that a parser can come to.

## Main results

* `parse_of_ended` : what parsing tokens with an end comes to.
-/

namespace Script

/-- The tokens up to the first mark of the end of the input, and the mark. -/
def throughEnd : List Token → List Token
  | [] => []
  | token :: rest => if token.kind = .endOfInput then [token] else token :: throughEnd rest

section

variable {token : Token} {rest tokens tokens' : List Token}

theorem throughEnd_mark (h : token.kind = .endOfInput) (rest : List Token) :
    throughEnd (token :: rest) = [token] :=
  if_pos h

theorem throughEnd_cons (h : token.kind ≠ .endOfInput) (rest : List Token) :
    throughEnd (token :: rest) = token :: throughEnd rest :=
  if_neg h

/-- Tokens that are the same through the end start with the same token, and go on with the same
tokens if it is no mark of the end. -/
theorem exists_cons_of_throughEnd_eq (h : throughEnd (token :: rest) = throughEnd tokens') :
    ∃ rest', tokens' = token :: rest' ∧
      (token.kind ≠ .endOfInput → throughEnd rest = throughEnd rest') := by
  cases tokens' with
  | nil =>
    by_cases hkind : token.kind = .endOfInput
    · rw [throughEnd_mark hkind] at h
      cases h
    · rw [throughEnd_cons hkind] at h
      cases h
  | cons token' rest' =>
    have hhead : token = token' := by
      simp only [throughEnd] at h
      split at h <;> split at h <;> exact (List.cons.inj h).1
    subst hhead
    refine ⟨rest', rfl, fun hkind => ?_⟩
    rw [throughEnd_cons hkind, throughEnd_cons hkind] at h
    exact (List.cons.inj h).2

theorem eq_nil_of_throughEnd_eq (h : throughEnd [] = throughEnd tokens) : tokens = [] := by
  cases tokens with
  | nil => rfl
  | cons token rest =>
    obtain ⟨rest', hnil, -⟩ := exists_cons_of_throughEnd_eq h.symm
    cases hnil

theorem ended_throughEnd_iff (tokens : List Token) : Ended (throughEnd tokens) ↔ Ended tokens := by
  induction tokens with
  | nil => rfl
  | cons token rest ih =>
    by_cases hkind : token.kind = .endOfInput
    · rw [throughEnd_mark hkind]
      simp [Ended, hkind]
    · rw [throughEnd_cons hkind]
      simpa [Ended, hkind] using ih

end

/-! ### Moving forward -/

namespace Parsing

variable {α β : Type}

/-- Wherever the parser stops and in whatever way, it has moved forward and not past the end. -/
def Advances (x : Parsing α) : Prop :=
  ∀ before, Reads before (stateAfter x before)

theorem advances_pure (a : α) : Advances (pure a) :=
  fun before => .refl before

theorem advances_accept? (kinds : List Kind) : Advances (accept? kinds) := by
  intro before
  cases before with
  | nil => exact .refl _
  | cons token rest =>
    by_cases h : token.kind ≠ .endOfInput ∧ token.kind ∈ kinds
    · simp only [stateAfter, accept?, if_pos h]
      exact .step h.1 (.refl rest)
    · simp only [stateAfter, accept?, if_neg h]
      exact .refl _

theorem Advances.bind {x : Parsing α} {f : α → Parsing β} (hx : Advances x)
    (hf : ∀ a, Advances (f a)) : Advances (x >>= f) := by
  intro before
  obtain heq | ⟨a, heq⟩ := stateAfter_bind x f before
  · rw [heq]
    exact hx before
  · rw [heq]
    exact (hx before).trans (hf a _)

theorem Advances.iterateFor {step : α → Parsing (α ⊕ β)} (hstep : ∀ a, Advances (step a))
    (bound : List Token) (a : α) : Advances (Parsing.iterateFor step bound a) := by
  induction bound generalizing a with
  | nil => exact fun before => .refl before
  | cons _ bound ih =>
    refine (hstep a).bind fun next => ?_
    cases next with
    | inl a => exact ih a
    | inr b => exact advances_pure b

/-- Parsers move forward and not past the end. -/
def advancing : Trait where
  Has := Advances
  has_pure := advances_pure
  has_throw _ before := .refl before
  has_peek before := by cases before <;> exact .refl _
  has_accept? := advances_accept?
  has_bind := Advances.bind
  has_iterate hstep a before := Advances.iterateFor hstep before a before

end Parsing

/-- The places that can be reached by moves of the parser: running a rule at some depth, reading a
token of some kinds if it is the next one, and recovering from a fault. -/
inductive Visits (tokens : List Token) : List Token → Prop
  | start : Visits tokens tokens
  | rule (depth : Nat) (rule : Rule) {place : List Token} (h : Visits tokens place) :
      Visits tokens (stateAfter (rule.parseWithin depth) place)
  | accept (kinds : List Kind) {place : List Token} (h : Visits tokens place) :
      Visits tokens (stateAfter (Parsing.accept? kinds) place)
  | resynchronize {place next : List Token} (h : Visits tokens place)
      (hskip : resynchronize place = some next) : Visits tokens next

/-- No move of the parser reads a mark of the end. -/
theorem Visits.reads {tokens place : List Token} (h : Visits tokens place) :
    Reads tokens place := by
  induction h with
  | start => exact .refl tokens
  | rule depth rule _ ih => exact ih.trans (rule.has_parseWithin Parsing.advancing depth _)
  | accept kinds _ ih => exact ih.trans (Parsing.advances_accept? kinds _)
  | resynchronize _ hskip ih => exact ih.trans (reads_of_resynchronize hskip).1

/-! ### Not looking behind the end -/

namespace Parsing

variable {α β : Type}

/-- The parser breaks down because it finds no end of the tokens. -/
def Exhausts (x : Parsing α) (tokens : List Token) : Prop :=
  ∃ rest, x tokens = .error (.breakdown .tokensExhausted) rest

theorem Exhausts.bind {x : Parsing α} {tokens : List Token} (h : x.Exhausts tokens)
    (f : α → Parsing β) : (x >>= f).Exhausts tokens := by
  obtain ⟨rest, hrun⟩ := h
  exact ⟨rest, by simp only [Bind.bind, EStateM.bind, hrun]⟩

theorem Exhausts.of_ok {x : Parsing α} {f : α → Parsing β} {a : α} {tokens mid : List Token}
    (hrun : x tokens = .ok a mid) (h : (f a).Exhausts mid) : (x >>= f).Exhausts tokens := by
  obtain ⟨rest, hrun'⟩ := h
  exact ⟨rest, by simp only [Bind.bind, EStateM.bind, hrun, hrun']⟩

/-- On tokens that are the same through the end two parsers end in the same way, unless one of them
finds no end. -/
def Alike (x y : Parsing α) : Prop :=
  ∀ tokens tokens', throughEnd tokens = throughEnd tokens' →
    x.Exhausts tokens ∨ y.Exhausts tokens' ∨
      EndAlike (fun rest rest' => throughEnd rest = throughEnd rest') (· = ·) (· = ·)
        (x tokens) (y tokens')

theorem Alike.bind {x y : Parsing α} {f g : α → Parsing β} (hxy : Alike x y)
    (hfg : ∀ a, Alike (f a) (g a)) : Alike (x >>= f) (y >>= g) := by
  intro tokens tokens' hsame
  obtain hleft | hright | hends := hxy tokens tokens' hsame
  · exact .inl (hleft.bind f)
  · exact .inr (.inl (hright.bind g))
  · cases hrun : x tokens with
    | ok a mid =>
      rw [hrun] at hends
      obtain ⟨_, mid', hrun', hmid, rfl⟩ := hends.of_ok
      obtain hleft | hright | hends := hfg a mid mid' hmid
      · exact .inl (.of_ok hrun hleft)
      · exact .inr (.inl (.of_ok hrun' hright))
      · refine .inr (.inr ?_)
        simpa only [Bind.bind, EStateM.bind, hrun, hrun'] using hends
    | error halt mid =>
      rw [hrun] at hends
      obtain ⟨_, mid', hrun', hmid, rfl⟩ := hends.of_error
      refine .inr (.inr ?_)
      simp only [Bind.bind, EStateM.bind, hrun, hrun']
      exact .error hmid rfl

/-- Repetitions with different bounds end in the same way, unless one of the bounds is too small. -/
theorem Alike.iterateFor {step : α → Parsing (α ⊕ β)} (hstep : ∀ a, Alike (step a) (step a))
    (bound bound' : List Token) (a : α) :
    Alike (Parsing.iterateFor step bound a) (Parsing.iterateFor step bound' a) := by
  induction bound generalizing bound' a with
  | nil => exact fun tokens _ _ => .inl ⟨tokens, rfl⟩
  | cons _ bound ih =>
    cases bound' with
    | nil => exact fun _ tokens' _ => .inr (.inl ⟨tokens', rfl⟩)
    | cons _ bound' =>
      refine (hstep a).bind fun next => ?_
      cases next with
      | inl a => exact ih bound' a
      | inr b => exact fun _ _ hsame => .inr (.inr (.ok hsame rfl))

theorem alike_accept? (kinds : List Kind) : Alike (accept? kinds) (accept? kinds) := by
  intro tokens tokens' hsame
  cases tokens with
  | nil => exact .inl ⟨[], rfl⟩
  | cons token rest =>
    obtain ⟨rest', rfl, hrest⟩ := exists_cons_of_throughEnd_eq hsame
    refine .inr (.inr ?_)
    rw [accept?, accept?]
    split
    · next h => exact .ok (hrest h.1) rfl
    · exact .ok hsame rfl

theorem alike_peek : Alike peek peek := by
  intro tokens tokens' hsame
  cases tokens with
  | nil => exact .inl ⟨[], rfl⟩
  | cons token rest =>
    obtain ⟨rest', rfl, -⟩ := exists_cons_of_throughEnd_eq hsame
    exact .inr (.inr (.ok hsame rfl))

/-- What stands behind the end makes no difference to parsers. -/
def unforeseeing : Trait where
  Has x := Alike x x
  has_pure _ _ _ hsame := .inr (.inr (.ok hsame rfl))
  has_throw _ _ _ hsame := .inr (.inr (.error hsame rfl))
  has_peek := alike_peek
  has_accept? := alike_accept?
  has_bind hx hf := hx.bind hf
  has_iterate hstep a tokens tokens' hsame :=
    Alike.iterateFor hstep tokens tokens' a tokens tokens' hsame

end Parsing

/-! ### Programs -/

section

variable {tokens tokens' : List Token}

theorem skipFrom_of_throughEnd_eq (previous : Kind) (h : throughEnd tokens = throughEnd tokens') :
    (skipFrom previous tokens).map throughEnd = (skipFrom previous tokens').map throughEnd := by
  induction tokens generalizing previous tokens' with
  | nil => rw [eq_nil_of_throughEnd_eq h]
  | cons token rest ih =>
    obtain ⟨rest', rfl, hrest⟩ := exists_cons_of_throughEnd_eq h
    rw [skipFrom, skipFrom]
    split
    · exact congrArg some h
    · next hgo => exact ih token.kind (hrest fun hkind => hgo (.inl hkind))

theorem resynchronize_of_throughEnd_eq (h : throughEnd tokens = throughEnd tokens') :
    (resynchronize tokens).map throughEnd = (resynchronize tokens').map throughEnd := by
  cases tokens with
  | nil => rw [eq_nil_of_throughEnd_eq h]
  | cons token rest =>
    obtain ⟨rest', rfl, hrest⟩ := exists_cons_of_throughEnd_eq h
    rw [resynchronize, resynchronize]
    split
    · exact congrArg some h
    · next hkind => exact skipFrom_of_throughEnd_eq token.kind (hrest hkind)

/-- What is done next does not keep two computations from being the same or from breaking down. -/
private theorem exhausted_or_eq_bind {α β : Type} {x y : Except Breakdown α}
    (h : x = .error .tokensExhausted ∨ y = .error .tokensExhausted ∨ x = y)
    (f : α → Except Breakdown β) :
    x >>= f = .error .tokensExhausted ∨ y >>= f = .error .tokensExhausted ∨ x >>= f = y >>= f := by
  obtain rfl | rfl | rfl := h
  · exact .inl rfl
  · exact .inr (.inl rfl)
  · exact .inr (.inr rfl)

/-- Declarations are read alike up to the end, unless one of the bounds is too small or there is no
end. -/
theorem parseDeclarations_of_throughEnd_eq (depth : Nat) (bound bound' : List Token)
    (h : throughEnd tokens = throughEnd tokens') :
    parseDeclarations depth bound tokens = .error .tokensExhausted ∨
      parseDeclarations depth bound' tokens' = .error .tokensExhausted ∨
      parseDeclarations depth bound tokens = parseDeclarations depth bound' tokens' := by
  induction bound generalizing bound' tokens tokens' with
  | nil => exact .inl (by rw [parseDeclarations])
  | cons _ bound ih =>
    cases tokens with
    | nil => exact .inl (by rw [parseDeclarations]; simp)
    | cons token rest =>
      obtain ⟨rest', rfl, -⟩ := exists_cons_of_throughEnd_eq h
      cases bound' with
      | nil => exact .inr (.inl (by rw [parseDeclarations]))
      | cons _ bound' =>
        have halike := Rule.has_parseWithin Parsing.unforeseeing depth .declaration
          (token :: rest) (token :: rest') h
        rw [parseDeclarations, parseDeclarations]
        by_cases hkind : token.kind = .endOfInput
        · rw [if_pos hkind, if_pos hkind]
          exact .inr (.inr rfl)
        · rw [if_neg hkind, if_neg hkind]
          obtain ⟨left, hrun⟩ | ⟨left, hrun⟩ | hends := halike
          · exact .inl (by rw [hrun])
          · exact .inr (.inl (by rw [hrun]))
          · cases hrun : Rule.parseWithin depth .declaration (token :: rest) with
            | ok node mid =>
              rw [hrun] at hends
              obtain ⟨_, mid', hrun', hmid, rfl⟩ := hends.of_ok
              rw [hrun']
              exact exhausted_or_eq_bind (ih bound' hmid) _
            | error halt mid =>
              rw [hrun] at hends
              obtain ⟨_, mid', hrun', hmid, rfl⟩ := hends.of_error
              rw [hrun']
              cases halt with
              | breakdown b => exact .inr (.inr rfl)
              | fault fault =>
                have hskip := resynchronize_of_throughEnd_eq hmid
                dsimp only
                cases hnext : resynchronize mid with
                | none => exact .inl rfl
                | some next =>
                  rw [hnext] at hskip
                  obtain ⟨next', hnext', hsame⟩ := Option.map_eq_some_iff.mp hskip.symm
                  rw [hnext']
                  exact exhausted_or_eq_bind (ih bound' hsame.symm) _

theorem parseDeclarations_ne_exhausted (depth : Nat) (h : Ended tokens) :
    parseDeclarations depth tokens tokens ≠ .error .tokensExhausted := by
  intro hrun
  have hsound := sound_parseDeclarations depth tokens tokens (Nat.le_refl _)
  rw [hrun] at hsound
  obtain hdeep | ⟨-, hnot⟩ := hsound
  · cases hdeep
  · exact hnot h

/-- If there is an end, only the tokens up to it matter. -/
theorem parse_of_throughEnd_eq (hended : Ended tokens)
    (h : throughEnd tokens' = throughEnd tokens) : parse tokens' = parse tokens := by
  have hended' : Ended tokens' := by
    rw [← ended_throughEnd_iff, h, ended_throughEnd_iff]
    exact hended
  have hread := parseDeclarations_of_throughEnd_eq nestingLimit tokens' tokens h
  rw [parse, parse]
  obtain hrun | hrun | hrun := hread
  · exact absurd hrun (parseDeclarations_ne_exhausted _ hended')
  · exact absurd hrun (parseDeclarations_ne_exhausted _ hended)
  · rw [hrun]

/-- Parsing tokens with an end gives a program, faults or a breakdown of depth. Every place that the
parser visits still has the end before it, and there is a place to recover at. What stands behind
the first mark of the end makes no difference. -/
theorem parse_of_ended (h : Ended tokens) :
    ((∃ program, parse tokens = .ok program) ∨
      (∃ first others, parse tokens = .error (.rejected first others)) ∨
      parse tokens = .error (.breakdown .tooDeep)) ∧
    (∀ place, Visits tokens place → Reads tokens place ∧ Ended place ∧
      ∃ next, resynchronize place = some next) ∧
    ∀ tokens', throughEnd tokens' = throughEnd tokens → parse tokens' = parse tokens := by
  refine ⟨?_, fun place hplace => ?_, fun tokens' => parse_of_throughEnd_eq h⟩
  · cases hparse : parse tokens with
    | ok program => exact .inl ⟨program, rfl⟩
    | error failure =>
      cases failure with
      | rejected first others => exact .inr (.inl ⟨first, others, rfl⟩)
      | breakdown b =>
        cases parse_ne_breakdown h hparse
        exact .inr (.inr rfl)
  · have hended : Ended place := hplace.reads.ended_iff.mp h
    refine ⟨hplace.reads, hended, ?_⟩
    cases hskip : resynchronize place with
    | none => exact absurd hended (not_ended_of_resynchronize hskip)
    | some next => exact ⟨next, rfl⟩

end

/-- The tokens of `( ) {`, an end, and what would be `}` and another end. -/
def interruptedTokens : List Token :=
  [⟨.leftParen, "(", .null, 1, 1, 1⟩, ⟨.rightParen, ")", .null, 1, 3, 1⟩,
    ⟨.leftBrace, "\x7b", .null, 1, 5, 1⟩, ⟨.endOfInput, "", .null, 1, 5, 0⟩,
    ⟨.rightBrace, "\x7d", .null, 2, 1, 1⟩, ⟨.endOfInput, "", .null, 2, 1, 0⟩]

/-- Neither a brace behind the end nor a second end makes a difference to the fault. -/
theorem parse_interruptedTokens :
    Ended interruptedTokens ∧
      parse interruptedTokens = .error (.rejected ⟨.expression,
        ⟨.rightParen, ")", .null, 1, 3, 1⟩⟩ []) ∧
      parse (interruptedTokens.take 4) = parse interruptedTokens ∧
      ∀ place, Visits interruptedTokens place → Ended place := by
  have hended : Ended interruptedTokens := by simp [Ended, interruptedTokens]
  obtain ⟨-, hplaces, hsame⟩ := parse_of_ended hended
  exact ⟨hended, rfl, hsame _ rfl, fun place hplace => (hplaces place hplace).2.1⟩

end Script
