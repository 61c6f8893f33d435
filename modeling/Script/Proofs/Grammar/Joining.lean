import Script.Proofs.Grammar.Programs

/-!
# Parsing two programs as one

A parser decides with one token in sight. So if the mark at the end of a program is replaced by the
tokens of another program, the parser notices nothing before it has come to that place. There it
could go on in two ways only: with an expression, if the first program lacks its last semicolon, and
with an `else`. If the first program ends with a semicolon or a brace, and the second one does not
start with an `else`, the parser finds the declarations of the first program and then those of the
second.

The two runs are compared step by step. Only results are carried from the first run to the second:
the first run may fail where the second one goes on.

## Main definitions

* `Seam` : the place where the mark of the end is replaced.
* `Parsing.Carries` : a parser whose results on some tokens are results on others.

## Main results

* `Rule.carries_parseWithin` : the parsers of the rules carry results across a seam.
* `parse_append` : parsing two programs as one.
-/

namespace Script

/-- The place where the mark of the end of a program is replaced by the tokens of another one. -/
structure Seam where
  mark : Token
  first : Token
  rest : List Token
  mark_kind : mark.kind = .endOfInput
  first_kind : first.kind ≠ .elseWord

namespace Seam

/-- The kinds of tokens that can stand before a seam. -/
def closers : List Kind :=
  [.semicolon, .rightBrace]

/-- On either side of a seam the same tokens up to it, the last of which has still to be read. -/
inductive Ahead (seam : Seam) : List Token → List Token → Prop
  | last {closing : Token} (hclosing : closing.kind ∈ closers) :
      Ahead seam [closing, seam.mark] (closing :: seam.first :: seam.rest)
  | cons {token : Token} {tokens tokens' : List Token} (hkind : token.kind ≠ .endOfInput)
      (h : Ahead seam tokens tokens') :
      Ahead seam (token :: tokens) (token :: tokens')

/-- The same tokens up to a seam, which may have been reached. -/
inductive Meets (seam : Seam) : List Token → List Token → Prop
  | ahead {tokens tokens' : List Token} (h : seam.Ahead tokens tokens') : Meets seam tokens tokens'
  | reached : Meets seam [seam.mark] (seam.first :: seam.rest)

/-- Where a rule can leave the tokens: only declarations and statements can end at a seam. -/
def After (seam : Seam) : Rule → List Token → List Token → Prop
  | .declaration | .statement => seam.Meets
  | _ => seam.Ahead

variable {seam : Seam} {tokens tokens' : List Token}

/-- Before a seam the next token is the same on both sides, and reading it leads to the seam only if
it can stand there. -/
theorem Ahead.exists_cons (h : seam.Ahead tokens tokens') :
    ∃ token rest rest', tokens = token :: rest ∧ tokens' = token :: rest' ∧
      token.kind ≠ .endOfInput ∧ seam.Meets rest rest' ∧
      (token.kind ∉ closers → seam.Ahead rest rest') := by
  cases h with
  | last hclosing =>
    refine ⟨_, _, _, rfl, rfl, ?_, .reached, fun hnot => absurd hclosing hnot⟩
    rintro hkind
    rw [hkind] at hclosing
    exact absurd hclosing (by decide)
  | cons hkind h => exact ⟨_, _, _, rfl, rfl, hkind, .ahead h, fun _ => h⟩

theorem Ahead.length_le (h : seam.Ahead tokens tokens') : tokens.length ≤ tokens'.length := by
  induction h with
  | last =>
    simp only [List.length_cons, List.length_nil]
    omega
  | cons _ _ ih =>
    rw [List.length_cons, List.length_cons]
    omega

/-- Tokens that end with one that can stand before a seam. -/
theorem ahead_append (seam : Seam) {body : List Token} {closing : Token}
    (hbody : ∀ token ∈ body, token.kind ≠ .endOfInput) (hclosing : closing.kind ∈ closers) :
    seam.Ahead (body ++ [closing, seam.mark]) (body ++ closing :: seam.first :: seam.rest) := by
  induction body with
  | nil => exact .last hclosing
  | cons token body ih =>
    rw [List.forall_mem_cons] at hbody
    exact .cons hbody.1 (ih hbody.2)

end Seam

namespace Parsing

variable {α β : Type} {seam : Seam} {P Q R : List Token → List Token → Prop}

theorem expect_eq_ok {kind : Kind} {complaint : Complaint} {tokens rest : List Token}
    {token : Token} (h : expect kind complaint tokens = .ok token rest) :
    tokens = token :: rest ∧ token.kind = kind := by
  cases tokens with
  | nil => cases h
  | cons next mid =>
    simp only [expect, Bind.bind, EStateM.bind, accept?] at h
    by_cases hfound : next.kind ≠ .endOfInput ∧ next.kind ∈ [kind]
    · rw [if_pos hfound] at h
      cases h
      exact ⟨rfl, List.mem_singleton.mp hfound.2⟩
    · rw [if_neg hfound] at h
      cases h

/-- A parser whose results on some tokens are also its results on others. -/
def Carries (P Q : List Token → List Token → Prop) (x : Parsing α) : Prop :=
  ∀ tokens tokens', P tokens tokens' → ∀ a rest, x tokens = .ok a rest →
    ∃ rest', x tokens' = .ok a rest' ∧ Q rest rest'

namespace Carries

theorem pure {a : α} : Carries P P (pure a) := by
  intro tokens tokens' hP b rest h
  cases h
  exact ⟨tokens', rfl, hP⟩

theorem complain (complaint : Complaint) (token : Token) :
    Carries P Q (Parsing.complain complaint token : Parsing α) := by
  intro tokens tokens' _ a rest h
  cases h

theorem complain_bind (complaint : Complaint) (token : Token) (f : α → Parsing β) :
    Carries P Q (Parsing.complain complaint token >>= f) := by
  intro tokens tokens' _ b rest h
  cases h

theorem mono {P' Q' : List Token → List Token → Prop} {x : Parsing α} (hx : Carries P Q x)
    (hP : ∀ tokens tokens', P' tokens tokens' → P tokens tokens')
    (hQ : ∀ tokens tokens', Q tokens tokens' → Q' tokens tokens') : Carries P' Q' x := by
  intro tokens tokens' h a rest hrun
  obtain ⟨rest', hrun', hrest⟩ := hx _ _ (hP _ _ h) _ _ hrun
  exact ⟨rest', hrun', hQ _ _ hrest⟩

theorem bind {x : Parsing α} {f : α → Parsing β} (hx : Carries P Q x)
    (hf : ∀ a, Carries Q R (f a)) : Carries P R (x >>= f) := by
  intro tokens tokens' h b rest hrun
  simp only [Bind.bind, EStateM.bind] at hrun ⊢
  cases hfirst : x tokens with
  | error halt mid =>
    rw [hfirst] at hrun
    cases hrun
  | ok a mid =>
    rw [hfirst] at hrun
    obtain ⟨mid', hfirst', hmid⟩ := hx _ _ h _ _ hfirst
    rw [hfirst']
    exact hf a _ _ hmid _ _ hrun

theorem ite {x y : Parsing α} (b : Bool) (hx : Carries P Q x) (hy : Carries P Q y) :
    Carries P Q (if b then x else y) := by
  cases b with
  | true => exact hx
  | false => exact hy

/-- Results before a seam are all that matters of a parser that has none at its end. -/
theorem meets {x : Parsing α} (hx : Carries seam.Ahead Q x)
    (hblocked : ∀ a rest, x [seam.mark] ≠ .ok a rest) : Carries seam.Meets Q x := by
  rintro _ _ (h | _) a rest hrun
  · exact hx _ _ h _ _ hrun
  · exact absurd hrun (hblocked a rest)

theorem toMeets {x : Parsing α} (hx : Carries P seam.Ahead x) : Carries P seam.Meets x :=
  hx.mono (fun _ _ => id) fun _ _ => .ahead

theorem ofMeets {x : Parsing α} (hx : Carries seam.Meets Q x) : Carries seam.Ahead Q x :=
  hx.mono (fun _ _ => .ahead) fun _ _ => id

/-! ### Basic parsers -/

theorem peek : Carries seam.Ahead seam.Ahead peek := by
  intro tokens tokens' h token rest hrun
  obtain ⟨next, mid, mid', rfl, rfl, -, -⟩ := h.exists_cons
  cases hrun
  exact ⟨_, rfl, h⟩

theorem atEnd : Carries seam.Ahead seam.Ahead atEnd :=
  peek.bind fun _ => .pure

theorem check (kind : Kind) : Carries seam.Ahead seam.Ahead (check kind) :=
  peek.bind fun _ => .pure

theorem accept? {kinds : List Kind} (hkinds : ∀ kind ∈ kinds, kind ∉ Seam.closers) :
    Carries seam.Ahead seam.Ahead (accept? kinds) := by
  intro tokens tokens' h found rest hrun
  obtain ⟨token, mid, mid', rfl, rfl, -, -, hahead⟩ := h.exists_cons
  rw [Parsing.accept?] at hrun ⊢
  split at hrun
  · next hfound =>
    cases hrun
    exact ⟨mid', if_pos hfound, hahead (hkinds _ hfound.2)⟩
  · next hfound =>
    cases hrun
    exact ⟨_, if_neg hfound, h⟩

theorem accept {kind : Kind} (hkind : kind ∉ Seam.closers) :
    Carries seam.Ahead seam.Ahead (accept kind) := by
  refine (accept? fun other hother => ?_).bind fun _ => .pure
  rwa [List.mem_singleton.mp hother]

/-- A token that can stand before a seam may be the last one there. -/
theorem bind_accept {kind : Kind} (hend : kind ≠ .endOfInput) {f : Bool → Parsing β}
    (htrue : Carries seam.Meets Q (f true)) (hfalse : Carries seam.Ahead Q (f false)) :
    Carries seam.Ahead Q (Parsing.accept kind >>= f) := by
  intro tokens tokens' h b rest hrun
  obtain ⟨token, mid, mid', rfl, rfl, -, hmeets, -⟩ := h.exists_cons
  simp only [Bind.bind, EStateM.bind] at hrun ⊢
  by_cases hkind : token.kind = kind
  · rw [accept_cons_of_eq hkind hend] at hrun ⊢
    exact htrue _ _ hmeets _ _ hrun
  · rw [accept_cons_of_ne hkind] at hrun ⊢
    exact hfalse _ _ h _ _ hrun

/-- An `else` is found on neither side of a seam. -/
theorem accept_else : Carries seam.Meets seam.Meets (Parsing.accept .elseWord) := by
  rintro tokens tokens' (h | _) a rest hrun
  · exact (accept (by decide)).toMeets _ _ h _ _ hrun
  · rw [accept_cons_of_ne (by rw [seam.mark_kind]; decide)] at hrun
    cases hrun
    exact ⟨_, accept_cons_of_ne seam.first_kind, .reached⟩

/-- A token that is asked for is found before a seam only. -/
theorem expect_closer {kind : Kind} (hend : kind ≠ .endOfInput) (complaint : Complaint) :
    Carries seam.Meets seam.Meets (expect kind complaint) := by
  rintro tokens tokens' (h | _) a rest hrun
  · obtain ⟨token, mid, mid', rfl, rfl, -, hmeets, -⟩ := h.exists_cons
    obtain ⟨hcons, hkind⟩ := expect_eq_ok hrun
    cases hcons
    exact ⟨mid', expect_cons_of_eq hkind hend, hmeets⟩
  · obtain ⟨hcons, hkind⟩ := expect_eq_ok hrun
    cases hcons
    exact absurd (hkind.symm.trans seam.mark_kind) hend

theorem expect {kind : Kind} (hkind : kind ∉ .endOfInput :: Seam.closers)
    (complaint : Complaint) : Carries seam.Ahead seam.Ahead (expect kind complaint) := by
  intro tokens tokens' h a rest hrun
  rw [List.mem_cons, not_or] at hkind
  obtain ⟨token, mid, mid', rfl, rfl, -, -, hahead⟩ := h.exists_cons
  obtain ⟨hcons, htoken⟩ := expect_eq_ok hrun
  cases hcons
  exact ⟨mid', expect_cons_of_eq htoken hkind.1, hahead (htoken ▸ hkind.2)⟩

/-! ### Repetition -/

/-- A repeated step that carries its results, up to a last one that may be an exception. There are
at least as many tokens behind a seam as before, so the bound of the repetition is no tighter
there. -/
theorem iterateFor {step : α → Parsing (α ⊕ β)} {exception : List Token → Prop}
    (hstep : ∀ a tokens tokens', P tokens tokens' → ∀ next rest, step a tokens = .ok next rest →
      (∃ rest', step a tokens' = .ok next rest' ∧ P rest rest') ∨
        (∃ b, next = .inr b) ∧ exception rest)
    {bound bound' : List Token} (hbound : bound.length ≤ bound'.length) {a : α} {b : β}
    {tokens tokens' rest : List Token} (h : P tokens tokens')
    (hrun : iterateFor step bound a tokens = .ok b rest) :
    (∃ rest', iterateFor step bound' a tokens' = .ok b rest' ∧ P rest rest') ∨ exception rest := by
  induction bound generalizing bound' a tokens tokens' with
  | nil => cases hrun
  | cons _ bound ih =>
    cases bound' with
    | nil => exact absurd hbound (Nat.not_succ_le_zero _)
    | cons _ bound' =>
      simp only [Parsing.iterateFor, Bind.bind, EStateM.bind] at hrun ⊢
      cases hfirst : step a tokens with
      | error halt mid =>
        rw [hfirst] at hrun
        cases hrun
      | ok next mid =>
        rw [hfirst] at hrun
        obtain ⟨mid', hfirst', hmid⟩ | ⟨⟨b', rfl⟩, hexception⟩ := hstep a _ _ h _ _ hfirst
        · rw [hfirst']
          cases next with
          | inl a => exact ih (Nat.le_of_succ_le_succ hbound) hmid hrun
          | inr b' =>
            cases hrun
            exact .inl ⟨mid', rfl, hmid⟩
        · cases hrun
          exact .inr hexception

theorem iterate {step : α → Parsing (α ⊕ β)}
    (hstep : ∀ a, Carries seam.Ahead seam.Ahead (step a)) (a : α) :
    Carries seam.Ahead seam.Ahead (iterate step a) := by
  intro tokens tokens' h b rest hrun
  have hsteps : ∀ a tokens tokens', seam.Ahead tokens tokens' → ∀ next rest,
      step a tokens = .ok next rest →
      (∃ rest', step a tokens' = .ok next rest' ∧ seam.Ahead rest rest') ∨
        (∃ b, next = .inr b) ∧ False :=
    fun a _ _ h next rest hnext => .inl (hstep a _ _ h next rest hnext)
  exact (iterateFor hsteps h.length_le h hrun).resolve_right id

end Carries

end Parsing

namespace Rule

open Parsing

section

variable {α : Type} {seam : Seam} {sub : Rule → Parsing Node}

/-! ### Lists, chains and optional parts -/

private theorem carries_commaList {item : Parsing α} (hitem : Carries seam.Ahead seam.Ahead item)
    (complaint : Complaint) : Carries seam.Ahead seam.Ahead (commaList item complaint) := by
  refine (Carries.check _).bind fun closing => .ite closing .pure ?_
  refine .iterate (fun items => ?_) []
  unfold listStep
  split
  · exact Carries.peek.bind fun token => .complain_bind complaint token _
  · refine hitem.bind fun a => ?_
    exact (Carries.accept (by decide)).bind fun comma => .ite comma .pure .pure

private theorem carries_chain {operand : Parsing Node}
    (hoperand : Carries seam.Ahead seam.Ahead operand) {kinds : List Kind}
    (hkinds : ∀ kind ∈ kinds, kind ∉ Seam.closers) (join : Node → Token → Node → Node) :
    Carries seam.Ahead seam.Ahead (chain operand kinds join) := by
  refine hoperand.bind fun first => .iterate (fun left => ?_) first
  refine (Carries.accept? hkinds).bind fun operator => ?_
  cases operator with
  | none => exact .pure
  | some operator => exact hoperand.bind fun right => .pure

/-- The parsers of the rules carry results across a seam, and have none at its end. -/
structure CarriesRules (seam : Seam) (sub : Rule → Parsing Node) : Prop where
  blocked : ∀ rule node rest, sub rule [seam.mark] ≠ .ok node rest
  carries : ∀ rule, Carries seam.Ahead (seam.After rule) (sub rule)

variable (hsub : CarriesRules seam sub)
include hsub

/-- At a seam neither the token that an expression may be missing before nor an expression is found,
so both sides fail. -/
private theorem carries_expressionBefore (stop : Kind) :
    Carries seam.Meets seam.Ahead (expressionBefore sub stop) := by
  refine Carries.meets ?_ fun node rest hrun => ?_
  · refine (Carries.check stop).bind fun stopped => .ite stopped .pure ?_
    exact (hsub.carries .expression).bind fun node => .pure
  · have hcheck : check stop [seam.mark] = .ok false [seam.mark] := by
      rw [check_cons, seam.mark_kind]
      simp
    simp only [expressionBefore, Bind.bind, EStateM.bind, hcheck, Bool.false_eq_true,
      if_false] at hrun
    cases hexpression : sub .expression [seam.mark] with
    | ok node rest => exact hsub.blocked _ _ _ hexpression
    | error halt rest =>
      rw [hexpression] at hrun
      cases hrun

private theorem carries_blockItems : Carries seam.Ahead seam.Meets (blockItems sub) := by
  -- a block that ends at the seam lacks its closing brace
  have hsteps : ∀ items tokens tokens', seam.Meets tokens tokens' → ∀ next rest,
      blockStep sub items tokens = .ok next rest →
      (∃ rest', blockStep sub items tokens' = .ok next rest' ∧ seam.Meets rest rest') ∨
        (∃ items, next = .inr items) ∧ rest = [seam.mark] := by
    rintro items tokens tokens' (h | _) next rest hrun
    · have hstep : Carries seam.Ahead seam.Meets (blockStep sub items) := by
        refine (Carries.check _).bind fun closing => Carries.atEnd.bind fun ended => ?_
        refine .ite (closing || ended) Carries.pure.toMeets ?_
        exact (hsub.carries .declaration).bind fun node => .pure
      exact .inl (hstep _ _ h _ _ hrun)
    · have hstep : blockStep sub items [seam.mark] = .ok (.inr items.reverse) [seam.mark] := by
        simp only [blockStep, Bind.bind, EStateM.bind, check_cons, atEnd_cons, seam.mark_kind]
        rfl
      cases hstep.symm.trans hrun
      exact .inr ⟨⟨_, rfl⟩, rfl⟩
  intro tokens tokens' h items rest hrun
  simp only [blockItems, Bind.bind, EStateM.bind] at hrun ⊢
  cases hloop : iterate (blockStep sub) [] tokens with
  | error halt mid =>
    rw [hloop] at hrun
    cases hrun
  | ok nodes mid =>
    rw [hloop] at hrun
    obtain ⟨mid', hloop', hmid⟩ | rfl := Carries.iterateFor hsteps h.length_le (.ahead h) hloop
    · rw [show iterate (blockStep sub) [] tokens' = _ from hloop']
      exact (Carries.expect_closer (by decide) _).bind (fun _ => .pure) _ _ hmid _ _ hrun
    · cases hexpect : expect .rightBrace .blockEnd [seam.mark] with
      | error halt mid => simp only [hexpect, reduceCtorEq] at hrun
      | ok brace mid =>
        obtain ⟨hcons, hbrace⟩ := expect_eq_ok hexpect
        cases hcons
        exact absurd (hbrace.symm.trans seam.mark_kind) (by decide)

/-! ### Declarations and statements -/

private theorem carries_function : Carries seam.Ahead seam.Meets (function sub) := by
  refine (Carries.expect (by decide) _).bind fun name => ?_
  refine (Carries.expect (by decide) _).bind fun _ => ?_
  refine (carries_commaList (.expect (by decide) _) _).bind fun params => ?_
  refine (Carries.expect (by decide) _).bind fun _ => ?_
  refine (Carries.expect (by decide) _).bind fun _ => ?_
  exact (carries_blockItems hsub).bind fun body => .pure

private theorem carries_variableItem : Carries seam.Ahead seam.Meets (variableItem sub) := by
  refine (Carries.expect (by decide) _).bind fun name => ?_
  have hinitial : Carries seam.Ahead seam.Ahead (announced .equal (sub .expression)) := by
    refine (Carries.accept (by decide)).bind fun announced => .ite announced ?_ .pure
    exact (hsub.carries .expression).bind fun node => .pure
  refine hinitial.bind fun initial => ?_
  exact (Carries.expect_closer (by decide) _).ofMeets.bind fun _ => .pure

private theorem carries_expressionStatement :
    Carries seam.Ahead seam.Meets (expressionStatement sub) := by
  refine (hsub.carries .expression).bind fun expression => Carries.atEnd.bind fun ended => ?_
  cases ended with
  | true => exact Carries.pure.toMeets
  | false => exact (Carries.expect_closer (by decide) _).ofMeets.bind fun _ => .pure

private theorem carries_returnStatement (keyword : Token) :
    Carries seam.Ahead seam.Meets (returnStatement sub keyword) := by
  refine (carries_expressionBefore hsub _).ofMeets.bind fun value => ?_
  exact (Carries.expect_closer (by decide) _).ofMeets.bind fun _ => .pure

private theorem carries_initialClause : Carries seam.Ahead seam.Meets (initialClause sub) := by
  refine .bind_accept (by decide) .pure ?_
  refine (Carries.accept (by decide)).bind fun declared => .ite declared ?_ ?_
  · exact (carries_variableItem hsub).bind fun node => .pure
  · exact (carries_expressionStatement hsub).bind fun node => .pure

private theorem carries_forStatement : Carries seam.Ahead seam.Meets (forStatement sub) := by
  refine (Carries.expect (by decide) _).bind fun _ => ?_
  refine (carries_initialClause hsub).bind fun initial => ?_
  refine (carries_expressionBefore hsub _).bind fun condition => ?_
  refine (Carries.expect_closer (by decide) _).ofMeets.bind fun _ => ?_
  refine (carries_expressionBefore hsub _).bind fun increment => ?_
  refine (Carries.expect (by decide) _).bind fun _ => ?_
  exact (hsub.carries .statement).bind fun body => .pure

private theorem carries_whileStatement : Carries seam.Ahead seam.Meets (whileStatement sub) := by
  refine (Carries.expect (by decide) _).bind fun _ => ?_
  refine (hsub.carries .expression).bind fun condition => ?_
  refine (Carries.expect (by decide) _).bind fun _ => ?_
  exact (hsub.carries .statement).bind fun body => .pure

private theorem carries_ifStatement : Carries seam.Ahead seam.Meets (ifStatement sub) := by
  refine (Carries.expect (by decide) _).bind fun _ => ?_
  refine (hsub.carries .expression).bind fun condition => ?_
  refine (Carries.expect (by decide) _).bind fun _ => ?_
  refine (hsub.carries .statement).bind fun thenBranch => ?_
  have helse : Carries seam.Meets seam.Meets (announced .elseWord (sub .statement)) := by
    refine Carries.accept_else.bind fun announced => .ite announced ?_ .pure
    exact ((hsub.carries .statement).meets (hsub.blocked _)).bind fun node => .pure
  exact helse.bind fun elseBranch => .pure

/-! ### Expressions -/

private theorem carries_calls : Carries seam.Ahead seam.Ahead (calls sub) := by
  refine (hsub.carries .primary).bind fun first => .iterate (fun callee => ?_) first
  refine (Carries.accept (by decide)).bind fun opened => .ite opened ?_ .pure
  refine (carries_commaList (hsub.carries .expression) _).bind fun args => ?_
  exact (Carries.expect (by decide) _).bind fun paren => .pure

private theorem carries_primaryItem : Carries seam.Ahead seam.Ahead (primaryItem sub) := by
  refine (Carries.accept? (by decide)).bind fun token => ?_
  cases token with
  | none => exact Carries.peek.bind fun token => .complain _ token
  | some token =>
    dsimp only
    split
    case h_5 =>
      refine (hsub.carries .expression).bind fun expression => ?_
      exact (Carries.expect (by decide) _).bind fun _ => .pure
    all_goals exact .pure

private theorem carries_rule (rule : Rule) :
    Carries seam.Ahead (seam.After rule) (rule.parser sub) := by
  cases rule with
  | declaration =>
    refine (Carries.accept (by decide)).bind fun isFunction =>
      .ite isFunction (carries_function hsub) ?_
    refine (Carries.accept (by decide)).bind fun isVariable =>
      .ite isVariable (carries_variableItem hsub) ?_
    exact hsub.carries .statement
  | statement =>
    refine (Carries.accept? (by decide)).bind fun token => ?_
    cases token with
    | none => exact carries_expressionStatement hsub
    | some token =>
      dsimp only
      split
      · exact carries_returnStatement hsub token
      · exact carries_forStatement hsub
      · exact carries_whileStatement hsub
      · exact carries_ifStatement hsub
      · exact (carries_blockItems hsub).bind fun statements => .pure
  | expression => exact hsub.carries .assignment
  | assignment =>
    refine (hsub.carries .ternary).bind fun target => ?_
    refine (Carries.accept? (by decide)).bind fun equals => ?_
    cases equals with
    | none => exact .pure
    | some equals =>
      refine (hsub.carries .assignment).bind fun value => ?_
      cases target with
      | reference name => exact .pure
      | _ => exact .complain _ equals
  | ternary =>
    refine (hsub.carries .disjunction).bind fun condition => ?_
    refine (Carries.accept (by decide)).bind fun asked => .ite asked ?_ .pure
    refine (hsub.carries .expression).bind fun thenBranch => ?_
    refine (Carries.expect (by decide) _).bind fun _ => ?_
    exact (hsub.carries .ternary).bind fun elseBranch => .pure
  | disjunction => exact carries_chain (hsub.carries .conjunction) (by decide) _
  | conjunction => exact carries_chain (hsub.carries .equality) (by decide) _
  | equality => exact carries_chain (hsub.carries .bitwise) (by decide) _
  | bitwise => exact carries_chain (hsub.carries .comparison) (by decide) _
  | comparison => exact carries_chain (hsub.carries .sum) (by decide) _
  | sum => exact carries_chain (hsub.carries .product) (by decide) _
  | product => exact carries_chain (hsub.carries .unary) (by decide) _
  | unary =>
    refine (Carries.accept? (by decide)).bind fun operator => ?_
    cases operator with
    | none => exact hsub.carries .step
    | some operator =>
      refine (hsub.carries .unary).bind fun right => ?_
      split
      · exact .pure
      · cases right with
        | reference name => exact .pure
        | _ => exact .complain _ operator
  | step =>
    refine (hsub.carries .call).bind fun operand => ?_
    refine (Carries.accept? (by decide)).bind fun operator => ?_
    cases operator with
    | none => exact .pure
    | some operator =>
      cases operand with
      | reference name => exact .pure
      | _ => exact .complain _ operator
  | call => exact carries_calls hsub
  | primary => exact carries_primaryItem hsub

end

theorem Finds.starts {rule : Rule} {before after : List Token} {node : Node}
    (h : rule.Finds before node after) : StartsWith declarationStarts before := by
  have hexpression (h : Writes (.expression rule node) before after) :
      StartsWith declarationStarts before :=
    StartsWith.mono h.starts fun kind hkind =>
      List.mem_append_right _ (List.mem_append_right _ (rule.starts_subset hkind))
  cases rule with
  | declaration =>
    obtain ⟨_, hdeclaration⟩ := h
    exact hdeclaration.starts
  | statement =>
    obtain ⟨_, hstatement, -⟩ := h
    exact StartsWith.mono hstatement.starts (List.subset_append_right _ _)
  | _ => exact hexpression h

/-- No phrase starts with the mark of the end of the input. -/
theorem parseWithin_mark_ne_ok {mark : Token} (hmark : mark.kind = .endOfInput) (depth : Nat)
    (rule : Rule) (node : Node) (rest : List Token) :
    parseWithin depth rule [mark] ≠ .ok node rest := by
  intro hrun
  have hsound := sound_parseWithin depth rule [mark] (.refl _)
  rw [hrun] at hsound
  have hstart := startsWith_cons.mp hsound.2.starts
  rw [hmark] at hstart
  exact absurd hstart (by decide)

/-- The parsers of the rules carry results across a seam. -/
theorem carries_parseWithin (seam : Seam) (depth : Nat) :
    CarriesRules seam (parseWithin depth) := by
  induction depth with
  | zero =>
    refine ⟨parseWithin_mark_ne_ok seam.mark_kind 0, fun rule tokens tokens' _ node rest hrun => ?_⟩
    cases hrun
  | succ depth ih => exact ⟨parseWithin_mark_ne_ok seam.mark_kind _, carries_rule ih⟩

end Rule

/-! ### Programs -/

theorem parse_eq_ok_iff {tokens : List Token} {program : List Node} :
    parse tokens = .ok program ↔
      parseDeclarations nestingLimit tokens tokens = .ok (program, []) := by
  rw [parse]
  cases parseDeclarations nestingLimit tokens tokens with
  | error b => simp
  | ok found =>
    obtain ⟨nodes, faults⟩ := found
    cases faults <;> simp

/-- Reading declarations without a fault, step by step. -/
theorem parseDeclarations_cons_iff {depth : Nat} {first token : Token} {bound rest : List Token}
    {nodes : List Node} :
    parseDeclarations depth (first :: bound) (token :: rest) = .ok (nodes, []) ↔
      token.kind = .endOfInput ∧ nodes = [] ∨
        token.kind ≠ .endOfInput ∧ ∃ node mid others,
          Rule.parseWithin depth .declaration (token :: rest) = .ok node mid ∧
          parseDeclarations depth bound mid = .ok (others, []) ∧ nodes = node :: others := by
  constructor
  · intro h
    rw [parseDeclarations] at h
    split at h
    · next hkind =>
      cases h
      exact .inl ⟨hkind, rfl⟩
    · next hkind =>
      refine .inr ⟨hkind, ?_⟩
      split at h
      · next node mid hnode =>
        cases hmore : parseDeclarations depth bound mid with
        | error b =>
          rw [hmore] at h
          cases h
        | ok found =>
          obtain ⟨others, faults⟩ := found
          rw [hmore] at h
          cases h
          exact ⟨node, mid, others, hnode, hmore, rfl⟩
      · next f mid hnode =>
        cases hnext : resynchronize mid with
        | none =>
          rw [hnext] at h
          cases h
        | some next =>
          rw [hnext] at h
          dsimp only at h
          cases hmore : parseDeclarations depth bound next with
          | error b =>
            rw [hmore] at h
            cases h
          | ok found =>
            obtain ⟨others, faults⟩ := found
            rw [hmore] at h
            cases h
      · cases h
  · rintro (⟨hkind, rfl⟩ | ⟨hkind, node, mid, others, hnode, hothers, rfl⟩)
    · rw [parseDeclarations, if_pos hkind]
    · rw [parseDeclarations, if_neg hkind, hnode]
      simp only [hothers]
      rfl

/-- A longer bound on the declarations makes no difference. -/
theorem parseDeclarations_of_length_le {depth : Nat} {bound bound' tokens : List Token}
    {nodes : List Node} (h : parseDeclarations depth bound tokens = .ok (nodes, []))
    (hbound : bound.length ≤ bound'.length) :
    parseDeclarations depth bound' tokens = .ok (nodes, []) := by
  induction bound generalizing bound' tokens nodes with
  | nil => cases h
  | cons _ bound ih =>
    cases bound' with
    | nil => exact absurd hbound (Nat.not_succ_le_zero _)
    | cons _ bound' =>
      cases tokens with
      | nil => cases h
      | cons token rest =>
        rw [parseDeclarations_cons_iff] at h ⊢
        refine h.imp_right ?_
        rintro ⟨hkind, node, mid, others, hnode, hothers, rfl⟩
        exact ⟨hkind, node, mid, others, hnode, ih hothers (Nat.le_of_succ_le_succ hbound), rfl⟩

/-- The declarations up to a seam are followed by those behind it. -/
theorem parseDeclarations_of_meets {seam : Seam} {depth : Nat}
    {bound bound' tokens tokens' : List Token} {nodes others : List Node}
    (hmore : parseDeclarations depth (seam.first :: seam.rest) (seam.first :: seam.rest) =
      .ok (others, []))
    (h : seam.Meets tokens tokens') (hrun : parseDeclarations depth bound tokens = .ok (nodes, []))
    (hbound : bound.length + seam.rest.length ≤ bound'.length) :
    parseDeclarations depth bound' tokens' = .ok (nodes ++ others, []) := by
  induction bound generalizing bound' tokens tokens' nodes with
  | nil => cases hrun
  | cons _ bound ih =>
    rw [List.length_cons] at hbound
    cases h with
    | reached =>
      obtain ⟨-, rfl⟩ | ⟨hkind, -⟩ := parseDeclarations_cons_iff.mp hrun
      · refine parseDeclarations_of_length_le hmore ?_
        rw [List.length_cons]
        omega
      · exact absurd seam.mark_kind hkind
    | ahead h =>
      obtain ⟨token, rest, rest', rfl, rfl, hkind, -, -⟩ := h.exists_cons
      cases bound' with
      | nil =>
        rw [List.length_nil] at hbound
        omega
      | cons _ bound' =>
        obtain ⟨hend, -⟩ | ⟨-, node, mid, nodes, hnode, hnodes, rfl⟩ :=
          parseDeclarations_cons_iff.mp hrun
        · exact absurd hend hkind
        · obtain ⟨mid', hnode', hmid⟩ :=
            (Rule.carries_parseWithin seam depth).carries .declaration _ _ h _ _ hnode
          rw [List.length_cons] at hbound
          refine parseDeclarations_cons_iff.mpr (.inr ⟨hkind, node, mid', _, hnode', ?_, rfl⟩)
          exact ih hmid hnodes (by omega)

/-- Parsing the tokens of a program, without the mark at their end, and of another program gives the
statements of both, if the first program is empty or ends with a semicolon or a brace. -/
theorem parse_append {tokens others : List Token} {program more : List Node}
    (htokens : EndsOnce tokens) (hothers : EndsOnce others) (hparse : parse tokens = .ok program)
    (hmore : parse others = .ok more)
    (hlast : ∀ token, tokens.dropLast.getLast? = some token → token.kind ∈ Seam.closers) :
    parse (tokens.dropLast ++ others) = .ok (program ++ more) := by
  obtain ⟨body, mark, rfl, hmark, hbody⟩ := htokens
  obtain ⟨end', hend, hprogram⟩ := isProgram_of_parse hothers hmore
  obtain ⟨first, rest, rfl, hfirst⟩ :=
    hprogram.declarations_stop (by simp [hend]) true
  let seam : Seam := ⟨mark, first, rest, hmark, hfirst rfl⟩
  rw [List.dropLast_concat] at hlast ⊢
  have hmeets : seam.Meets (body ++ [mark]) (body ++ first :: rest) := by
    obtain rfl | ⟨body, closing, rfl⟩ := List.eq_nil_or_concat body
    · exact .reached
    · rw [List.concat_eq_append] at hlast hbody ⊢
      rw [List.append_assoc, List.append_assoc]
      refine .ahead (seam.ahead_append (fun token htoken => hbody token ?_) (hlast closing ?_))
      · exact List.mem_append_left _ htoken
      · exact List.getLast?_concat
  rw [parse_eq_ok_iff] at hparse hmore ⊢
  refine parseDeclarations_of_meets hmore hmeets hparse ?_
  show (body ++ [mark]).length + rest.length ≤ (body ++ first :: rest).length
  simp only [List.length_append, List.length_cons, List.length_nil]
  omega

end Script
