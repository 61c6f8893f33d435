import Script.Grammar.Rule

/-!
# What parsers do to tokens

A parser reads tokens from the front of a list and never reads a mark of the end of the input. This
module says so for the basic parsers and for the ways of combining them, in a form that carries
along what else is to be known about the result.

`Sound origin before x post` is about running the parser `x` on the tokens `before`, which were
reached from `origin`. A result satisfies `post`, a fault is at a token behind `origin` that was
reached before the fault, and a breakdown is one of depth, or else the tokens have no end.

## Main definitions

* `Reads` : what is left after reading tokens that are no marks of the end.
* `Parsing.Sound` : what a run of a parser guarantees.
-/

namespace Script

/-- The tokens that are left after reading some, none of which marks the end of the input. -/
inductive Reads : List Token → List Token → Prop
  | refl (tokens : List Token) : Reads tokens tokens
  | step {token : Token} {rest after : List Token} (hkind : token.kind ≠ .endOfInput)
      (h : Reads rest after) : Reads (token :: rest) after

/-- The tokens have a mark of the end of the input. -/
def Ended (tokens : List Token) : Prop :=
  ∃ token ∈ tokens, token.kind = .endOfInput

namespace Reads

variable {before mid after : List Token}

theorem trans (h : Reads before mid) (h' : Reads mid after) : Reads before after := by
  induction h with
  | refl => exact h'
  | step hkind _ ih => exact .step hkind (ih h')

theorem length_le (h : Reads before after) : after.length ≤ before.length := by
  induction h with
  | refl => exact Nat.le_refl _
  | step _ _ ih => exact Nat.le_succ_of_le ih

/-- Reading does not touch the end of the input. -/
theorem ended_iff (h : Reads before after) : Ended before ↔ Ended after := by
  induction h with
  | refl => exact Iff.rfl
  | step hkind _ ih =>
    rw [← ih]
    simp [Ended, hkind]

end Reads

/-- A fault at a token that lies behind `origin` and not behind `after`. -/
def ParseFault.Between (f : ParseFault) (origin after : List Token) : Prop :=
  ∃ rest, Reads origin (f.token :: rest) ∧ Reads (f.token :: rest) after

namespace Parsing

variable {α β : Type} {origin before : List Token}

/-- What a run of a parser guarantees. -/
def Sound (origin before : List Token) (x : Parsing α) (post : α → List Token → Prop) : Prop :=
  Reads origin before →
    match x before with
    | .ok a after => Reads before after ∧ post a after
    | .error (.fault f) after => f.Between origin after
    | .error (.breakdown b) _ => b = .tooDeep ∨ b = .tokensExhausted ∧ ¬Ended before

namespace Sound

/-- A run that was reached from one place was also reached from any place before it. -/
theorem reached {x : Parsing α} {post : α → List Token → Prop}
    (h : Sound before before x post) : Sound origin before x post := by
  intro horigin
  replace h := h (.refl _)
  split at h
  · exact h
  · obtain ⟨rest, hto, hfrom⟩ := h
    exact ⟨rest, horigin.trans hto, hfrom⟩
  · exact h

theorem mono {x : Parsing α} {post post' : α → List Token → Prop}
    (h : Sound origin before x post) (hpost : ∀ a after, post a after → post' a after) :
    Sound origin before x post' := by
  intro horigin
  replace h := h horigin
  split at h
  · exact ⟨h.1, hpost _ _ h.2⟩
  · exact h
  · exact h

theorem pure {a : α} {post : α → List Token → Prop} (h : post a before) :
    Sound origin before (pure a) post :=
  fun _ => ⟨.refl _, h⟩

theorem bind {x : Parsing α} {f : α → Parsing β} {post : α → List Token → Prop}
    {post' : β → List Token → Prop} (hx : Sound origin before x post)
    (hf : ∀ a mid, Reads before mid → post a mid → Sound origin mid (f a) post') :
    Sound origin before (x >>= f) post' := by
  intro horigin
  replace hx := hx horigin
  simp only [Bind.bind, EStateM.bind]
  cases hrun : x before with
  | ok a mid =>
    rw [hrun] at hx
    have hnext := hf a mid hx.1 hx.2 (horigin.trans hx.1)
    dsimp only
    cases hrun' : f a mid with
    | ok b after =>
      rw [hrun'] at hnext
      exact ⟨hx.1.trans hnext.1, hnext.2⟩
    | error halt after =>
      rw [hrun'] at hnext
      cases halt with
      | fault f => exact hnext
      | breakdown b => exact hnext.imp_right fun h => ⟨h.1, mt hx.1.ended_iff.mp h.2⟩
  | error halt mid =>
    rw [hrun] at hx
    cases halt <;> exact hx

/-! ### Basic parsers

Each is followed by what is done with its result, so that a proof reads like the parser. -/

variable {post : β → List Token → Prop}

/-- A parser that is known to give a result. -/
theorem bind_of_run {x : Parsing α} {f : α → Parsing β} {a : α} {mid : List Token}
    (hrun : x before = .ok a mid) (hreads : Reads before mid)
    (h : Sound origin mid (f a) post) : Sound origin before (x >>= f) post := by
  have hx : Sound origin before x fun a' mid' => a' = a ∧ mid' = mid := by
    intro _
    rw [hrun]
    exact ⟨hreads, rfl, rfl⟩
  refine hx.bind ?_
  rintro _ _ _ ⟨rfl, rfl⟩
  exact h

/-- A complaint about a token that was reached. -/
theorem complain {complaint : Complaint} {token : Token} {rest : List Token}
    (hto : Reads origin (token :: rest)) (hfrom : Reads (token :: rest) before) :
    Sound origin before (Parsing.complain complaint token) post :=
  fun _ => ⟨rest, hto, hfrom⟩

/-- A complaint about the next token. -/
theorem bind_peek_complain {complaint : Complaint} {f : α → Parsing β} :
    Sound origin before (do let token ← peek; Parsing.complain complaint token >>= f) post := by
  intro horigin
  cases before with
  | nil => exact .inr ⟨rfl, by simp [Ended]⟩
  | cons token rest => exact ⟨rest, horigin, .refl _⟩

theorem bind_peek {f : Token → Parsing β}
    (h : ∀ token rest, before = token :: rest → Sound origin before (f token) post) :
    Sound origin before (peek >>= f) post := by
  cases before with
  | nil => exact fun _ => .inr ⟨rfl, by simp [Ended]⟩
  | cons token rest => exact bind_of_run rfl (.refl _) (h token rest rfl)

theorem bind_accept? {kinds : List Kind} {f : Option Token → Parsing β}
    (hsome : ∀ token rest, before = token :: rest → token.kind ∈ kinds →
      Sound origin rest (f (some token)) post)
    (hnone : ∀ token rest, before = token :: rest →
      ¬(token.kind ≠ .endOfInput ∧ token.kind ∈ kinds) → Sound origin before (f none) post) :
    Sound origin before (accept? kinds >>= f) post := by
  cases before with
  | nil => exact fun _ => .inr ⟨rfl, by simp [Ended]⟩
  | cons token rest =>
    by_cases h : token.kind ≠ .endOfInput ∧ token.kind ∈ kinds
    · exact bind_of_run (if_pos h) (.step h.1 (.refl _)) (hsome token rest rfl h.2)
    · exact bind_of_run (if_neg h) (.refl _) (hnone token rest rfl h)

theorem bind_accept {kind : Kind} {f : Bool → Parsing β}
    (htrue : ∀ token rest, before = token :: rest → token.kind = kind →
      Sound origin rest (f true) post)
    (hfalse : ∀ token rest, before = token :: rest →
      ¬(token.kind ≠ .endOfInput ∧ token.kind = kind) → Sound origin before (f false) post) :
    Sound origin before (accept kind >>= f) post := by
  simp only [accept, bind_assoc, pure_bind]
  refine bind_accept? (fun token rest hbefore hkind => ?_) (fun token rest hbefore hkind => ?_)
  · exact htrue token rest hbefore (List.mem_singleton.mp hkind)
  · exact hfalse token rest hbefore fun h => hkind ⟨h.1, List.mem_singleton.mpr h.2⟩

theorem bind_expect {kind : Kind} {complaint : Complaint} {f : Token → Parsing β}
    (h : ∀ token rest, before = token :: rest → token.kind = kind →
      Sound origin rest (f token) post) :
    Sound origin before (expect kind complaint >>= f) post := by
  simp only [expect, bind_assoc]
  refine bind_accept? (fun token rest hbefore hkind => ?_) (fun token rest hbefore _ => ?_)
  · simp only [pure_bind]
    exact h token rest hbefore (List.mem_singleton.mp hkind)
  · simp only [bind_assoc]
    exact bind_peek_complain

theorem bind_check {kind : Kind} {f : Bool → Parsing β}
    (htrue : Sound origin before (f true) post) (hfalse : Sound origin before (f false) post) :
    Sound origin before (check kind >>= f) post := by
  simp only [check, bind_assoc, pure_bind]
  refine bind_peek fun token rest hbefore => ?_
  cases decide (token.kind ≠ .endOfInput ∧ token.kind = kind)
  · exact hfalse
  · exact htrue

theorem bind_atEnd {f : Bool → Parsing β}
    (htrue : ∀ token rest, before = token :: rest → token.kind = .endOfInput →
      Sound origin before (f true) post)
    (hfalse : Sound origin before (f false) post) :
    Sound origin before (atEnd >>= f) post := by
  simp only [atEnd, bind_assoc, pure_bind]
  refine bind_peek fun token rest hbefore => ?_
  by_cases h : token.kind = .endOfInput
  · rw [decide_eq_true h]
    exact htrue token rest hbefore h
  · rw [decide_eq_false h]
    exact hfalse

/-! ### Repetition -/

private theorem iterateFor {step : α → Parsing (α ⊕ β)} (inv : α → List Token → Prop)
    (hstep : ∀ a mid, inv a mid → Sound origin mid (step a) fun next after =>
      next.elim (fun a => after.length < mid.length ∧ inv a after) (post · after))
    (bound : List Token) (a : α) (hbound : before.length ≤ bound.length) (hinv : inv a before) :
    Sound origin before (Parsing.iterateFor step bound a) post := by
  induction bound generalizing a before with
  | nil =>
    rw [List.length_nil, Nat.le_zero, List.length_eq_zero_iff] at hbound
    subst hbound
    exact fun _ => .inr ⟨rfl, by simp [Ended]⟩
  | cons _ bound ih =>
    refine (hstep a before hinv).bind ?_
    rintro (a | b) mid hreads hnext
    · refine ih a ?_ hnext.2
      have hlength := hnext.1
      rw [List.length_cons] at hbound
      omega
    · exact .pure hnext

/-- A repeated step keeps an invariant until it gives a result. Each step that asks for another one
reads a token, so the tokens that bound the repetition suffice. -/
theorem iterate {step : α → Parsing (α ⊕ β)} (inv : α → List Token → Prop)
    (hstep : ∀ a mid, inv a mid → Sound origin mid (step a) fun next after =>
      next.elim (fun a => after.length < mid.length ∧ inv a after) (post · after))
    {a : α} (hinv : inv a before) : Sound origin before (Parsing.iterate step a) post :=
  bind_of_run rfl (.refl _) (iterateFor inv hstep before a (Nat.le_refl _) hinv)

end Sound

end Parsing

end Script
