import Script.Proofs.Evaluation.Padding
import Script.Proofs.Grammar.Soundness

/-!
# Counting loops

A counting loop has no node of its own: its tree is put together from blocks and a plain loop. Here
it is given a meaning of its own, clause by clause, and the tree is shown to have that meaning.

The tree runs the body and the increment of every round in a block, whose scope the meaning does not
have. Nothing is ever bound in that scope, because the body is a statement and declares nothing
outside of its own blocks. So the two runs differ by a padding, and functions that the body has
declared differ in the scopes around them only.

## Main definitions

* `Evaluator.counting` : the meaning of a counting loop.
* `ReadsCounting` : the clauses of a counting loop and its body.
* `Run.Matches` : two actions that cannot be told apart but for scopes that bind nothing.

## Main results

* `execute_countingLoop` : the tree of a counting loop has its meaning.
-/

namespace Script

/-! ### The meaning of a counting loop -/

namespace Evaluator

/-- The rounds of a counting loop. As long as the condition holds, the body is run and then the
increment; a body that returns ends the loop without the increment. -/
def repeatCounting (condition : Run Bool) (body : Run (Option Returning)) (increment : Run Unit) :
    Nat → Run (Option Returning)
  | 0 => throw .unfinished
  | fuel + 1 => do
    if ← condition then
      match ← body with
      | some returning => return some returning
      | none =>
        increment
        repeatCounting condition body increment fuel
    else
      return none

variable (sub : Evaluator)

/-- Whether the condition of a counting loop holds. A missing condition always does. -/
def holds : Option Node → Run Bool
  | some condition => Value.isTruthy <$> sub.evaluate condition
  | none => return true

/-- Evaluates the increment of a counting loop, if there is one. -/
def advance : Option Node → Run Unit
  | some increment => do
    let _ ← sub.evaluate increment
  | none => return

/-- Runs a counting loop. The initial statement is run once, in a scope of its own, in which all
rounds take place. -/
def counting (fuel : Nat) (initial condition increment : Option Node) (body : Node) :
    Run (Option Returning) := do
  let rounds :=
    repeatCounting (sub.holds condition) (sub.execute body) (sub.advance increment) fuel
  match initial with
  | none => rounds
  | some initial =>
    let scope ← Run.makeScope (← get).scope
    Run.within scope do
      match ← sub.execute initial with
      | some returning => return some returning
      | none => rounds

/-- One round of a counting loop behind its condition. -/
def round (body : Run (Option Returning)) (increment : Run Unit) : Run (Option Returning) := do
  match ← body with
  | some returning => return some returning
  | none =>
    increment
    return none

theorem repeatCounting_eq_repeatWhile (condition : Run Bool) (body : Run (Option Returning))
    (increment : Run Unit) (fuel : Nat) :
    repeatCounting condition body increment fuel =
      repeatWhile condition (round body increment) fuel := by
  induction fuel with
  | zero => rfl
  | succ fuel ih =>
    rw [repeatCounting, repeatWhile, ih]
    refine bind_congr fun holds => ?_
    cases holds with
    | false => rfl
    | true =>
      simp only [if_true, round, bind_assoc]
      refine bind_congr fun returning => ?_
      cases returning with
      | none => simp only [bind_assoc, pure_bind]
      | some returning => simp only [pure_bind]

/-- A round without an increment is the body. -/
theorem round_pure (body : Run (Option Returning)) : round body (pure ()) = body := by
  funext m
  simp only [round, Bind.bind, EStateM.bind]
  cases body m with
  | error halt m₁ => rfl
  | ok returning m₁ => cases returning <;> rfl

theorem executeAll_singleton (statement : Node) : sub.executeAll [statement] =
    sub.execute statement := by
  funext m
  simp only [executeAll, Bind.bind, EStateM.bind]
  cases sub.execute statement m with
  | error halt m₁ => rfl
  | ok returning m₁ => cases returning <;> rfl

end Evaluator

/-! ### The tree of a counting loop -/

namespace Padding

open Evaluator

variable {α β : Type} {p : Padding} {id place : ScopeId} {x : Run α}

/-- A lenient agreement with a run of a statement needs to be shown below the limit only. -/
theorem Agree.execute {fuel depth : Nat} {node : Node}
    {results : Padding → α → Option Returning → Prop}
    (h : ∀ depth, Agree True p id place x ((bounded fuel depth).statement fuel node) results) :
    Agree True p id place x ((bounded fuel depth).execute node) results := by
  cases depth with
  | zero => exact fun _ _ _ n _ => .inl ⟨trivial, .inr ⟨n, rfl⟩⟩
  | succ depth => exact h depth

/-- The padded machine may do in a block what the other machine does where it is. -/
theorem Agree.block {fuel depth : Nat} {statements : List Node}
    {results : Padding → α → Option Returning → Prop}
    (h : ∀ depth q, p <+: q → ∀ inside, q[inside]? = some id →
      Agree True q id inside x ((bounded fuel depth).executeAll statements) results) :
    Agree True p id place x ((bounded fuel depth).execute (.block statements)) results := by
  refine .execute fun depth q hpq m n hmn => ?_
  have hblock : (bounded fuel depth).statement fuel (.block statements) n =
      (Run.makeScope place >>= fun scope =>
        Run.within scope ((bounded fuel depth).executeAll statements)) n := by
    rw [← hmn.place_eq]
    rfl
  rw [hblock]
  exact Agree.pad (h depth) q hpq m n hmn

variable {fuel : Nat} {sub : Evaluator} (hsub : ∀ depth, Agrees True sub (bounded fuel depth))
include hsub

theorem agree_holds (condition : Option Node) (depth : Nat) :
    Agree True p id place (sub.holds condition)
      (Value.isTruthy <$> (bounded fuel depth).evaluate (condition.getD (.literal (.bool true))))
      fun _ => Eq := by
  have hevaluate := fun node => (hsub depth).evaluate node p id place
  cases condition with
  | some condition => exact (hevaluate condition).map fun _ _ _ hv _ _ => hv.isTruthy_eq.symm
  | none =>
    cases depth with
    | zero => exact fun _ _ _ n _ => .inl ⟨trivial, .inr ⟨n, rfl⟩⟩
    | succ depth => exact .pure fun _ _ => rfl

/-- A body that declares nothing may be run in a block with its increment. -/
theorem agree_round {body : Node} (hbody : body.declared = []) (increment : Node) (depth : Nat) :
    Agree True p id place (round (sub.execute body) (sub.advance (some increment)))
      ((bounded fuel depth).execute (.block [body, .discard increment])) Returns := by
  refine .block fun depth q _ inside _ => ?_
  refine ((hsub depth).execute body q id inside (.inr hbody)).bind fun r hqr a b hab => ?_
  cases hab with
  | some keyword hvalue => exact agree_returns (.some keyword hvalue)
  | none =>
    have hadvance : Agree True r id inside (sub.advance (some increment))
        ((bounded fuel depth).execute (.discard increment)) fun _ _ b => b = none := by
      refine .execute fun depth => ?_
      exact ((hsub depth).evaluate increment r id inside).bind fun _ _ _ _ _ =>
        .pure fun _ _ => rfl
    rw [executeAll_singleton, ← bind_pure ((bounded fuel depth).execute (.discard increment))]
    refine hadvance.bind fun _ _ _ b hb => ?_
    rw [hb]
    exact agree_returns .none

theorem agree_rounds (condition increment : Option Node) {body : Node} (hbody : body.declared = [])
    (depth : Nat) :
    Agree True p id place
      (repeatCounting (sub.holds condition) (sub.execute body) (sub.advance increment) fuel)
      ((bounded fuel depth).execute (.counting none condition increment body)) Returns := by
  rw [repeatCounting_eq_repeatWhile]
  cases increment with
  | none =>
    rw [advance, round_pure]
    refine .execute fun depth => agree_repeatWhile (agree_holds hsub condition depth) ?_ fuel
    exact (hsub depth).execute body p id place (.inr hbody)
  | some increment =>
    refine .execute fun depth => agree_repeatWhile (agree_holds hsub condition depth) ?_ fuel
    exact agree_round hsub hbody increment depth

theorem agree_counting (initial condition increment : Option Node) {body : Node}
    (hbody : body.declared = []) (depth : Nat) :
    Agree True p id place (sub.counting fuel initial condition increment body)
      ((bounded fuel depth).execute (.counting initial condition increment body)) Returns := by
  cases initial with
  | none => exact agree_rounds hsub condition increment hbody depth
  | some initial =>
    have htree : Node.counting (some initial) condition increment body =
        .block [initial, .counting none condition increment body] := by
      cases increment <;> rfl
    rw [htree]
    refine .execute fun depth => Agree.get.bind fun q hpq m n hmn => ?_
    refine (agree_makeScope hmn.stands_scope).bind fun r hqr scope scope' hscope => ?_
    refine .within hscope.1 ?_
    show Agree True r scope scope' _ ((bounded fuel depth).executeAll
      [initial, .counting none condition increment body]) Returns
    refine ((hsub depth).execute initial r scope scope' (.inl hscope)).bind fun t hrt a b hab => ?_
    cases hab with
    | some keyword hvalue => exact agree_returns (.some keyword hvalue)
    | none =>
      rw [executeAll_singleton]
      exact agree_rounds hsub condition increment hbody depth

end Padding

/-! ### The clauses of a counting loop -/

/-- A statement of the grammar declares nothing in the scope in which it is run. -/
theorem Derives.declared_eq_nil {keyword : Option Kind} {isOpen : Bool} {node : Node}
    {before after : List Token} (h : Derives keyword (.statement isOpen node) before after) :
    node.declared = [] := by
  generalize hphrase : Phrase.statement isOpen node = phrase at h
  induction h generalizing isOpen node with
  | returnStatement | blockStatement =>
    cases hphrase
    rfl
  | @forStatement _ _ _ _ _ initial _ increment body _ _ _ _ _ _ _ _ _ _ _ _ _ _ _ _ ih =>
    cases hphrase
    cases initial with
    | some initial => cases increment <;> rfl
    | none =>
      cases increment with
      | some increment => rfl
      | none =>
        rw [Node.counting, Node.declared]
        exact ih rfl
  | whileStatement _ _ _ _ _ _ ih | ifStatement _ _ _ _ _ _ ih =>
    cases hphrase
    rw [Node.declared]
    exact ih rfl
  | ifElseStatement _ _ _ _ _ _ _ _ ihthen ihelse =>
    cases hphrase
    rw [Node.declared, ihthen rfl, ihelse rfl]
    rfl
  | discardStatement hdiscard =>
    cases hphrase
    cases hdiscard <;> rfl
  | _ => cases hphrase

/-- The tokens of a counting loop behind its keyword: three clauses in parentheses, and a body. -/
inductive ReadsCounting (initial condition increment : Option Node) (body : Node) :
    List Token → List Token → Prop
  | intro {isOpen : Bool} {opening semicolon closing : Token}
      {rest clauses tail inner after : List Token} (hopening : opening.kind = .leftParen)
      (hinitial : Writes (.initial initial) rest clauses)
      (hcondition : Writes (.optional condition) clauses (semicolon :: tail))
      (hsemicolon : semicolon.kind = .semicolon)
      (hincrement : Writes (.optional increment) tail (closing :: inner))
      (hclosing : closing.kind = .rightParen)
      (hbody : Writes (.statement isOpen body) inner after) :
      ReadsCounting initial condition increment body (opening :: rest) after

/-- What is read of a statement that starts with the keyword of counting loops. -/
theorem readsCounting_of_parseWithin {depth : Nat} {word : Token} {tokens rest : List Token}
    {node : Node} (hword : word.kind = .forWord)
    (hparse : Rule.parseWithin depth .statement (word :: tokens) = .ok node rest) :
    ∃ initial condition increment body,
      ReadsCounting initial condition increment body tokens rest ∧
        node = Rule.countingLoop initial condition increment body := by
  have hsound := Rule.sound_parseWithin depth .statement (word :: tokens) (.refl _)
  rw [hparse] at hsound
  obtain ⟨-, isOpen, hderives, -⟩ := hsound
  cases hderives with
  | forStatement _ hopening hinitial hcondition hsemicolon hincrement hclosing hbody =>
    exact ⟨_, _, _, _,
      .intro hopening hinitial hcondition hsemicolon hincrement hclosing hbody,
      (Rule.countingLoop_eq_counting ..).symm⟩
  | blockStatement hblock =>
    exact absurd (startsWith_cons.mp hblock.starts) (by rw [hword]; decide)
  | discardStatement hdiscard =>
    exact absurd (startsWith_cons.mp hdiscard.starts) (by rw [hword]; decide)
  | returnStatement hother | whileStatement hother | ifStatement hother | ifElseStatement hother =>
    rw [hword] at hother
    cases hother

/-! ### Counting loops and their trees -/

/-- Two machines that a run has left, of which the second may have more scopes that bind nothing.
Both have printed the same, and the scopes that were there before the run have kept their places and
bind the same names to the same values. -/
structure Machine.Resembles (before : Machine) (p : Padding) (m n : Machine) : Prop where
  output_eq : n.output = m.output
  bindings : ∀ id < before.store.size, (m.store.bindings id).Pads p (n.store.bindings id)
  padsAt : m.PadsAt p before.scope before.scope n

/-- Run on one machine, two actions return, halt or run out of repetitions in the same way, and
leave machines that resemble each other. Runs that are too deep are left out. -/
def Run.Matches (x y : Run (Option Returning)) (m : Machine) : Prop :=
  IsTooDeep (x m) ∨ IsTooDeep (y m) ∨
    ∃ p, EndAlike (m.Resembles p) Eq (Padding.Returns p) (x m) (y m)

theorem Machine.PadsAt.resembles {before m n : Machine} {p : Padding}
    (h : m.PadsAt p before.scope before.scope n) (hp : List.range before.store.size <+: p) :
    before.Resembles p m n where
  output_eq := h.output_eq
  bindings := fun _ hid => h.store.bindings ((Padding.isPlace_range hid).mono hp)
  padsAt := h

theorem Padding.Agree.matches {x y : Run (Option Returning)} {m : Machine} (hm : m.IsWellScoped)
    (h : Agree True (List.range m.store.size) m.scope m.scope x y Returns) : Run.Matches x y m := by
  obtain ⟨-, hdeep⟩ | ⟨p, hp, hend⟩ := h _ (List.prefix_refl _) m m hm.padsAt
  · exact hdeep.elim .inl fun hdeep => .inr (.inl hdeep)
  · refine .inr (.inr ⟨p, ?_⟩)
    generalize x m = end₁ at hend
    generalize y m = end₂ at hend
    cases hend with
    | ok hstates hresults => exact .ok (hstates.resembles hp) hresults
    | error hstates hhalts => exact .error (hstates.resembles hp) hhalts

/-- Take any counting loop that the parser accepts, with or without each of its clauses. On every
well-scoped machine, running its tree and running it clause by clause come to the same. -/
theorem execute_countingLoop {depth : Nat} {word : Token} {tokens rest : List Token} {node : Node}
    (hword : word.kind = .forWord)
    (hparse : Rule.parseWithin depth .statement (word :: tokens) = .ok node rest) :
    ∃ initial condition increment body,
      ReadsCounting initial condition increment body tokens rest ∧
        node = Rule.countingLoop initial condition increment body ∧
        ∀ (fuel limit limit' : Nat) (m : Machine), m.IsWellScoped →
          Run.Matches
            ((Evaluator.bounded fuel limit).counting fuel initial condition increment body)
            ((Evaluator.bounded fuel limit').execute node) m := by
  obtain ⟨initial, condition, increment, body, hreads, hnode⟩ :=
    readsCounting_of_parseWithin hword hparse
  refine ⟨initial, condition, increment, body, hreads, hnode, fun fuel limit limit' m hm => ?_⟩
  obtain ⟨-, -, -, -, -, -, hbody⟩ := hreads
  rw [hnode, Rule.countingLoop_eq_counting]
  refine Padding.Agree.matches hm (Padding.agree_counting (fun limit' => ?_) initial condition
    increment hbody.declared_eq_nil limit')
  exact Padding.agrees_bounded fuel (.inl trivial)

/-- The tokens of `for (var i = 0; i < 2; i++) i;`. -/
def steppingLoopTokens : List Token :=
  [⟨.forWord, "for", .null, 1, 3, 3⟩, ⟨.leftParen, "(", .null, 1, 5, 1⟩,
    ⟨.varWord, "var", .null, 1, 8, 3⟩, ⟨.identifier, "i", .null, 1, 10, 1⟩,
    ⟨.equal, "=", .null, 1, 12, 1⟩, ⟨.number, "0", .number (Number.ofDecimal 0 0), 1, 14, 1⟩,
    ⟨.semicolon, ";", .null, 1, 15, 1⟩, ⟨.identifier, "i", .null, 1, 17, 1⟩,
    ⟨.less, "<", .null, 1, 19, 1⟩, ⟨.number, "2", .number (Number.ofDecimal 2 0), 1, 21, 1⟩,
    ⟨.semicolon, ";", .null, 1, 22, 1⟩, ⟨.identifier, "i", .null, 1, 24, 1⟩,
    ⟨.plusPlus, "++", .null, 1, 26, 2⟩, ⟨.rightParen, ")", .null, 1, 27, 1⟩,
    ⟨.identifier, "i", .null, 1, 29, 1⟩, ⟨.semicolon, ";", .null, 1, 30, 1⟩,
    ⟨.endOfInput, "", .null, 1, 30, 0⟩]

/-- A loop with all three clauses, run on a machine at the start. -/
theorem execute_countingLoop_stepping :
    ∃ node rest, Rule.parseWithin nestingLimit .statement steppingLoopTokens = .ok node rest ∧
      ∃ initial condition increment body,
        ReadsCounting initial condition increment body steppingLoopTokens.tail rest ∧
          node = Rule.countingLoop initial condition increment body ∧
          ∀ fuel limit limit', Run.Matches
            ((Evaluator.bounded fuel limit).counting fuel initial condition increment body)
            ((Evaluator.bounded fuel limit').execute node) (.start Interpreter.printId) := by
  have hparse : ∃ node rest, Rule.parseWithin nestingLimit .statement steppingLoopTokens =
      .ok node rest := ⟨_, _, rfl⟩
  obtain ⟨node, rest, hrun⟩ := hparse
  obtain ⟨initial, condition, increment, body, hreads, hnode, hmatches⟩ :=
    execute_countingLoop rfl hrun
  exact ⟨node, rest, hrun, initial, condition, increment, body, hreads, hnode,
    fun fuel limit limit' => hmatches fuel limit limit' _ (Machine.isWellScoped_start _)⟩

end Script
