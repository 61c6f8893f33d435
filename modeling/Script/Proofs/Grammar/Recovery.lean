import Script.Diagnostic
import Script.Proofs.Grammar.Programs

/-!
# Recovering from faults

A program that is rejected is read to its end all the same. After each fault the parser skips to the
probable start of another statement, so the faults that it reports belong to different stretches of
the tokens and come in the order of the text.

A fault is reported at a token that was reached before the parser gave up, which may have been much
earlier. What orders the tokens of the faults is that none of them lies before the start of its
declaration, and that the next declaration starts behind the place where the parser gave up.

## Main definitions

* `Recovery` : a fault, with the places that belong to it.
* `Sweeps` : how a list of tokens is read to its end, with the recoveries on the way.

## Main results

* `rejected_recoveries` : the recoveries of tokens that are rejected.
-/

namespace Script

variable {depth : Nat} {tokens : List Token}

/-! ### Places -/

/-- The kind of the token at a place. -/
def kindAt? (tokens : List Token) (place : Nat) : Option Kind :=
  tokens[place]?.map Token.kind

/-- A place where a statement may start: at the end of the input, behind a semicolon, or before a
token that starts a statement. -/
def IsBoundary (tokens : List Token) (place : Nat) : Prop :=
  kindAt? tokens place = some .endOfInput ∨
    (∃ before, place = before + 1 ∧ kindAt? tokens before = some .semicolon) ∨
    ∃ kind, kindAt? tokens place = some kind ∧ kind.startsStatement

section

variable {place : Nat} {token : Token} {rest : List Token}

theorem getElem?_of_drop_eq_cons (h : tokens.drop place = token :: rest) :
    tokens[place]? = some token := by
  rw [← List.head?_drop, h, List.head?_cons]

theorem kindAt?_of_drop_eq_cons (h : tokens.drop place = token :: rest) :
    kindAt? tokens place = some token.kind := by
  rw [kindAt?, getElem?_of_drop_eq_cons h, Option.map_some]

theorem drop_succ_of_drop_eq_cons (h : tokens.drop place = token :: rest) :
    tokens.drop (place + 1) = rest := by
  rw [← List.tail_drop, h, List.tail_cons]

end

/-- What is left after reading starts at a later place. -/
theorem Reads.exists_drop {place : Nat} {left : List Token} (h : Reads (tokens.drop place) left) :
    ∃ next, place ≤ next ∧ left = tokens.drop next := by
  generalize hstart : tokens.drop place = start at h
  induction h generalizing place with
  | refl => exact ⟨place, Nat.le_refl _, hstart.symm⟩
  | step _ _ ih =>
    obtain ⟨next, hnext, hleft⟩ := ih (drop_succ_of_drop_eq_cons hstart)
    exact ⟨next, Nat.le_of_succ_le hnext, hleft⟩

/-- Skipping leads to a place where a statement may start. -/
theorem exists_boundary_of_skipFrom {previous : Kind} {before : Nat} {left : List Token}
    (hbefore : kindAt? tokens before = some previous)
    (h : skipFrom previous (tokens.drop (before + 1)) = some left) :
    ∃ next, before < next ∧ left = tokens.drop next ∧ IsBoundary tokens next := by
  generalize hstart : tokens.drop (before + 1) = start at h
  induction start generalizing previous before with
  | nil => cases h
  | cons token rest ih =>
    have hkind := kindAt?_of_drop_eq_cons hstart
    rw [skipFrom] at h
    split at h
    · next hstop =>
      cases h
      refine ⟨before + 1, Nat.lt_succ_self _, hstart.symm, ?_⟩
      obtain hend | hsemicolon | hstarts := hstop
      · exact .inl (hkind.trans (congrArg some hend))
      · exact .inr (.inl ⟨before, rfl, hbefore.trans (congrArg some hsemicolon)⟩)
      · exact .inr (.inr ⟨token.kind, hkind, hstarts⟩)
    · obtain ⟨next, hnext, hleft⟩ := ih hkind (drop_succ_of_drop_eq_cons hstart) h
      exact ⟨next, Nat.lt_of_succ_lt hnext, hleft⟩

/-- Recovering stays at the end of the input, or leads to a later place where a statement may
start. -/
theorem exists_boundary_of_resynchronize {raised : Nat} {left : List Token}
    (h : resynchronize (tokens.drop raised) = some left) :
    ∃ resumed, left = tokens.drop resumed ∧ IsBoundary tokens resumed ∧
      (resumed = raised ∧ kindAt? tokens raised = some .endOfInput ∨ raised < resumed) := by
  cases hstart : tokens.drop raised with
  | nil =>
    rw [hstart] at h
    cases h
  | cons token rest =>
    have hkind := kindAt?_of_drop_eq_cons hstart
    rw [hstart, resynchronize] at h
    split at h
    · next hend =>
      cases h
      rw [hend] at hkind
      exact ⟨raised, hstart.symm, .inl hkind, .inl ⟨rfl, hkind⟩⟩
    · rw [← drop_succ_of_drop_eq_cons hstart] at h
      obtain ⟨next, hnext, hleft, hboundary⟩ := exists_boundary_of_skipFrom hkind h
      exact ⟨next, hleft, hboundary, .inr hnext⟩

/-! ### Recoveries -/

/-- A declaration with a fault: where it starts, where the token of the fault is, where the parser
was when it gave up, and where it went on. -/
structure Recovery (depth : Nat) (tokens : List Token) where
  fault : ParseFault
  start : Nat
  position : Nat
  raised : Nat
  resumed : Nat
  run : Rule.parseWithin depth .declaration (tokens.drop start) =
    .error (.fault fault) (tokens.drop raised)
  skip : resynchronize (tokens.drop raised) = some (tokens.drop resumed)
  token_eq : tokens[position]? = some fault.token
  start_le_position : start ≤ position
  position_le_raised : position ≤ raised
  resumed_isBoundary : IsBoundary tokens resumed
  ahead : resumed = raised ∧ kindAt? tokens raised = some .endOfInput ∨ raised < resumed

theorem Recovery.raised_le_resumed (r : Recovery depth tokens) : r.raised ≤ r.resumed := by
  obtain ⟨heq, -⟩ | hahead := r.ahead
  · exact Nat.le_of_eq heq.symm
  · exact Nat.le_of_lt hahead

/-- Every fault of a declaration from which the parser can recover comes with a recovery. -/
theorem exists_recovery {start : Nat} {fault : ParseFault} {left next : List Token}
    (hrun : Rule.parseWithin depth .declaration (tokens.drop start) = .error (.fault fault) left)
    (hskip : resynchronize left = some next) :
    ∃ r : Recovery depth tokens, r.fault = fault ∧ r.start = start ∧
      next = tokens.drop r.resumed := by
  have hsound := Rule.sound_parseWithin depth .declaration (tokens.drop start) (.refl _)
  rw [hrun] at hsound
  obtain ⟨rest, hto, hfrom⟩ := hsound
  obtain ⟨position, hposition, htoken⟩ := hto.exists_drop
  rw [htoken] at hfrom
  obtain ⟨raised, hraised, rfl⟩ := hfrom.exists_drop
  obtain ⟨resumed, rfl, hboundary, hahead⟩ := exists_boundary_of_resynchronize hskip
  exact ⟨⟨fault, start, position, raised, resumed, hrun, hskip,
    getElem?_of_drop_eq_cons htoken.symm, hposition, hraised, hboundary, hahead⟩, rfl, rfl, rfl⟩

/-- Reading from a place to the end of the input, with these recoveries on the way. -/
inductive Sweeps (depth : Nat) (tokens : List Token) : Nat → List (Recovery depth tokens) → Prop
  | ended {place : Nat} (hend : kindAt? tokens place = some .endOfInput) :
      Sweeps depth tokens place []
  | declaration {place next : Nat} {node : Node} {recoveries : List (Recovery depth tokens)}
      (hopen : kindAt? tokens place ≠ some .endOfInput) (hnext : place ≤ next)
      (hrun : Rule.parseWithin depth .declaration (tokens.drop place) = .ok node (tokens.drop next))
      (hrest : Sweeps depth tokens next recoveries) : Sweeps depth tokens place recoveries
  | recovery {recoveries : List (Recovery depth tokens)} (r : Recovery depth tokens)
      (hopen : kindAt? tokens r.start ≠ some .endOfInput)
      (hrest : Sweeps depth tokens r.resumed recoveries) :
      Sweeps depth tokens r.start (r :: recoveries)

/-- Declarations that are read to the end are a sweep with the faults that were found. -/
theorem sweeps_of_parseDeclarations {bound : List Token} {place : Nat} {nodes : List Node}
    {faults : List ParseFault}
    (h : parseDeclarations depth bound (tokens.drop place) = .ok (nodes, faults)) :
    ∃ recoveries, Sweeps depth tokens place recoveries ∧
      recoveries.map Recovery.fault = faults := by
  induction bound generalizing place nodes faults with
  | nil => cases h
  | cons _ bound ih =>
    cases hstart : tokens.drop place with
    | nil =>
      rw [hstart] at h
      cases h
    | cons token rest =>
      have hkind := kindAt?_of_drop_eq_cons hstart
      rw [hstart, parseDeclarations] at h
      split at h
      · next hend =>
        cases h
        exact ⟨[], .ended (hkind.trans (congrArg some hend)), rfl⟩
      · next hgo =>
        have hopen : kindAt? tokens place ≠ some .endOfInput := by
          rw [hkind]
          exact fun heq => hgo (Option.some.inj heq)
        rw [← hstart] at h
        split at h
        · next node left hrun =>
          have hsound := Rule.sound_parseWithin depth .declaration (tokens.drop place) (.refl _)
          rw [hrun] at hsound
          obtain ⟨next, hnext, rfl⟩ := hsound.1.exists_drop
          cases hmore : parseDeclarations depth bound (tokens.drop next) with
          | error b =>
            rw [hmore] at h
            cases h
          | ok result =>
            rw [hmore] at h
            cases h
            obtain ⟨recoveries, hrest, hfaults⟩ := ih hmore
            exact ⟨recoveries, .declaration hopen hnext hrun hrest, hfaults⟩
        · next fault left hrun =>
          split at h
          · cases h
          · next next hskip =>
            obtain ⟨r, rfl, rfl, rfl⟩ := exists_recovery hrun hskip
            cases hmore : parseDeclarations depth bound (tokens.drop r.resumed) with
            | error b =>
              rw [hmore] at h
              cases h
            | ok result =>
              rw [hmore] at h
              cases h
              obtain ⟨recoveries, hrest, hfaults⟩ := ih hmore
              exact ⟨r :: recoveries, .recovery r hopen hrest, congrArg (r.fault :: ·) hfaults⟩
        · cases h

/-! ### The order of faults -/

namespace Sweeps

variable {place : Nat} {recoveries : List (Recovery depth tokens)}

theorem eq_nil_of_ended (h : Sweeps depth tokens place recoveries)
    (hend : kindAt? tokens place = some .endOfInput) : recoveries = [] := by
  cases h with
  | ended => rfl
  | declaration hopen => exact absurd hend hopen
  | recovery r hopen => exact absurd hend hopen

/-- No fault lies before the place where reading starts. -/
theorem le_position (h : Sweeps depth tokens place recoveries) :
    ∀ r ∈ recoveries, place ≤ r.position := by
  induction h with
  | ended => exact List.forall_mem_nil _
  | declaration _ hnext _ _ ih => exact fun r hr => Nat.le_trans hnext (ih r hr)
  | recovery r _ _ ih =>
    refine List.forall_mem_cons.mpr ⟨r.start_le_position, fun later hlater => ?_⟩
    calc
      r.start ≤ r.position := r.start_le_position
      _ ≤ r.raised := r.position_le_raised
      _ ≤ r.resumed := r.raised_le_resumed
      _ ≤ later.position := ih later hlater

/-- The tokens of the faults come in the order of the text, and none of them twice. -/
theorem pairwise_position (h : Sweeps depth tokens place recoveries) :
    (recoveries.map Recovery.position).Pairwise (· < ·) := by
  induction h with
  | ended => exact .nil
  | declaration _ _ _ _ ih => exact ih
  | @recovery recoveries r hopen hrest ih =>
    refine .cons ?_ ih
    obtain ⟨heq, hend⟩ | hahead := r.ahead
    · -- There is nothing behind the end of the input, so this is the last fault.
      rw [← heq] at hend
      rw [hrest.eq_nil_of_ended hend]
      exact List.forall_mem_nil _
    · rw [List.forall_mem_map]
      intro later hlater
      calc
        r.position ≤ r.raised := r.position_le_raised
        _ < r.resumed := hahead
        _ ≤ later.position := hrest.le_position later hlater

end Sweeps

/-- All faults of a program are told, in the order in which they were found. -/
theorem ParseFault.chain_problem (first : ParseFault) (others : List ParseFault) :
    (first.problem others).chain = (first :: others).map ParseFault.diagnostic := by
  rw [ParseFault.problem, Problem.chain, List.map_map]
  rfl

/-- Tokens that are rejected are swept from their start to the end of the input. The recoveries on
the way are those of the reported faults, the first of which is the one that is raised. The token of
each fault is one of the tokens, behind that of the fault before. Each recovery leads to a place
where a statement may start, which lies ahead of the place where the parser gave up unless the input
ends there. -/
theorem rejected_recoveries {first : ParseFault} {others : List ParseFault}
    (h : parse tokens = .error (.rejected first others)) :
    ∃ recoveries : List (Recovery nestingLimit tokens),
      Sweeps nestingLimit tokens 0 recoveries ∧
      recoveries.map Recovery.fault = first :: others ∧
      (first.problem others).chain = recoveries.map (·.fault.diagnostic) ∧
      (recoveries.map Recovery.position).Pairwise (· < ·) ∧
      ∀ r ∈ recoveries, tokens[r.position]? = some r.fault.token ∧ r.position ≤ r.raised ∧
        IsBoundary tokens r.resumed ∧
        (kindAt? tokens r.raised ≠ some .endOfInput → r.raised < r.resumed) := by
  rw [parse] at h
  split at h
  · cases h
  · cases h
  · next nodes first others hrun =>
    cases h
    rw [← List.drop_zero (l := tokens)] at hrun
    obtain ⟨recoveries, hsweeps, hfaults⟩ := sweeps_of_parseDeclarations hrun
    refine ⟨recoveries, hsweeps, hfaults, ?_, hsweeps.pairwise_position, fun r _ => ?_⟩
    · rw [ParseFault.chain_problem, ← hfaults, List.map_map]
      rfl
    · exact ⟨r.token_eq, r.position_le_raised, r.resumed_isBoundary,
        fun hopen => r.ahead.resolve_left fun hstay => hopen hstay.2⟩

/-- The tokens of `1 = 2; );`, which has two faults. -/
def twoFaultsTokens : List Token :=
  [⟨.number, "1", .number (Number.ofDecimal 1 0), 1, 1, 1⟩, ⟨.equal, "=", .null, 1, 3, 1⟩,
    ⟨.number, "2", .number (Number.ofDecimal 2 0), 1, 5, 1⟩, ⟨.semicolon, ";", .null, 1, 6, 1⟩,
    ⟨.rightParen, ")", .null, 1, 8, 1⟩, ⟨.semicolon, ";", .null, 1, 9, 1⟩,
    ⟨.endOfInput, "", .null, 1, 9, 0⟩]

/-- The first fault is about the assignment, though the parser gives up two tokens later. -/
theorem recoveries_twoFaultsTokens :
    ∃ first second : ParseFault,
      parse twoFaultsTokens = .error (.rejected first [second]) ∧
      first.token.text = "=" ∧ second.token.text = ")" ∧
      ∃ recoveries : List (Recovery nestingLimit twoFaultsTokens),
        Sweeps nestingLimit twoFaultsTokens 0 recoveries ∧
        recoveries.map Recovery.fault = [first, second] ∧
        (recoveries.map Recovery.position).Pairwise (· < ·) ∧
        ∀ r ∈ recoveries, IsBoundary twoFaultsTokens r.resumed := by
  have hparse : parse twoFaultsTokens = .error (.rejected
      ⟨.assignmentTarget, ⟨.equal, "=", .null, 1, 3, 1⟩⟩
      [⟨.expression, ⟨.rightParen, ")", .null, 1, 8, 1⟩⟩]) := rfl
  obtain ⟨recoveries, hsweeps, hfaults, -, hpositions, hproper⟩ := rejected_recoveries hparse
  exact ⟨_, _, hparse, rfl, rfl, recoveries, hsweeps, hfaults, hpositions,
    fun r hr => (hproper r hr).2.2.1⟩

end Script
