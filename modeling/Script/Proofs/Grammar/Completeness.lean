import Script.Proofs.Grammar.Soundness

/-!
# What has a derivation is found

A parser decides with one token in sight, so a derivation is followed only if no token behind it
could have prolonged it. Operators are ranked by how loosely they bind, and an expression of a rule
stops before a token that binds more loosely than the rule; an open statement stops before anything
but an `else`. In a program every phrase stops in this sense, because the phrase around it goes on
with a token of its own.

The parser of the grammar is bounded in depth. `Yields` says that a family of parsers gives a result
at every depth from some limit on, and that below the limit nothing but the depth is in the way.

## Main results

* `Derives.parsed` : the parser of the grammar follows every derivation that stops.
-/

namespace Script

open Parsing Rule

/-! ### Running basic parsers -/

namespace Parsing

variable {token : Token} {rest : List Token} {kind : Kind}

theorem check_cons :
    check kind (token :: rest) =
      .ok (decide (token.kind ≠ .endOfInput ∧ token.kind = kind)) (token :: rest) := rfl

theorem atEnd_cons :
    atEnd (token :: rest) = .ok (decide (token.kind = .endOfInput)) (token :: rest) := rfl

theorem accept?_cons_of_mem {kinds : List Kind} (hkind : token.kind ∈ kinds)
    (hend : .endOfInput ∉ kinds) : accept? kinds (token :: rest) = .ok (some token) rest :=
  if_pos ⟨fun h => hend (h ▸ hkind), hkind⟩

theorem accept?_cons_of_notMem {kinds : List Kind} (hkind : token.kind ∉ kinds) :
    accept? kinds (token :: rest) = .ok none (token :: rest) :=
  if_neg fun h => hkind h.2

theorem accept_cons_of_eq (hkind : token.kind = kind) (hend : kind ≠ .endOfInput) :
    accept kind (token :: rest) = .ok true rest := by
  have hrun : accept? [kind] (token :: rest) = .ok (some token) rest :=
    accept?_cons_of_mem (List.mem_singleton.mpr hkind) (by simpa using hend.symm)
  simp only [accept, Bind.bind, EStateM.bind, hrun]
  rfl

theorem accept_cons_of_ne (hkind : token.kind ≠ kind) :
    accept kind (token :: rest) = .ok false (token :: rest) := by
  have hrun : accept? [kind] (token :: rest) = .ok none (token :: rest) :=
    accept?_cons_of_notMem (by simpa using hkind)
  simp only [accept, Bind.bind, EStateM.bind, hrun]
  rfl

theorem expect_cons_of_eq {complaint : Complaint} (hkind : token.kind = kind)
    (hend : kind ≠ .endOfInput) : expect kind complaint (token :: rest) = .ok token rest := by
  have hrun : accept? [kind] (token :: rest) = .ok (some token) rest :=
    accept?_cons_of_mem (List.mem_singleton.mpr hkind) (by simpa using hend.symm)
  simp only [expect, Bind.bind, EStateM.bind, hrun]
  rfl

/-! ### Results at sufficient depth -/

variable {α β : Type} {before mid after : List Token}

/-- A family of parsers gives a result from some depth on, and below it fails for want of depth if
it fails. -/
def Yields (x : Nat → Parsing α) (before : List Token) (a : α) (after : List Token) : Prop :=
  ∃ limit, ∀ depth, x depth before = .ok a after ∨
    depth < limit ∧ ∃ rest, x depth before = .error (.breakdown .tooDeep) rest

namespace Yields

theorem of_run {x : Nat → Parsing α} {a : α} (h : ∀ depth, x depth before = .ok a after) :
    Yields x before a after :=
  ⟨0, fun depth => .inl (h depth)⟩

theorem pure {a : α} : Yields (fun _ => pure a) before a before :=
  of_run fun _ => rfl

theorem bind {x : Nat → Parsing α} {f : Nat → α → Parsing β} {a : α} {b : β}
    (hx : Yields x before a mid) (hf : Yields (fun depth => f depth a) mid b after) :
    Yields (fun depth => x depth >>= f depth) before b after := by
  obtain ⟨limit, hx⟩ := hx
  obtain ⟨limit', hf⟩ := hf
  refine ⟨max limit limit', fun depth => ?_⟩
  simp only [Bind.bind, EStateM.bind]
  obtain hrun | ⟨hdepth, rest, hrun⟩ := hx depth
  · rw [hrun]
    obtain hrun' | ⟨hdepth, hrun'⟩ := hf depth
    · exact .inl hrun'
    · exact .inr ⟨Nat.lt_of_lt_of_le hdepth (Nat.le_max_right _ _), hrun'⟩
  · rw [hrun]
    exact .inr ⟨Nat.lt_of_lt_of_le hdepth (Nat.le_max_left _ _), rest, rfl⟩

theorem bind_of_run {x : Parsing α} {f : Nat → α → Parsing β} {a : α} {b : β}
    (hrun : x before = .ok a mid) (hf : Yields (fun depth => f depth a) mid b after) :
    Yields (fun depth => x >>= f depth) before b after :=
  bind (of_run fun _ => hrun) hf

/-- A rule needs one level more than the rules it uses. -/
theorem parseWithin {rule : Rule} {node : Node}
    (h : Yields (fun depth => parser (Rule.parseWithin depth) rule) before node after) :
    Yields (fun depth => Rule.parseWithin depth rule) before node after := by
  obtain ⟨limit, h⟩ := h
  refine ⟨limit + 1, fun depth => ?_⟩
  cases depth with
  | zero => exact .inr ⟨Nat.succ_pos _, before, rfl⟩
  | succ depth => exact (h depth).imp_right fun h => ⟨Nat.succ_lt_succ h.1, h.2⟩

variable {step : Nat → α → Parsing (α ⊕ β)} {bound : List Token} {a a' : α} {b : β}

theorem iterateFor_inl (hbound : before.length ≤ bound.length)
    (hlength : mid.length < before.length)
    (hstep : Yields (fun depth => step depth a) before (.inl a') mid)
    (h : ∀ bound : List Token, mid.length ≤ bound.length →
      Yields (fun depth => iterateFor (step depth) bound a') mid b after) :
    Yields (fun depth => iterateFor (step depth) bound a) before b after := by
  cases bound with
  | nil => exact absurd (Nat.lt_of_lt_of_le hlength hbound) (Nat.not_lt_zero _)
  | cons token bound =>
    refine hstep.bind (h bound ?_)
    rw [List.length_cons] at hbound
    omega

theorem iterateFor_inr (hbound : before.length ≤ bound.length) (hlength : before ≠ [])
    (hstep : Yields (fun depth => step depth a) before (.inr b) after) :
    Yields (fun depth => iterateFor (step depth) bound a) before b after := by
  cases bound with
  | nil => exact absurd (List.length_eq_zero_iff.mp (Nat.le_zero.mp hbound)) hlength
  | cons token bound => exact hstep.bind .pure

theorem iterate (h : ∀ bound : List Token, before.length ≤ bound.length →
      Yields (fun depth => iterateFor (step depth) bound a) before b after) :
    Yields (fun depth => iterate (step depth) a) before b after :=
  bind_of_run rfl (h before (Nat.le_refl _))

end Yields

end Parsing

/-! ### Where phrases stop -/

/-- How loosely a token binds what stands before it. A token that is no operator binds least. -/
def Kind.looseness : Kind → Nat
  | .leftParen => 1
  | .plusPlus | .minusMinus => 2
  | .slash | .star => 3
  | .minus | .plus => 4
  | .greater | .greaterEqual | .less | .lessEqual => 5
  | .ampersand | .pipe => 6
  | .bangEqual | .equalEqual => 7
  | .andAnd => 8
  | .orOr => 9
  | .questionMark => 10
  | .equal => 11
  | _ => 12

/-- How loosely the operators of a rule bind. -/
def Rule.looseness : Rule → Nat
  | .primary => 0
  | .call => 1
  | .step | .unary => 2
  | .product => 3
  | .sum => 4
  | .comparison => 5
  | .bitwise => 6
  | .equality => 7
  | .conjunction => 8
  | .disjunction => 9
  | .ternary => 10
  | _ => 11

theorem Rule.level?_looseness {rule : Rule} {level : Level} (h : rule.level? = some level) :
    level.operand.looseness < rule.looseness ∧
      ∀ kind ∈ level.operators, kind.looseness = rule.looseness := by
  cases rule <;> cases h <;> decide

/-- The tokens go on with one that binds more loosely than a limit. -/
def StopsAt (limit : Nat) (tokens : List Token) : Prop :=
  ∃ next rest, tokens = next :: rest ∧ limit < next.kind.looseness

/-- The tokens go on, and not with an `else` if an open statement stands before them. -/
def StopsOpen (isOpen : Bool) (tokens : List Token) : Prop :=
  ∃ next rest, tokens = next :: rest ∧ (isOpen = true → next.kind ≠ .elseWord)

theorem StopsAt.mono {limit limit' : Nat} {tokens : List Token} (h : StopsAt limit' tokens)
    (hle : limit ≤ limit') : StopsAt limit tokens := by
  obtain ⟨next, rest, htokens, hnext⟩ := h
  exact ⟨next, rest, htokens, Nat.lt_of_le_of_lt hle hnext⟩

theorem stopsAt_cons {limit : Nat} {next : Token} {rest : List Token} {kind : Kind}
    (hkind : next.kind = kind) (hlimit : limit < kind.looseness) : StopsAt limit (next :: rest) :=
  ⟨next, rest, rfl, hkind ▸ hlimit⟩

namespace Derives

variable {before after : List Token}

/-- What follows an operand stops the operand. -/
theorem operands_stop {rule : Rule} {level : Level} {left node : Node}
    (hlevel : rule.level? = some level) (h : Writes (.operands level left node) before after)
    (hafter : StopsAt rule.looseness after) : StopsAt level.operand.looseness before := by
  obtain ⟨hless, hoperators⟩ := Rule.level?_looseness hlevel
  cases h with
  | noOperands => exact hafter.mono (Nat.le_of_lt hless)
  | moreOperands hoperator => exact stopsAt_cons rfl ((hoperators _ hoperator).symm ▸ hless)

/-- What follows a callee stops the callee. -/
theorem calls_stop {callee node : Node} (h : Writes (.calls callee node) before after)
    (hafter : StopsAt 1 after) : StopsAt 0 before := by
  cases h with
  | noCalls => exact hafter.mono (Nat.zero_le _)
  | moreCalls hopening => exact stopsAt_cons hopening (by decide)

/-- What follows a declaration, up to the end of a block or a program, stops the declaration. -/
theorem declarations_stop {nodes : List Node} (h : Writes (.declarations nodes) before after)
    (hafter : StartsWith [.rightBrace, .endOfInput] after) (isOpen : Bool) :
    StopsOpen isOpen before := by
  have hstart : StartsWith ([.rightBrace, .endOfInput] ++ declarationStarts) before := by
    cases h with
    | noDeclarations => exact hafter.mono (List.subset_append_left _ _)
    | moreDeclarations hfirst => exact hfirst.starts.mono (List.subset_append_right _ _)
  obtain ⟨next, rest, rfl, hnext⟩ := hstart
  refine ⟨next, rest, rfl, fun _ heq => ?_⟩
  rw [heq] at hnext
  revert hnext
  decide

end Derives

/-! ### Chains and names

A name is an expression of every rule, and its parser goes through all of them. -/

section

variable {rule : Rule} {level : Level} {left node : Node} {name : Token}
  {before mid after : List Token}

private theorem yields_chain (hlevel : rule.level? = some level)
    (hleft : Yields (fun depth => parseWithin depth level.operand) before left mid)
    (hoperands : ∀ bound : List Token, mid.length ≤ bound.length →
      Yields (fun depth => iterateFor (chainStep (parseWithin depth level.operand) level.operators
        level.join) bound left) mid node after) :
    Yields (fun depth => parseWithin depth rule) before node after := by
  have hchain : Yields (fun depth => chain (parseWithin depth level.operand) level.operators
      level.join) before node after := hleft.bind (.iterate hoperands)
  refine .parseWithin ?_
  cases rule <;> cases hlevel <;> exact hchain

private theorem yields_noOperands (hlevel : rule.level? = some level)
    (hafter : StopsAt rule.looseness after) (bound : List Token)
    (hbound : after.length ≤ bound.length) :
    Yields (fun depth => iterateFor (chainStep (parseWithin depth level.operand) level.operators
      level.join) bound left) after left after := by
  obtain ⟨next, rest, rfl, hnext⟩ := hafter
  have hoperator : next.kind ∉ level.operators := fun h =>
    Nat.ne_of_gt hnext ((Rule.level?_looseness hlevel).2 _ h)
  refine .iterateFor_inr hbound (List.cons_ne_nil _ _) ?_
  exact .bind_of_run (accept?_cons_of_notMem hoperator) .pure

private theorem yields_operand (rule : Rule) (hlevel : rule.level? = some level)
    (hafter : StopsAt rule.looseness after)
    (h : Yields (fun depth => parseWithin depth level.operand) before node after) :
    Yields (fun depth => parseWithin depth rule) before node after :=
  yields_chain hlevel h (yields_noOperands hlevel hafter)

private theorem yields_noCalls {callee : Node} (hafter : StopsAt 1 after) (bound : List Token)
    (hbound : after.length ≤ bound.length) :
    Yields (fun depth => iterateFor (callStep (parseWithin depth)) bound callee) after callee
      after := by
  obtain ⟨next, rest, rfl, hnext⟩ := hafter
  have hparen : next.kind ≠ .leftParen := fun h => by simp [h, Kind.looseness] at hnext
  refine .iterateFor_inr hbound (List.cons_ne_nil _ _) ?_
  exact .bind_of_run (accept_cons_of_ne hparen) .pure

private theorem yields_noStep (hafter : StopsAt 2 after)
    (h : Yields (fun depth => parseWithin depth .call) before node after) :
    Yields (fun depth => parseWithin depth .step) before node after := by
  obtain ⟨next, rest, rfl, hnext⟩ := hafter
  have hstep : next.kind ∉ [.plusPlus, .minusMinus] := fun h => by
    simp only [List.mem_cons, List.not_mem_nil, or_false] at h
    rcases h with h | h <;> simp [h, Kind.looseness] at hnext
  refine .parseWithin (h.bind ?_)
  exact .bind_of_run (accept?_cons_of_notMem hstep) .pure

private theorem yields_noUnary (hbefore : StartsWith primaryStarts before)
    (h : Yields (fun depth => parseWithin depth .step) before node after) :
    Yields (fun depth => parseWithin depth .unary) before node after := by
  obtain ⟨first, rest, rfl, hfirst⟩ := hbefore
  have hdisjoint : ∀ kind ∈ primaryStarts, kind ∉ [.plusPlus, .minusMinus, .bang, .minus] := by
    decide
  refine .parseWithin ?_
  exact .bind_of_run (accept?_cons_of_notMem (hdisjoint _ hfirst)) h

private theorem yields_noTernary (hafter : StopsAt 10 after)
    (h : Yields (fun depth => parseWithin depth .disjunction) before node after) :
    Yields (fun depth => parseWithin depth .ternary) before node after := by
  obtain ⟨next, rest, rfl, hnext⟩ := hafter
  have hquestion : next.kind ≠ .questionMark := fun h => by simp [h, Kind.looseness] at hnext
  refine .parseWithin (h.bind ?_)
  exact .bind_of_run (accept_cons_of_ne hquestion) .pure

private theorem yields_name_primary (hname : name.kind = .identifier) :
    Yields (fun depth => parseWithin depth .primary) (name :: after) (.reference name) after := by
  refine .parseWithin (.bind_of_run (accept?_cons_of_mem (by rw [hname]; decide) (by decide)) ?_)
  simp only [hname]
  exact .pure

private theorem yields_name_call (hname : name.kind = .identifier) (hafter : StopsAt 1 after) :
    Yields (fun depth => parseWithin depth .call) (name :: after) (.reference name) after :=
  .parseWithin ((yields_name_primary hname).bind (.iterate (yields_noCalls hafter)))

private theorem yields_name_unary (hname : name.kind = .identifier) (hafter : StopsAt 2 after) :
    Yields (fun depth => parseWithin depth .unary) (name :: after) (.reference name) after := by
  refine yields_noUnary (startsWith_cons.mpr (by rw [hname]; decide)) (yields_noStep hafter ?_)
  exact yields_name_call hname (hafter.mono (by decide))

private theorem yields_name_ternary (hname : name.kind = .identifier) (hafter : StopsAt 10 after) :
    Yields (fun depth => parseWithin depth .ternary) (name :: after) (.reference name) after := by
  have hstop {limit : Nat} (hle : limit ≤ 10) : StopsAt limit after := hafter.mono hle
  have hunary := yields_name_unary hname (hstop (by decide))
  have hproduct := yields_operand .product rfl (hstop (by decide)) hunary
  have hsum := yields_operand .sum rfl (hstop (by decide)) hproduct
  have hcomparison := yields_operand .comparison rfl (hstop (by decide)) hsum
  have hbitwise := yields_operand .bitwise rfl (hstop (by decide)) hcomparison
  have hequality := yields_operand .equality rfl (hstop (by decide)) hbitwise
  have hconjunction := yields_operand .conjunction rfl (hstop (by decide)) hequality
  have hdisjunction := yields_operand .disjunction rfl (hstop (by decide)) hconjunction
  exact yields_noTernary hafter hdisjunction

end

/-! ### Lists -/

section

variable {α : Type} {item : Nat → Parsing α} {complaint : Complaint} {a : α} {as : List α}
  {before rest after : List Token} {next : Token}

/-- A family of parsers for items reads a list of them, whatever was read before the list. -/
def YieldsList (item : Nat → Parsing α) (complaint : Complaint) (before : List Token)
    (as : List α) (after : List Token) : Prop :=
  ∀ (items : List α) (bound : List Token), (items ++ as).length ≤ argumentLimit →
    before.length ≤ bound.length →
      Yields (fun depth => iterateFor (listStep (item depth) complaint) bound items) before
        (items ++ as) after

private theorem yieldsList_last (hitem : Yields item before a (next :: rest))
    (hnext : next.kind ≠ .comma) (hbefore : before ≠ []) :
    YieldsList item complaint before [a] (next :: rest) := by
  intro items bound hcount hbound
  rw [List.length_append, List.length_singleton] at hcount
  refine .iterateFor_inr hbound hbefore ?_
  unfold listStep
  simp only [Nat.not_le.mpr hcount, if_false]
  exact hitem.bind (.bind_of_run (accept_cons_of_ne hnext) .pure)

private theorem yieldsList_cons (hitem : Yields item before a (next :: rest))
    (hnext : next.kind = .comma) (hlength : rest.length < before.length)
    (hrest : YieldsList item complaint rest as after) :
    YieldsList item complaint before (a :: as) after := by
  intro items bound hcount hbound
  rw [List.append_cons] at hcount ⊢
  refine .iterateFor_inl hbound hlength ?_ fun bound hbound => hrest _ bound hcount hbound
  have hitems : items.length < argumentLimit := by
    simp only [List.length_append, List.length_cons] at hcount
    omega
  unfold listStep
  simp only [Nat.not_le.mpr hitems, if_false]
  exact hitem.bind (.bind_of_run (accept_cons_of_eq hnext (by decide)) .pure)

private theorem yields_commaList_nil (hafter : StartsWith [.rightParen] after) :
    Yields (fun depth => commaList (item depth) complaint) after [] after := by
  obtain ⟨next, rest, rfl, hnext⟩ := hafter
  rw [List.mem_singleton] at hnext
  refine .bind_of_run check_cons ?_
  simp only [hnext]
  exact .pure

private theorem yields_commaList {kinds : List Kind} (hstarts : StartsWith kinds before)
    (hkinds : .rightParen ∉ kinds) (hcount : as.length ≤ argumentLimit)
    (h : YieldsList item complaint before as after) :
    Yields (fun depth => commaList (item depth) complaint) before as after := by
  obtain ⟨first, rest, rfl, hfirst⟩ := hstarts
  have hparen : first.kind ≠ .rightParen := fun heq => hkinds (heq ▸ hfirst)
  refine .bind_of_run check_cons ?_
  simp only [hparen, and_false, decide_false]
  exact .iterate fun bound hbound => h [] bound hcount hbound

end

/-! ### Phrases that are followed -/

/-- The parser of a phrase follows it. Phrases that the parser reads in a loop are followed from any
state of the loop, and with any bound that leaves room for the tokens. -/
def Parsed (before after : List Token) : Phrase → Prop
  | .declarations nodes => StartsWith [.rightBrace, .endOfInput] after →
      ∀ (items : List Node) (bound : List Token), before.length ≤ bound.length →
        Yields (fun depth => iterateFor (blockStep (parseWithin depth)) bound items) before
          (items.reverse ++ nodes) after
  | .declaration isOpen node => StopsOpen isOpen after →
      Yields (fun depth => parseWithin depth .declaration) before node after
  | .function node => Yields (fun depth => function (parseWithin depth)) before node after
  | .parameters params => params.length ≤ argumentLimit → StartsWith [.rightParen] after →
      Yields (fun _ => parameters) before params after
  | .names names => StartsWith [.rightParen] after →
      YieldsList (fun _ => expect .identifier .parameterName) .tooManyParameters before names after
  | .variableItem node => Yields (fun depth => variableItem (parseWithin depth)) before node after
  | .statement isOpen node => StopsOpen isOpen after →
      Yields (fun depth => parseWithin depth .statement) before node after
  | .block nodes => ∃ opening rest, before = opening :: rest ∧ opening.kind = .leftBrace ∧
      Yields (fun depth => blockItems (parseWithin depth)) rest nodes after
  | .discard node => Yields (fun depth => expressionStatement (parseWithin depth)) before node after
  | .initial node => Yields (fun depth => initialClause (parseWithin depth)) before node after
  | .optional node => ∀ stop ∈ [Kind.semicolon, Kind.rightParen], StartsWith [stop] after →
      Yields (fun depth => expressionBefore (parseWithin depth) stop) before node after
  | .expression rule node => StopsAt rule.looseness after →
      Yields (fun depth => parseWithin depth rule) before node after
  | .operands level left node => ∀ rule : Rule, rule.level? = some level →
      StopsAt rule.looseness after → ∀ bound : List Token, before.length ≤ bound.length →
        Yields (fun depth => iterateFor (chainStep (parseWithin depth level.operand)
          level.operators level.join) bound left) before node after
  | .calls callee node => StopsAt 1 after →
      ∀ bound : List Token, before.length ≤ bound.length →
        Yields (fun depth => iterateFor (callStep (parseWithin depth)) bound callee) before node
          after
  | .arguments args => args.length ≤ argumentLimit → StartsWith [.rightParen] after →
      Yields (fun depth => arguments (parseWithin depth)) before args after
  | .expressions args => StartsWith [.rightParen] after →
      YieldsList (fun depth => parseWithin depth .expression) .tooManyArguments before args after

namespace Parsed

variable {before mid rest tail inner after : List Token} {isOpen : Bool} {node : Node}

/-! ### Declarations -/

private theorem noDeclarations : Parsed after after (.declarations []) := by
  intro hafter items bound hbound
  obtain ⟨next, rest, rfl, hnext⟩ := hafter
  rw [List.append_nil]
  refine .iterateFor_inr hbound (List.cons_ne_nil _ _) ?_
  refine .bind_of_run check_cons (.bind_of_run atEnd_cons ?_)
  have hstop : (decide (next.kind ≠ .endOfInput ∧ next.kind = .rightBrace) ||
      decide (next.kind = .endOfInput)) = true := by
    simp only [List.mem_cons, List.not_mem_nil, or_false] at hnext
    rcases hnext with hnext | hnext <;> simp [hnext]
  simp only [hstop, if_true]
  exact .pure

private theorem moreDeclarations {nodes : List Node} (hstarts : StartsWith declarationStarts before)
    (hlength : mid.length < before.length)
    (hstop : StartsWith [.rightBrace, .endOfInput] after → StopsOpen isOpen mid)
    (hfirst : Parsed before mid (.declaration isOpen node))
    (hrest : Parsed mid after (.declarations nodes)) :
    Parsed before after (.declarations (node :: nodes)) := by
  intro hafter items bound hbound
  obtain ⟨first, rest, rfl, hkind⟩ := hstarts
  have hitems : items.reverse ++ node :: nodes = (node :: items).reverse ++ nodes := by
    rw [List.reverse_cons, List.append_assoc, List.singleton_append]
  rw [hitems]
  refine .iterateFor_inl hbound hlength ?_ fun bound hbound => hrest hafter _ bound hbound
  refine .bind_of_run check_cons (.bind_of_run atEnd_cons ?_)
  have hgo : (decide (first.kind ≠ .endOfInput ∧ first.kind = .rightBrace) ||
      decide (first.kind = .endOfInput)) = false := by
    have hdisjoint : ∀ kind ∈ declarationStarts, kind ≠ .rightBrace ∧ kind ≠ .endOfInput := by
      decide
    simp [hdisjoint _ hkind]
  simp only [hgo]
  exact (hfirst (hstop hafter)).bind .pure

private theorem functionDeclaration {word : Token} (hword : word.kind = .funWord)
    (hitem : Parsed rest after (.function node)) :
    Parsed (word :: rest) after (.declaration false node) :=
  fun _ => .parseWithin (.bind_of_run (accept_cons_of_eq hword (by decide)) hitem)

private theorem variableDeclaration {word : Token} (hword : word.kind = .varWord)
    (hitem : Parsed rest after (.variableItem node)) :
    Parsed (word :: rest) after (.declaration false node) := by
  intro _
  refine .parseWithin (.bind_of_run (accept_cons_of_ne (by rw [hword]; decide)) ?_)
  exact .bind_of_run (accept_cons_of_eq hword (by decide)) hitem

private theorem statementDeclaration (hstarts : StartsWith statementStarts before)
    (hstatement : Parsed before after (.statement isOpen node)) :
    Parsed before after (.declaration isOpen node) := by
  intro hafter
  obtain ⟨first, rest, rfl, hfirst⟩ := hstarts
  have hdisjoint : ∀ kind ∈ statementStarts, kind ≠ .funWord ∧ kind ≠ .varWord := by decide
  refine .parseWithin (.bind_of_run (accept_cons_of_ne (hdisjoint _ hfirst).1) ?_)
  exact .bind_of_run (accept_cons_of_ne (hdisjoint _ hfirst).2) (hstatement hafter)

private theorem function {name opening closing : Token} {params : List Token} {body : List Node}
    (hname : name.kind = .identifier) (hopening : opening.kind = .leftParen)
    (hparams : Parsed rest (closing :: tail) (.parameters params)) (hcount : params.length ≤ 255)
    (hclosing : closing.kind = .rightParen) (hbody : Parsed tail after (.block body)) :
    Parsed (name :: opening :: rest) after (.function (.function name params body)) := by
  obtain ⟨brace, inner, rfl, hbrace, hbody⟩ := hbody
  have hparen : StartsWith [.rightParen] (closing :: brace :: inner) :=
    startsWith_cons.mpr (List.mem_singleton.mpr hclosing)
  refine .bind_of_run (expect_cons_of_eq hname (by decide)) ?_
  refine .bind_of_run (expect_cons_of_eq hopening (by decide)) ?_
  refine (hparams hcount hparen).bind ?_
  refine .bind_of_run (expect_cons_of_eq hclosing (by decide)) ?_
  refine .bind_of_run (expect_cons_of_eq hbrace (by decide)) ?_
  exact hbody.bind .pure

private theorem variableItem {name semicolon : Token} (hname : name.kind = .identifier)
    (hsemicolon : semicolon.kind = .semicolon) :
    Parsed (name :: semicolon :: after) after (.variableItem (.declaration name none)) := by
  refine .bind_of_run (expect_cons_of_eq hname (by decide)) ?_
  refine .bind (.bind_of_run (accept_cons_of_ne (by rw [hsemicolon]; decide)) .pure) ?_
  exact .bind_of_run (expect_cons_of_eq hsemicolon (by decide)) .pure

private theorem initializedItem {name equals semicolon : Token} {value : Node}
    (hname : name.kind = .identifier) (hequals : equals.kind = .equal)
    (hvalue : Parsed rest (semicolon :: after) (.expression .expression value))
    (hsemicolon : semicolon.kind = .semicolon) :
    Parsed (name :: equals :: rest) after (.variableItem (.declaration name (some value))) := by
  refine .bind_of_run (expect_cons_of_eq hname (by decide)) ?_
  refine .bind (.bind_of_run (accept_cons_of_eq hequals (by decide))
    ((hvalue (stopsAt_cons hsemicolon (by decide))).bind .pure)) ?_
  exact .bind_of_run (expect_cons_of_eq hsemicolon (by decide)) .pure

/-! ### Statements -/

/-- A statement that starts with a word of its own is told by it. -/
private theorem yields_statement {word : Token} (hword : word.kind ∈ [.returnWord, .forWord,
      .whileWord, .ifWord, .leftBrace])
    (h : Yields (fun depth =>
      match word.kind with
      | .returnWord => Rule.returnStatement (parseWithin depth) word
      | .forWord => Rule.forStatement (parseWithin depth)
      | .whileWord => Rule.whileStatement (parseWithin depth)
      | .ifWord => Rule.ifStatement (parseWithin depth)
      | _ => return .block (← blockItems (parseWithin depth))) rest node after) :
    Yields (fun depth => parseWithin depth .statement) (word :: rest) node after :=
  .parseWithin (.bind_of_run (accept?_cons_of_mem hword (by decide)) h)

private theorem returnStatement {word semicolon : Token} {value : Option Node}
    (hword : word.kind = .returnWord)
    (hvalue : Parsed rest (semicolon :: after) (.optional value))
    (hsemicolon : semicolon.kind = .semicolon) :
    Parsed (word :: rest) after (.statement false (.result word value)) := by
  intro _
  have hstop : StartsWith [.semicolon] (semicolon :: after) := by simp [hsemicolon]
  refine yields_statement (by rw [hword]; decide) ?_
  simp only [hword]
  refine (hvalue .semicolon (by decide) hstop).bind ?_
  exact .bind_of_run (expect_cons_of_eq hsemicolon (by decide)) .pure

private theorem forStatement {word opening semicolon closing : Token}
    {initial condition increment : Option Node} {body : Node} {clauses : List Token}
    (hword : word.kind = .forWord) (hopening : opening.kind = .leftParen)
    (hinitial : Parsed rest clauses (.initial initial))
    (hcondition : Parsed clauses (semicolon :: tail) (.optional condition))
    (hsemicolon : semicolon.kind = .semicolon)
    (hincrement : Parsed tail (closing :: inner) (.optional increment))
    (hclosing : closing.kind = .rightParen)
    (hbody : Parsed inner after (.statement isOpen body)) :
    Parsed (word :: opening :: rest) after
      (.statement isOpen (.counting initial condition increment body)) := by
  intro hafter
  have hstop : StartsWith [.semicolon] (semicolon :: tail) := by simp [hsemicolon]
  have hstop' : StartsWith [.rightParen] (closing :: inner) := by simp [hclosing]
  refine yields_statement (by rw [hword]; decide) ?_
  simp only [hword, ← countingLoop_eq_counting]
  refine .bind_of_run (expect_cons_of_eq hopening (by decide)) ?_
  refine hinitial.bind ((hcondition .semicolon (by decide) hstop).bind ?_)
  refine .bind_of_run (expect_cons_of_eq hsemicolon (by decide)) ?_
  refine (hincrement .rightParen (by decide) hstop').bind ?_
  refine .bind_of_run (expect_cons_of_eq hclosing (by decide)) ?_
  exact (hbody hafter).bind .pure

private theorem whileStatement {word opening closing : Token} {condition body : Node}
    (hword : word.kind = .whileWord) (hopening : opening.kind = .leftParen)
    (hcondition : Parsed rest (closing :: inner) (.expression .expression condition))
    (hclosing : closing.kind = .rightParen)
    (hbody : Parsed inner after (.statement isOpen body)) :
    Parsed (word :: opening :: rest) after (.statement isOpen (.loop condition body)) := by
  intro hafter
  refine yields_statement (by rw [hword]; decide) ?_
  simp only [hword]
  refine .bind_of_run (expect_cons_of_eq hopening (by decide)) ?_
  refine (hcondition (stopsAt_cons hclosing (by decide))).bind ?_
  refine .bind_of_run (expect_cons_of_eq hclosing (by decide)) ?_
  exact (hbody hafter).bind .pure

private theorem ifStatement {word opening closing : Token} {condition thenBranch : Node}
    (hword : word.kind = .ifWord) (hopening : opening.kind = .leftParen)
    (hcondition : Parsed rest (closing :: inner) (.expression .expression condition))
    (hclosing : closing.kind = .rightParen)
    (hthen : Parsed inner after (.statement isOpen thenBranch)) :
    Parsed (word :: opening :: rest) after
      (.statement true (.branch condition thenBranch none)) := by
  rintro ⟨next, tail, rfl, hnext⟩
  refine yields_statement (by rw [hword]; decide) ?_
  simp only [hword]
  refine .bind_of_run (expect_cons_of_eq hopening (by decide)) ?_
  refine (hcondition (stopsAt_cons hclosing (by decide))).bind ?_
  refine .bind_of_run (expect_cons_of_eq hclosing (by decide)) ?_
  refine (hthen ⟨next, tail, rfl, fun _ => hnext rfl⟩).bind ?_
  exact .bind (.bind_of_run (accept_cons_of_ne (hnext rfl)) .pure) .pure

private theorem ifElseStatement {word opening closing otherwise : Token}
    {condition thenBranch elseBranch : Node} (hword : word.kind = .ifWord)
    (hopening : opening.kind = .leftParen)
    (hcondition : Parsed rest (closing :: inner) (.expression .expression condition))
    (hclosing : closing.kind = .rightParen)
    (hthen : Parsed inner (otherwise :: tail) (.statement false thenBranch))
    (hotherwise : otherwise.kind = .elseWord)
    (helse : Parsed tail after (.statement isOpen elseBranch)) :
    Parsed (word :: opening :: rest) after
      (.statement isOpen (.branch condition thenBranch (some elseBranch))) := by
  intro hafter
  refine yields_statement (by rw [hword]; decide) ?_
  simp only [hword]
  refine .bind_of_run (expect_cons_of_eq hopening (by decide)) ?_
  refine (hcondition (stopsAt_cons hclosing (by decide))).bind ?_
  refine .bind_of_run (expect_cons_of_eq hclosing (by decide)) ?_
  refine (hthen ⟨otherwise, tail, rfl, Bool.noConfusion⟩).bind ?_
  refine .bind (.bind_of_run (accept_cons_of_eq hotherwise (by decide)) ?_) .pure
  exact (helse hafter).bind .pure

private theorem blockStatement {nodes : List Node} (hblock : Parsed before after (.block nodes)) :
    Parsed before after (.statement false (.block nodes)) := by
  intro _
  obtain ⟨opening, rest, rfl, hopening, hblock⟩ := hblock
  refine yields_statement (by rw [hopening]; decide) ?_
  simp only [hopening]
  exact hblock.bind .pure

private theorem discardStatement (hstarts : StartsWith expressionStarts before)
    (hdiscard : Parsed before after (.discard node)) :
    Parsed before after (.statement false node) := by
  intro _
  obtain ⟨first, rest, rfl, hfirst⟩ := hstarts
  have hdisjoint : ∀ kind ∈ expressionStarts,
      kind ∉ [.returnWord, .forWord, .whileWord, .ifWord, .leftBrace] := by decide
  refine .parseWithin (.bind_of_run (accept?_cons_of_notMem (hdisjoint _ hfirst)) ?_)
  exact hdiscard

private theorem block {opening closing : Token} {nodes : List Node}
    (hopening : opening.kind = .leftBrace)
    (hnodes : Parsed rest (closing :: after) (.declarations nodes))
    (hclosing : closing.kind = .rightBrace) : Parsed (opening :: rest) after (.block nodes) := by
  refine ⟨opening, rest, rfl, hopening, ?_⟩
  have hstop : StartsWith [.rightBrace, .endOfInput] (closing :: after) := by simp [hclosing]
  refine (Yields.iterate fun bound hbound => hnodes hstop [] bound hbound).bind ?_
  exact .bind_of_run (expect_cons_of_eq hclosing (by decide)) .pure

private theorem discard {semicolon : Token}
    (hnode : Parsed before (semicolon :: after) (.expression .expression node))
    (hsemicolon : semicolon.kind = .semicolon) :
    Parsed before after (.discard (.discard node)) := by
  refine (hnode (stopsAt_cons hsemicolon (by decide))).bind (.bind_of_run atEnd_cons ?_)
  simp only [hsemicolon]
  exact .bind_of_run (expect_cons_of_eq hsemicolon (by decide)) .pure

private theorem discardAtEnd {mark : Token}
    (hnode : Parsed before (mark :: after) (.expression .expression node))
    (hmark : mark.kind = .endOfInput) :
    Parsed before (mark :: after) (.discard (.discard node)) := by
  refine (hnode (stopsAt_cons hmark (by decide))).bind (.bind_of_run atEnd_cons ?_)
  simp only [hmark]
  exact .pure

private theorem noInitial {semicolon : Token} (hsemicolon : semicolon.kind = .semicolon) :
    Parsed (semicolon :: after) after (.initial none) :=
  .bind_of_run (accept_cons_of_eq hsemicolon (by decide)) .pure

private theorem variableInitial (hmarked : Marked (some .varWord) before rest)
    (hitem : Parsed rest after (.variableItem node)) :
    Parsed before after (.initial (some node)) := by
  cases hmarked with
  | word hword =>
    refine .bind_of_run (accept_cons_of_ne (by rw [hword]; decide)) ?_
    exact .bind_of_run (accept_cons_of_eq hword (by decide)) (hitem.bind .pure)

private theorem discardInitial (hstarts : StartsWith expressionStarts before)
    (hdiscard : Parsed before after (.discard node)) :
    Parsed before after (.initial (some node)) := by
  obtain ⟨first, rest, rfl, hfirst⟩ := hstarts
  have hdisjoint : ∀ kind ∈ expressionStarts, kind ≠ .semicolon ∧ kind ≠ .varWord := by decide
  refine .bind_of_run (accept_cons_of_ne (hdisjoint _ hfirst).1) ?_
  exact .bind_of_run (accept_cons_of_ne (hdisjoint _ hfirst).2) (hdiscard.bind .pure)

private theorem absent : Parsed after after (.optional none) := by
  rintro stop hstop ⟨next, rest, rfl, hnext⟩
  rw [List.mem_singleton] at hnext
  have hend : stop ≠ .endOfInput := fun h => by simp [h] at hstop
  refine .bind_of_run check_cons ?_
  simp only [hnext, ne_eq, hend, not_false_eq_true, and_self, decide_true, if_true]
  exact .pure

private theorem present (hstarts : StartsWith expressionStarts before)
    (hnode : Parsed before after (.expression .expression node)) :
    Parsed before after (.optional (some node)) := by
  rintro stop hstop ⟨next, tail, rfl, hnext⟩
  rw [List.mem_singleton] at hnext
  obtain ⟨first, rest, rfl, hfirst⟩ := hstarts
  have hdisjoint : ∀ kind ∈ expressionStarts, kind ∉ [Kind.semicolon, Kind.rightParen] := by decide
  have hne : first.kind ≠ stop := fun h => hdisjoint _ hfirst (h ▸ hstop)
  have hloose : ∀ kind ∈ [Kind.semicolon, Kind.rightParen], 11 < kind.looseness := by decide
  refine .bind_of_run check_cons ?_
  simp only [hne, and_false, decide_false]
  exact (hnode (stopsAt_cons hnext (hloose _ hstop))).bind .pure

/-! ### Expressions -/

private theorem assignment {name equals : Token} {value : Node} (hname : name.kind = .identifier)
    (hequals : equals.kind = .equal)
    (hvalue : Parsed rest after (.expression .assignment value)) :
    Parsed (name :: equals :: rest) after (.expression .assignment (.assignment name value)) := by
  intro hafter
  refine .parseWithin ((yields_name_ternary hname (stopsAt_cons hequals (by decide))).bind ?_)
  refine .bind_of_run (accept?_cons_of_mem (by simp [hequals]) (by decide)) ?_
  exact (hvalue hafter).bind .pure

private theorem noAssignment (hnode : Parsed before after (.expression .ternary node)) :
    Parsed before after (.expression .assignment node) := by
  intro hafter
  have hternary := hnode (hafter.mono (by decide))
  obtain ⟨next, rest, rfl, hnext⟩ := hafter
  have hequal : next.kind ∉ [.equal] := fun h => by
    simp [List.mem_singleton.mp h, Kind.looseness, Rule.looseness] at hnext
  exact .parseWithin (hternary.bind (.bind_of_run (accept?_cons_of_notMem hequal) .pure))

private theorem ternary {question colon : Token} {condition thenBranch elseBranch : Node}
    (hcondition : Parsed before (question :: rest) (.expression .disjunction condition))
    (hquestion : question.kind = .questionMark)
    (hthen : Parsed rest (colon :: tail) (.expression .expression thenBranch))
    (hcolon : colon.kind = .colon)
    (helse : Parsed tail after (.expression .ternary elseBranch)) :
    Parsed before after (.expression .ternary (.ternary condition thenBranch elseBranch)) := by
  intro hafter
  refine .parseWithin ((hcondition (stopsAt_cons hquestion (by decide))).bind ?_)
  refine .bind_of_run (accept_cons_of_eq hquestion (by decide)) ?_
  refine (hthen (stopsAt_cons hcolon (by decide))).bind ?_
  refine .bind_of_run (expect_cons_of_eq hcolon (by decide)) ?_
  exact (helse hafter).bind .pure

private theorem level {rule : Rule} {level : Level} {left : Node}
    (hlevel : rule.level? = some level) 
    (hstop : StopsAt rule.looseness after → StopsAt level.operand.looseness mid)
    (hleft : Parsed before mid (.expression level.operand left))
    (hoperands : Parsed mid after (.operands level left node)) :
    Parsed before after (.expression rule node) :=
  fun hafter => yields_chain hlevel (hleft (hstop hafter)) (hoperands rule hlevel hafter)

private theorem moreOperands {level : Level} {operator : Token} {left right : Node}
    (hoperator : operator.kind ∈ level.operators) (hlength : mid.length ≤ rest.length)
    (hstop : ∀ rule : Rule, rule.level? = some level → StopsAt rule.looseness after →
      StopsAt level.operand.looseness mid)
    (hright : Parsed rest mid (.expression level.operand right))
    (hoperands : Parsed mid after (.operands level (level.join left operator right) node)) :
    Parsed (operator :: rest) after (.operands level left node) := by
  intro rule hlevel hafter bound hbound
  have hend : .endOfInput ∉ level.operators := by cases rule <;> cases hlevel <;> decide
  refine .iterateFor_inl hbound (Nat.lt_succ_of_le hlength) ?_ fun bound hbound =>
    hoperands rule hlevel hafter bound hbound
  refine .bind_of_run (accept?_cons_of_mem hoperator hend) ?_
  exact (hright (hstop rule hlevel hafter)).bind .pure

private theorem stepBefore {operator name : Token} (hoperator : operator.kind ∈ stepOperators)
    (hname : name.kind = .identifier) :
    Parsed (operator :: name :: after) after (.expression .unary (.stepBefore name operator)) := by
  intro hafter
  have hkinds : ∀ kind ∈ stepOperators, kind ∈ [Kind.plusPlus, .minusMinus, .bang, .minus] ∧
      ¬(kind = .bang ∨ kind = .minus) := by decide
  obtain ⟨hmem, hnot⟩ := hkinds _ hoperator
  refine .parseWithin (.bind_of_run (accept?_cons_of_mem hmem (by decide)) ?_)
  refine (yields_name_unary hname hafter).bind ?_
  simp only [hnot, if_false]
  exact .pure

private theorem unary {operator : Token} {right : Node} (hoperator : operator.kind ∈ unaryOperators)
    (hright : Parsed rest after (.expression .unary right)) :
    Parsed (operator :: rest) after (.expression .unary (.unary operator right)) := by
  intro hafter
  have hkinds : ∀ kind ∈ unaryOperators, kind ∈ [Kind.plusPlus, .minusMinus, .bang, .minus] ∧
      (kind = .bang ∨ kind = .minus) := by decide
  obtain ⟨hmem, hunary⟩ := hkinds _ hoperator
  refine .parseWithin (.bind_of_run (accept?_cons_of_mem hmem (by decide)) ?_)
  refine (hright hafter).bind ?_
  simp only [hunary, if_true]
  exact .pure

private theorem stepAfter {name operator : Token} (hname : name.kind = .identifier)
    (hoperator : operator.kind ∈ stepOperators) :
    Parsed (name :: operator :: after) after (.expression .step (.stepAfter name operator)) := by
  intro _
  have hloose : ∀ kind ∈ stepOperators, 1 < kind.looseness := by decide
  have hstop : StopsAt 1 (operator :: after) := stopsAt_cons rfl (hloose _ hoperator)
  refine .parseWithin ((yields_name_call hname hstop).bind ?_)
  exact .bind_of_run (accept?_cons_of_mem hoperator (by decide)) .pure

private theorem call {callee : Node} (hstop : StopsAt 1 after → StopsAt 0 mid)
    (hcallee : Parsed before mid (.expression .primary callee))
    (hcalls : Parsed mid after (.calls callee node)) :
    Parsed before after (.expression .call node) :=
  fun hafter => .parseWithin ((hcallee (hstop hafter)).bind (.iterate (hcalls hafter)))

private theorem moreCalls {opening closing : Token} {callee : Node} {args : List Node}
    (hopening : opening.kind = .leftParen) (hlength : (closing :: mid).length ≤ rest.length)
    (hargs : Parsed rest (closing :: mid) (.arguments args)) (hcount : args.length ≤ 255)
    (hclosing : closing.kind = .rightParen)
    (hcalls : Parsed mid after (.calls (.call callee closing args) node)) :
    Parsed (opening :: rest) after (.calls callee node) := by
  intro hafter bound hbound
  have hparen : StartsWith [.rightParen] (closing :: mid) := by simp [hclosing]
  refine .iterateFor_inl hbound ?_ ?_ (hcalls hafter)
  · simp only [List.length_cons] at *
    omega
  · refine .bind_of_run (accept_cons_of_eq hopening (by decide)) ?_
    refine (hargs hcount hparen).bind ?_
    exact .bind_of_run (expect_cons_of_eq hclosing (by decide)) .pure

private theorem constant {word : Token} {value : Constant} (hword : word.constant? = some value) :
    Parsed (word :: after) after (.expression .primary (.literal value)) := by
  intro _
  have hmem : word.kind ∈ [Kind.falseWord, .trueWord, .nullWord, .number, .string, .identifier,
      .leftParen] := Token.kind_mem_primaryStarts hword
  refine .parseWithin (.bind_of_run (accept?_cons_of_mem hmem (by decide)) ?_)
  rw [Token.constant?] at hword
  split at hword <;> cases hword <;> simp only [*] <;> exact .pure

private theorem grouping {opening closing : Token} (hopening : opening.kind = .leftParen)
    (hnode : Parsed rest (closing :: after) (.expression .expression node))
    (hclosing : closing.kind = .rightParen) :
    Parsed (opening :: rest) after (.expression .primary (.grouping node)) := by
  intro _
  refine .parseWithin (.bind_of_run (accept?_cons_of_mem (by rw [hopening]; decide) (by decide)) ?_)
  simp only [hopening]
  refine (hnode (stopsAt_cons hclosing (by decide))).bind ?_
  exact .bind_of_run (expect_cons_of_eq hclosing (by decide)) .pure

end Parsed

/-- The parser of the grammar follows every derivation. -/
theorem Derives.parsed {phrase : Phrase} {before after : List Token}
    (h : Writes phrase before after) : Parsed before after phrase := by
  induction h with
  | noDeclarations => exact .noDeclarations
  | moreDeclarations hfirst hrest ihfirst ihrest =>
    exact .moreDeclarations hfirst.starts hfirst.length_add_le
      (fun hafter => hrest.declarations_stop hafter _) ihfirst ihrest
  | functionDeclaration hword _ ih => exact .functionDeclaration hword ih
  | variableDeclaration hword _ ih => exact .variableDeclaration hword ih
  | statementDeclaration h ih => exact .statementDeclaration h.starts ih
  | function hname hopening _ hcount hclosing _ ihparams ihbody =>
    exact .function hname hopening ihparams hcount hclosing ihbody
  | noParameters => exact fun _ hafter => yields_commaList_nil hafter
  | someParameters h ih =>
    exact fun hcount hafter => yields_commaList h.starts (by decide) hcount (ih hafter)
  | lastName hname =>
    rintro ⟨next, rest, rfl, hnext⟩
    refine yieldsList_last (.of_run fun _ => expect_cons_of_eq hname (by decide)) ?_
      (List.cons_ne_nil _ _)
    rw [List.mem_singleton.mp hnext]
    decide
  | moreNames hname hcomma _ ih =>
    intro hafter
    refine yieldsList_cons (.of_run fun _ => expect_cons_of_eq hname (by decide)) hcomma ?_
      (ih hafter)
    simp only [List.length_cons]
    omega
  | variableItem hname hsemicolon => exact .variableItem hname hsemicolon
  | initializedItem hname hequals _ hsemicolon ih =>
    exact .initializedItem hname hequals ih hsemicolon
  | returnStatement hword _ hsemicolon ih => exact .returnStatement hword ih hsemicolon
  | forStatement hword hopening _ _ hsemicolon _ hclosing _ ihinitial ihcondition ihincrement
      ihbody =>
    exact .forStatement hword hopening ihinitial ihcondition hsemicolon ihincrement hclosing ihbody
  | whileStatement hword hopening _ hclosing _ ihcondition ihbody =>
    exact .whileStatement hword hopening ihcondition hclosing ihbody
  | ifStatement hword hopening _ hclosing _ ihcondition ihthen =>
    exact .ifStatement hword hopening ihcondition hclosing ihthen
  | ifElseStatement hword hopening _ hclosing _ hotherwise _ ihcondition ihthen ihelse =>
    exact .ifElseStatement hword hopening ihcondition hclosing ihthen hotherwise ihelse
  | blockStatement _ ih => exact .blockStatement ih
  | discardStatement h ih => exact .discardStatement h.starts ih
  | block hopening _ hclosing ih => exact .block hopening ih hclosing
  | discard _ hsemicolon ih => exact .discard ih hsemicolon
  | discardAtEnd _ hmark ih => exact .discardAtEnd ih hmark
  | noInitial hsemicolon => exact .noInitial hsemicolon
  | variableInitial hmarked _ ih => exact .variableInitial hmarked ih
  | discardInitial h ih => exact .discardInitial h.starts ih
  | absent => exact .absent
  | present h ih => exact .present h.starts ih
  | expression _ ih => exact fun hafter => .parseWithin (ih hafter)
  | assignment hname hequals _ ih => exact .assignment hname hequals ih
  | noAssignment _ ih => exact .noAssignment ih
  | ternary _ hquestion _ hcolon _ ihcondition ihthen ihelse =>
    exact .ternary ihcondition hquestion ihthen hcolon ihelse
  | noTernary _ ih => exact fun hafter => yields_noTernary hafter (ih (hafter.mono (by decide)))
  | level hlevel _ hoperands ihleft ihoperands =>
    exact .level hlevel (operands_stop hlevel hoperands) ihleft ihoperands
  | noOperands => exact fun _ hlevel hafter => yields_noOperands hlevel hafter
  | moreOperands hoperator hright hoperands ihright ihoperands =>
    exact .moreOperands hoperator (Nat.le_of_lt hright.length_add_le)
      (fun _ hlevel => operands_stop hlevel hoperands) ihright ihoperands
  | stepBefore hoperator hname => exact .stepBefore hoperator hname
  | unary hoperator _ ih => exact .unary hoperator ih
  | noUnary h ih => exact fun hafter => yields_noUnary h.starts (ih hafter)
  | stepAfter hname hoperator => exact .stepAfter hname hoperator
  | noStep _ ih => exact fun hafter => yields_noStep hafter (ih (hafter.mono (by decide)))
  | call _ hcalls ihcallee ihcalls => exact .call hcalls.calls_stop ihcallee ihcalls
  | noCalls => exact yields_noCalls
  | moreCalls hopening hargs hcount hclosing _ ihargs ihcalls =>
    exact .moreCalls hopening hargs.length_add_le ihargs hcount hclosing ihcalls
  | noArguments => exact fun _ hafter => yields_commaList_nil hafter
  | someArguments h ih =>
    exact fun hcount hafter => yields_commaList h.starts (by decide) hcount (ih hafter)
  | lastExpression h ih =>
    rintro ⟨next, rest, rfl, hnext⟩
    rw [List.mem_singleton] at hnext
    obtain ⟨first, tail, rfl, -⟩ := h.starts
    exact yieldsList_last (ih (stopsAt_cons hnext (by decide))) (by rw [hnext]; decide)
      (List.cons_ne_nil _ _)
  | moreExpressions h hcomma _ ih ihrest =>
    exact fun hafter => yieldsList_cons (ih (stopsAt_cons hcomma (by decide))) hcomma
      (Nat.le_of_lt h.length_add_le) (ihrest hafter)
  | constant hword => exact .constant hword
  | reference hname => exact fun _ => yields_name_primary hname
  | grouping hopening _ hclosing ih => exact .grouping hopening ih hclosing

end Script
