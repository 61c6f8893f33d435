import Script.Grammar.Parse
import Script.Proofs.Grammar.Derivation
import Script.Proofs.Grammar.Reading

/-!
# What parsers find has a derivation

Every rule's parser is followed once, with parsers for the rules it uses that are known to be sound.
A result comes with a derivation from the tokens that were read, and by induction on the depth the
same holds of the parser of the grammar.

A parser takes an `else` wherever it can, so an open statement is never followed by one. That is
what makes the first branch of an `if` with an `else` closed.

## Main results

* `Rule.sound_parseWithin` : the parser of the grammar is sound.
-/

namespace Script

open Parsing

/-- The grammar of the language: the variable of a counting loop stands behind `var`. -/
abbrev Writes : Phrase → List Token → List Token → Prop :=
  Derives (some .varWord)

namespace Rule

/-- What the parser of a rule finds: a derivation, and no `else` behind an open statement. -/
def Finds : Rule → List Token → Node → List Token → Prop
  | .declaration, before, node, after => ∃ isOpen, Writes (.declaration isOpen node) before after
  | .statement, before, node, after =>
    ∃ isOpen, Writes (.statement isOpen node) before after ∧
      (isOpen = true → ¬StartsWith [.elseWord] after)
  | rule, before, node, after => Writes (.expression rule node) before after

section

variable {α : Type} {sub : Rule → Parsing Node} {origin before : List Token}

/-! ### Lists and optional parts -/

/-- Items with commas between them form a list as soon as one item does and an item can be put in
front. -/
private theorem sound_commaList {item : Parsing α} {complaint : Complaint}
    {single : List Token → α → List Token → Prop} (list : List α → List Token → List Token → Prop)
    (hitem : ∀ before, Sound before before item (single before))
    (hlast : ∀ {a before after}, single before a after → list [a] before after)
    (hmore : ∀ {comma a as before rest after}, single before a (comma :: rest) →
      comma.kind = .comma → list as rest after → list (a :: as) before after) :
    Sound origin before (commaList item complaint) fun items after =>
      items.length ≤ argumentLimit ∧ (items = [] ∧ after = before ∨ list items before after) := by
  refine .bind_check (.pure ⟨Nat.zero_le _, .inl ⟨rfl, rfl⟩⟩) ?_
  -- the items so far can be put in front of any list that follows
  refine .iterate (fun items mid => items.length ≤ argumentLimit ∧
    ∀ more after, list more mid after → list (items ++ more) before after) ?_
    ⟨Nat.zero_le _, fun _ _ h => h⟩
  rintro items mid ⟨_, hitems⟩
  unfold listStep
  split
  · exact .bind_peek_complain
  · next hlimit =>
    have hcount (a : α) : (items ++ [a]).length ≤ argumentLimit := by
      rw [List.length_append, List.length_singleton]
      omega
    refine (hitem mid).reached.bind fun a next hreads ha => ?_
    refine .bind_accept (fun comma rest hrest hcomma => .pure ?_) (fun _ _ _ _ => .pure ?_)
    · subst hrest
      refine ⟨hreads.length_le, hcount a, fun more after hlist => ?_⟩
      rw [List.append_assoc]
      exact hitems _ _ (hmore ha hcomma hlist)
    · exact ⟨hcount a, .inr (hitems _ _ (hlast ha))⟩

private theorem sound_parameters :
    Sound origin before parameters fun params after =>
      params.length ≤ argumentLimit ∧ Writes (.parameters params) before after := by
  have hname (before : List Token) : Sound before before
      (expect .identifier .parameterName) fun name after =>
        before = name :: after ∧ name.kind = .identifier := by
    rw [← bind_pure (expect .identifier .parameterName)]
    exact .bind_expect fun name rest hbefore hname => .pure ⟨hbefore, hname⟩
  refine (sound_commaList (fun names => Writes (.names names)) hname ?_ ?_).mono ?_
  · rintro name _ _ ⟨rfl, hkind⟩
    exact .lastName hkind
  · rintro comma name names _ _ _ ⟨rfl, hkind⟩ hcomma hnames
    exact .moreNames hkind hcomma hnames
  · rintro params after ⟨hcount, ⟨rfl, rfl⟩ | hnames⟩
    · exact ⟨hcount, .noParameters⟩
    · exact ⟨hcount, .someParameters hnames⟩

/-- A part that is announced by a token, or a token that announces nothing. -/
private theorem sound_announced {kind : Kind} {part : Parsing Node}
    {found : List Token → Node → List Token → Prop} (hkind : kind ≠ .endOfInput)
    (hpart : ∀ rest, Sound rest rest part (found rest)) :
    Sound origin before (announced kind part) fun result after =>
      (∃ token rest node, before = token :: rest ∧ token.kind = kind ∧ result = some node ∧
        found rest node after) ∨
      (result = none ∧ after = before ∧ ¬StartsWith [kind] before) := by
  refine .bind_accept (fun token rest hbefore htoken => ?_) (fun token rest hbefore hnot => ?_)
  · refine (hpart rest).reached.bind fun node after _ hnode => .pure (.inl ?_)
    exact ⟨token, rest, node, hbefore, htoken, rfl, hnode⟩
  · refine .pure (.inr ⟨rfl, rfl, ?_⟩)
    rw [hbefore, startsWith_cons, List.mem_singleton]
    exact fun heq => hnot ⟨heq ▸ hkind, heq⟩

/-- A counting loop has one tree, however it is put together. -/
theorem countingLoop_eq_counting (initial condition increment : Option Node) (body : Node) :
    countingLoop initial condition increment body = .counting initial condition increment body := by
  cases initial <;> cases increment <;> rfl

/-- The parsers of the rules are sound. -/
def SoundRules (sub : Rule → Parsing Node) : Prop :=
  ∀ rule before, Sound before before (sub rule) (rule.Finds before)

variable (hsub : SoundRules sub)
include hsub

private theorem sound_expression :
    Sound origin before (sub .expression) fun node after =>
      Writes (.expression .expression node) before after :=
  (hsub .expression before).reached

private theorem sound_statement :
    Sound origin before (sub .statement) fun node after =>
      ∃ isOpen, Writes (.statement isOpen node) before after ∧
        (isOpen = true → ¬StartsWith [.elseWord] after) :=
  (hsub .statement before).reached

private theorem sound_arguments :
    Sound origin before (arguments sub) fun args after =>
      args.length ≤ argumentLimit ∧ Writes (.arguments args) before after := by
  refine (sound_commaList (fun args => Writes (.expressions args)) (hsub .expression)
    .lastExpression .moreExpressions).mono ?_
  rintro args after ⟨hcount, ⟨rfl, rfl⟩ | hargs⟩
  · exact ⟨hcount, .noArguments⟩
  · exact ⟨hcount, .someArguments hargs⟩

private theorem sound_expressionBefore {stop : Kind} :
    Sound origin before (expressionBefore sub stop) fun node after =>
      Writes (.optional node) before after := by
  refine .bind_check (.pure .absent) ?_
  exact (sound_expression hsub).bind fun node after _ hnode => .pure (.present hnode)

private theorem sound_blockItems :
    Sound origin before (blockItems sub) fun nodes after => ∃ closing,
      closing.kind = .rightBrace ∧ Writes (.declarations nodes) before (closing :: after) := by
  have hitems : Sound origin before (iterate (blockStep sub) []) fun nodes after =>
      Writes (.declarations nodes) before after := by
    -- the declarations so far, which are kept in reverse, precede any that follow
    refine .iterate (fun (items : List Node) mid => ∀ more after,
      Writes (.declarations more) mid after →
        Writes (.declarations (items.reverse ++ more)) before after) ?_ fun _ _ h => h
    intro items mid hitems
    have hdone : Writes (.declarations items.reverse) before mid := by
      simpa only [List.append_nil] using hitems [] mid .noDeclarations
    refine .bind_check ?_ ?_
    · exact .bind_atEnd (fun _ _ _ _ => .pure hdone) (.pure hdone)
    · refine .bind_atEnd (fun _ _ _ _ => .pure hdone) ?_
      refine (hsub .declaration mid).reached.bind fun node next _ hnode => .pure ?_
      obtain ⟨isOpen, hnode⟩ := hnode
      refine ⟨hnode.length_add_le, fun more after hmore => ?_⟩
      rw [List.reverse_cons, List.append_assoc]
      exact hitems _ _ (.moreDeclarations hnode hmore)
  refine hitems.bind fun nodes mid _ hnodes => ?_
  refine .bind_expect fun closing rest hmid hclosing => .pure ?_
  subst hmid
  exact ⟨closing, hclosing, hnodes⟩

/-! ### Declarations and statements -/

private theorem sound_function :
    Sound origin before (function sub) fun node after => Writes (.function node) before after := by
  refine .bind_expect fun name rest hbefore hname => ?_
  refine .bind_expect fun opening rest' hrest hopening => ?_
  refine sound_parameters.bind fun params mid _ hparams => ?_
  refine .bind_expect fun closing tail hmid hclosing => ?_
  refine .bind_expect fun brace body htail hbrace => ?_
  refine (sound_blockItems hsub).bind fun nodes after _ hnodes => .pure ?_
  subst hbefore hrest hmid htail
  obtain ⟨hcount, hparams⟩ := hparams
  obtain ⟨brace', hbrace', hnodes⟩ := hnodes
  exact .function hname hopening hparams hcount hclosing (.block hbrace hnodes hbrace')

private theorem sound_variableItem :
    Sound origin before (variableItem sub) fun node after =>
      Writes (.variableItem node) before after := by
  refine .bind_expect fun name rest hbefore hname => ?_
  have hequal : Kind.equal ≠ .endOfInput := by decide
  refine (sound_announced hequal (hsub .expression)).bind fun value mid _ hvalue => ?_
  refine .bind_expect fun semicolon after hmid hsemicolon => .pure ?_
  obtain ⟨equals, tail, node, hrest, hequals, rfl, hnode⟩ | ⟨rfl, rfl, -⟩ := hvalue
  · subst hbefore hrest hmid
    exact .initializedItem hname hequals hnode hsemicolon
  · subst hbefore hmid
    exact .variableItem hname hsemicolon

private theorem sound_expressionStatement :
    Sound origin before (expressionStatement sub) fun node after =>
      Writes (.discard node) before after := by
  refine (sound_expression hsub).bind fun node mid _ hnode => ?_
  refine .bind_atEnd (fun mark rest hmid hmark => .pure ?_) ?_
  · subst hmid
    exact .discardAtEnd hnode hmark
  · refine .bind_expect fun semicolon rest hmid hsemicolon => .pure ?_
    subst hmid
    exact .discard hnode hsemicolon

private theorem sound_returnStatement {word : Token} (hword : word.kind = .returnWord) :
    Sound origin before (returnStatement sub word) (Finds .statement (word :: before)) := by
  refine (sound_expressionBefore hsub).bind fun value mid _ hvalue => ?_
  refine .bind_expect fun semicolon rest hmid hsemicolon => .pure ?_
  subst hmid
  exact ⟨false, .returnStatement hword hvalue hsemicolon, Bool.noConfusion⟩

private theorem sound_initialClause :
    Sound origin before (initialClause sub) fun node after =>
      Writes (.initial node) before after := by
  refine .bind_accept (fun semicolon rest hbefore hsemicolon => .pure ?_) (fun _ _ _ _ => ?_)
  · subst hbefore
    exact .noInitial hsemicolon
  · refine .bind_accept (fun word rest hbefore hword => ?_) (fun _ _ _ _ => ?_)
    · subst hbefore
      refine (sound_variableItem hsub).bind fun node after _ hnode => .pure ?_
      exact .variableInitial (.word hword) hnode
    · refine (sound_expressionStatement hsub).bind fun node after _ hnode => .pure ?_
      exact .discardInitial hnode

private theorem sound_forStatement {word : Token} (hword : word.kind = .forWord) :
    Sound origin before (forStatement sub) (Finds .statement (word :: before)) := by
  refine .bind_expect fun opening rest hbefore hopening => ?_
  refine (sound_initialClause hsub).bind fun initial clauses _ hinitial => ?_
  refine (sound_expressionBefore hsub).bind fun condition mid _ hcondition => ?_
  refine .bind_expect fun semicolon tail hmid hsemicolon => ?_
  refine (sound_expressionBefore hsub).bind fun increment mid' _ hincrement => ?_
  refine .bind_expect fun closing inner hmid' hclosing => ?_
  refine (sound_statement hsub).bind fun body after _ hbody => .pure ?_
  subst hbefore hmid hmid'
  obtain ⟨isOpen, hbody, helse⟩ := hbody
  rw [countingLoop_eq_counting]
  exact ⟨isOpen, .forStatement hword hopening hinitial hcondition hsemicolon hincrement hclosing
    hbody, helse⟩

private theorem sound_whileStatement {word : Token} (hword : word.kind = .whileWord) :
    Sound origin before (whileStatement sub) (Finds .statement (word :: before)) := by
  refine .bind_expect fun opening rest hbefore hopening => ?_
  refine (sound_expression hsub).bind fun condition mid _ hcondition => ?_
  refine .bind_expect fun closing inner hmid hclosing => ?_
  refine (sound_statement hsub).bind fun body after _ hbody => .pure ?_
  subst hbefore hmid
  obtain ⟨isOpen, hbody, helse⟩ := hbody
  exact ⟨isOpen, .whileStatement hword hopening hcondition hclosing hbody, helse⟩

private theorem sound_ifStatement {word : Token} (hword : word.kind = .ifWord) :
    Sound origin before (ifStatement sub) (Finds .statement (word :: before)) := by
  refine .bind_expect fun opening rest hbefore hopening => ?_
  refine (sound_expression hsub).bind fun condition mid _ hcondition => ?_
  refine .bind_expect fun closing inner hmid hclosing => ?_
  refine (sound_statement hsub).bind fun thenBranch tail _ hthen => ?_
  have helseWord : Kind.elseWord ≠ .endOfInput := by decide
  refine (sound_announced helseWord (hsub .statement)).bind fun elseBranch after _ helse => .pure ?_
  subst hbefore hmid
  obtain ⟨isOpen, hthen, hopen⟩ := hthen
  obtain ⟨otherwise, last, node, htail, hotherwise, rfl, helse⟩ | ⟨rfl, rfl, hnot⟩ := helse
  · subst htail
    obtain ⟨isOpen', helse, hopen'⟩ := helse
    -- an open branch would have taken the `else`
    have hclosed : isOpen = false := by
      rw [← Bool.not_eq_true]
      exact fun h => hopen h (startsWith_cons.mpr (List.mem_singleton.mpr hotherwise))
    subst hclosed
    exact ⟨isOpen', .ifElseStatement hword hopening hcondition hclosing hthen hotherwise helse,
      hopen'⟩
  · exact ⟨true, .ifStatement hword hopening hcondition hclosing hthen, fun _ => hnot⟩

private theorem sound_statementParser :
    Sound before before (parser sub .statement) (Finds .statement before) := by
  refine .bind_accept? (fun word rest hbefore hword => ?_) (fun _ _ _ _ => ?_)
  · subst hbefore
    dsimp only
    split
    · next hkind => exact sound_returnStatement hsub hkind
    · next hkind => exact sound_forStatement hsub hkind
    · next hkind => exact sound_whileStatement hsub hkind
    · next hkind => exact sound_ifStatement hsub hkind
    · have hbrace : word.kind = .leftBrace := by simp_all
      refine (sound_blockItems hsub).bind fun nodes after _ hnodes => .pure ?_
      obtain ⟨closing, hclosing, hnodes⟩ := hnodes
      exact ⟨false, .blockStatement (.block hbrace hnodes hclosing), Bool.noConfusion⟩
  · refine (sound_expressionStatement hsub).mono fun node after hnode => ?_
    exact ⟨false, .discardStatement hnode, Bool.noConfusion⟩

private theorem sound_declarationParser :
    Sound before before (parser sub .declaration) (Finds .declaration before) := by
  refine .bind_accept (fun word rest hbefore hword => ?_) (fun _ _ _ _ => ?_)
  · subst hbefore
    exact (sound_function hsub).mono fun node after hnode =>
      ⟨false, .functionDeclaration hword hnode⟩
  · refine .bind_accept (fun word rest hbefore hword => ?_) (fun _ _ _ _ => ?_)
    · subst hbefore
      exact (sound_variableItem hsub).mono fun node after hnode =>
        ⟨false, .variableDeclaration hword hnode⟩
    · refine (sound_statement hsub).mono fun node after hnode => ?_
      obtain ⟨isOpen, hnode, -⟩ := hnode
      exact ⟨isOpen, .statementDeclaration hnode⟩

/-! ### Expressions -/

private theorem sound_assignment :
    Sound before before (parser sub .assignment) (Finds .assignment before) := by
  refine (hsub .ternary before).bind fun target mid hreads htarget => ?_
  refine .bind_accept? (fun equals rest hmid hequals => ?_) (fun _ _ _ _ => ?_)
  · subst hmid
    rw [List.mem_singleton] at hequals
    refine (hsub .assignment rest).reached.bind fun value after hrest hvalue => ?_
    split
    · obtain ⟨rfl, hname⟩ := Derives.eq_cons_of_reference htarget
      exact .pure (.assignment hname hequals hvalue)
    · exact .complain hreads (.step (by rw [hequals]; decide) hrest)
  · exact .pure (.noAssignment htarget)

private theorem sound_ternary :
    Sound before before (parser sub .ternary) (Finds .ternary before) := by
  refine (hsub .disjunction before).bind fun condition mid _ hcondition => ?_
  refine .bind_accept (fun question rest hmid hquestion => ?_) (fun _ _ _ _ => ?_)
  · refine (sound_expression hsub).bind fun thenBranch tail _ hthen => ?_
    refine .bind_expect fun colon last htail hcolon => ?_
    refine (hsub .ternary last).reached.bind fun elseBranch after _ helse => .pure ?_
    subst hmid htail
    exact .ternary hcondition hquestion hthen hcolon helse
  · exact .pure (.noTernary hcondition)

/-- The parser of a level joins operands from the left. -/
private theorem sound_level {rule : Rule} {level : Level} (hlevel : rule.level? = some level) :
    Sound before before (parser sub rule) (rule.Finds before) := by
  have hoperand (before : List Token) : Sound before before (sub level.operand) fun node after =>
      Writes (.expression level.operand node) before after := by
    cases rule <;> cases hlevel <;> exact hsub _ before
  suffices h : Sound before before (chain (sub level.operand) level.operators level.join)
      fun node after => Writes (.expression rule node) before after by
    cases rule <;> cases hlevel <;> exact h
  refine (hoperand before).bind fun first start _ hfirst => ?_
  -- whatever follows the tree so far also follows the first operand
  refine .iterate (fun left mid => ∀ node after, Writes (.operands level left node) mid after →
    Writes (.operands level first node) start after) ?_ fun _ _ h => h
  intro left mid hleft
  refine .bind_accept? (fun operator rest hmid hoperator => ?_) (fun _ _ _ _ => .pure ?_)
  · refine (hoperand rest).reached.bind fun right next hrest hright => .pure ?_
    subst hmid
    refine ⟨Nat.lt_succ_of_le hrest.length_le, fun node after hnode => ?_⟩
    exact hleft _ _ (.moreOperands hoperator hright hnode)
  · exact .level hlevel hfirst (hleft _ _ .noOperands)

private theorem sound_unary :
    Sound before before (parser sub .unary) (Finds .unary before) := by
  refine .bind_accept? (fun operator rest hbefore hoperator => ?_) (fun _ _ _ _ => ?_)
  · subst hbefore
    refine (hsub .unary rest).reached.bind fun right after hrest hright => ?_
    split
    · next hkind =>
      have hunary : operator.kind ∈ unaryOperators := by simpa [unaryOperators] using hkind
      exact .pure (.unary hunary hright)
    · next hkind =>
      have hstep : operator.kind ∈ stepOperators := by
        rw [stepOperators]
        grind
      split
      · obtain ⟨rfl, hname⟩ := Derives.eq_cons_of_reference hright
        exact .pure (.stepBefore hstep hname)
      · refine .complain (.refl _) (.step ?_ hrest)
        intro hend
        simp [hend] at hoperator
  · exact (hsub .step before).mono fun node after hnode => .noUnary hnode

private theorem sound_step :
    Sound before before (parser sub .step) (Finds .step before) := by
  refine (hsub .call before).bind fun operand mid hreads hoperand => ?_
  refine .bind_accept? (fun operator rest hmid hoperator => ?_) (fun _ _ _ _ => ?_)
  · subst hmid
    dsimp only
    split
    · obtain ⟨rfl, hname⟩ := Derives.eq_cons_of_reference hoperand
      exact .pure (.stepAfter hname hoperator)
    · refine .complain hreads (.step ?_ (.refl rest))
      intro hend
      simp [hend] at hoperator
  · exact .pure (.noStep hoperand)

private theorem sound_calls :
    Sound before before (calls sub) (Finds .call before) := by
  refine (hsub .primary before).bind fun first start _ hfirst => ?_
  refine .iterate (fun callee mid => ∀ node after, Writes (.calls callee node) mid after →
    Writes (.calls first node) start after) ?_ fun _ _ h => h
  intro callee mid hcallee
  refine .bind_accept (fun opening rest hmid hopening => ?_) (fun _ _ _ _ => .pure ?_)
  · refine (sound_arguments hsub).bind fun args tail htail hargs => ?_
    refine .bind_expect fun closing next htail' hclosing => .pure ?_
    subst hmid htail'
    refine ⟨?_, fun node after hnode => ?_⟩
    · have hlength := htail.length_le
      simp only [List.length_cons] at *
      omega
    · exact hcallee _ _ (.moreCalls hopening hargs.2 hargs.1 hclosing hnode)
  · exact .call hfirst (hcallee _ _ .noCalls)

private theorem sound_primaryItem :
    Sound before before (primaryItem sub) (Finds .primary before) := by
  refine .bind_accept? (fun word rest hbefore hword => ?_) (fun _ _ _ _ => ?_)
  · subst hbefore
    dsimp only
    split
    · next hkind => exact .pure (.constant (by rw [Token.constant?, hkind]))
    · next hkind => exact .pure (.constant (by rw [Token.constant?, hkind]))
    · next hkind => exact .pure (.constant (by rw [Token.constant?, hkind]))
    · next hkind => exact .pure (.reference hkind)
    · next hkind =>
      refine (sound_expression hsub).bind fun node mid _ hnode => ?_
      refine .bind_expect fun closing after hmid hclosing => .pure ?_
      subst hmid
      exact .grouping hkind hnode hclosing
    · have hliteral : word.kind = .number ∨ word.kind = .string := by simp_all
      refine .pure (.constant ?_)
      obtain hkind | hkind := hliteral <;> rw [Token.constant?, hkind]
  · refine .bind_peek fun token rest hbefore => ?_
    subst hbefore
    exact .complain (.refl _) (.refl _)

/-- The parser of a rule is sound if it is given sound parsers. -/
theorem sound_rule (rule : Rule) (before : List Token) :
    Sound before before (parser sub rule) (rule.Finds before) := by
  cases rule with
  | declaration => exact sound_declarationParser hsub
  | statement => exact sound_statementParser hsub
  | expression => exact (hsub .assignment before).mono fun node after hnode => .expression hnode
  | assignment => exact sound_assignment hsub
  | ternary => exact sound_ternary hsub
  | disjunction | conjunction | equality | bitwise | comparison | sum | product =>
    exact sound_level hsub rfl
  | unary => exact sound_unary hsub
  | step => exact sound_step hsub
  | call => exact sound_calls hsub
  | primary => exact sound_primaryItem hsub

end

/-- The parser of the grammar is sound at every depth. -/
theorem sound_parseWithin (depth : Nat) : SoundRules (parseWithin depth) := by
  induction depth with
  | zero => exact fun _ _ _ => .inl rfl
  | succ depth ih => exact sound_rule ih

end Rule

end Script
