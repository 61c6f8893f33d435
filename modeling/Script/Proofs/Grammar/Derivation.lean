import Script.Grammar.Rule

/-!
# Derivations

The grammar as a relation, said without a parser. `Derives keyword phrase before after` holds when
the tokens of `before` down to its rest `after` form a phrase, and the phrase names the tree they
stand for. Nothing in the relation looks ahead or prefers a longer phrase: where a parser decides,
a derivation may choose.

Three conventions make the tree of a program unique. A statement is *open* when it ends in an `if`
without an `else`; the first branch of an `if` with an `else` is not open, so an `else` belongs to
the nearest `if`. Operands of one level are joined from the left. The semicolon of an expression
that is a statement is missing only before the mark of the end of the input.

The variable that starts a counting loop stands behind a keyword. The grammar has the keyword as a
parameter, because in its short form, which writes the clause without one, it describes another
language.

## Main definitions

* `Phrase` : what a stretch of tokens can be.
* `Derives` : the productions of the grammar.
* `IsProgram` : the tokens of a program.
-/

namespace Script

/-- A level of binary operators: the rule of its operands, its operators, and the tree of two
operands with an operator between them. -/
structure Level where
  operand : Rule
  operators : List Kind
  join : Node → Token → Node → Node

/-- The levels of binary operators, from the loosest to the tightest. -/
def Rule.level? : Rule → Option Level
  | .disjunction => some ⟨.conjunction, [.orOr], .logical⟩
  | .conjunction => some ⟨.equality, [.andAnd], .logical⟩
  | .equality => some ⟨.bitwise, [.bangEqual, .equalEqual], .binary⟩
  | .bitwise => some ⟨.comparison, [.ampersand, .pipe], .binary⟩
  | .comparison => some ⟨.sum, [.greater, .greaterEqual, .less, .lessEqual], .binary⟩
  | .sum => some ⟨.product, [.minus, .plus], .binary⟩
  | .product => some ⟨.unary, [.slash, .star], .binary⟩
  | _ => none

/-- The operators that count a variable up or down. -/
def stepOperators : List Kind := [.plusPlus, .minusMinus]

/-- The operators on one operand. -/
def unaryOperators : List Kind := [.bang, .minus]

/-- The constant that a token is on its own. -/
def Token.constant? (t : Token) : Option Constant :=
  match t.kind with
  | .falseWord => some (.bool false)
  | .trueWord => some (.bool true)
  | .nullWord => some .null
  | .number | .string => some t.literal
  | _ => none

/-- A counting loop without its own node. A missing condition is true; the increment follows the
body in a block, and the initial statement precedes the loop in another one. -/
def Node.counting (initial condition increment : Option Node) (body : Node) : Node :=
  let condition := condition.getD (.literal (.bool true))
  match initial, increment with
  | none, none => .loop condition body
  | none, some increment => .loop condition (.block [body, .discard increment])
  | some initial, none => .block [initial, .loop condition body]
  | some initial, some increment =>
    .block [initial, .loop condition (.block [body, .discard increment])]

/-- What a stretch of tokens can be, with the trees it stands for. Phrases that may be empty are
lists and optional parts. -/
inductive Phrase where
  /-- Any number of declarations. -/
  | declarations (nodes : List Node)
  /-- A declaration or a statement, which may be open. -/
  | declaration (isOpen : Bool) (node : Node)
  /-- A function behind its keyword. -/
  | function (node : Node)
  /-- The parameters of a function, if there are any. -/
  | parameters (names : List Token)
  /-- Names with commas between them. -/
  | names (names : List Token)
  /-- A variable behind its keyword, with its semicolon. -/
  | variableItem (node : Node)
  /-- A statement, which may be open. -/
  | statement (isOpen : Bool) (node : Node)
  /-- Declarations in braces. -/
  | block (nodes : List Node)
  /-- An expression as a statement. -/
  | discard (node : Node)
  /-- The first clause of a counting loop, with its semicolon. -/
  | initial (node : Option Node)
  /-- An expression, if there is one. -/
  | optional (node : Option Node)
  /-- An expression of a rule. -/
  | expression (rule : Rule) (node : Node)
  /-- Operators and operands of a level that follow the operand `left`. -/
  | operands (level : Level) (left node : Node)
  /-- Argument lists that follow a callee. -/
  | calls (callee node : Node)
  /-- The arguments of a call, if there are any. -/
  | arguments (args : List Node)
  /-- Expressions with commas between them. -/
  | expressions (args : List Node)

/-- The tokens start with one of a kind, if there is one to start with. -/
inductive Marked : Option Kind → List Token → List Token → Prop
  | bare (tokens : List Token) : Marked none tokens tokens
  | word {kind : Kind} {word : Token} {after : List Token} (hword : word.kind = kind) :
      Marked (some kind) (word :: after) after

/-- The productions of the grammar, in which the variable that starts a counting loop stands behind
a keyword if one is given. -/
inductive Derives (keyword : Option Kind) : Phrase → List Token → List Token → Prop
  -- declarations
  | noDeclarations {tokens : List Token} : Derives keyword (.declarations []) tokens tokens
  | moreDeclarations {isOpen : Bool} {node : Node} {nodes : List Node}
      {before mid after : List Token}
      (hfirst : Derives keyword (.declaration isOpen node) before mid)
      (hrest : Derives keyword (.declarations nodes) mid after) :
      Derives keyword (.declarations (node :: nodes)) before after
  | functionDeclaration {word : Token} {node : Node} {rest after : List Token}
      (hword : word.kind = .funWord) (hitem : Derives keyword (.function node) rest after) :
      Derives keyword (.declaration false node) (word :: rest) after
  | variableDeclaration {word : Token} {node : Node} {rest after : List Token}
      (hword : word.kind = .varWord) (hitem : Derives keyword (.variableItem node) rest after) :
      Derives keyword (.declaration false node) (word :: rest) after
  | statementDeclaration {isOpen : Bool} {node : Node} {before after : List Token}
      (hstatement : Derives keyword (.statement isOpen node) before after) :
      Derives keyword (.declaration isOpen node) before after
  -- functions
  | function {name opening closing : Token} {params : List Token} {body : List Node}
      {rest tail after : List Token} (hname : name.kind = .identifier)
      (hopening : opening.kind = .leftParen)
      (hparams : Derives keyword (.parameters params) rest (closing :: tail))
      (hcount : params.length ≤ 255) (hclosing : closing.kind = .rightParen)
      (hbody : Derives keyword (.block body) tail after) :
      Derives keyword (.function (.function name params body)) (name :: opening :: rest) after
  | noParameters {tokens : List Token} : Derives keyword (.parameters []) tokens tokens
  | someParameters {names before after : List Token}
      (hnames : Derives keyword (.names names) before after) :
      Derives keyword (.parameters names) before after
  | lastName {name : Token} {after : List Token} (hname : name.kind = .identifier) :
      Derives keyword (.names [name]) (name :: after) after
  | moreNames {name comma : Token} {names rest after : List Token}
      (hname : name.kind = .identifier) (hcomma : comma.kind = .comma)
      (hrest : Derives keyword (.names names) rest after) :
      Derives keyword (.names (name :: names)) (name :: comma :: rest) after
  -- variables
  | variableItem {name semicolon : Token} {after : List Token} (hname : name.kind = .identifier)
      (hsemicolon : semicolon.kind = .semicolon) :
      Derives keyword (.variableItem (.declaration name none)) (name :: semicolon :: after) after
  | initializedItem {name equals semicolon : Token} {value : Node} {rest after : List Token}
      (hname : name.kind = .identifier) (hequals : equals.kind = .equal)
      (hvalue : Derives keyword (.expression .expression value) rest (semicolon :: after))
      (hsemicolon : semicolon.kind = .semicolon) :
      Derives keyword (.variableItem (.declaration name (some value))) (name :: equals :: rest)
        after
  -- statements
  | returnStatement {word semicolon : Token} {value : Option Node} {rest after : List Token}
      (hword : word.kind = .returnWord)
      (hvalue : Derives keyword (.optional value) rest (semicolon :: after))
      (hsemicolon : semicolon.kind = .semicolon) :
      Derives keyword (.statement false (.result word value)) (word :: rest) after
  | forStatement {isOpen : Bool} {word opening semicolon closing : Token}
      {initial condition increment : Option Node} {body : Node}
      {rest clauses tail inner after : List Token} (hword : word.kind = .forWord)
      (hopening : opening.kind = .leftParen)
      (hinitial : Derives keyword (.initial initial) rest clauses)
      (hcondition : Derives keyword (.optional condition) clauses (semicolon :: tail))
      (hsemicolon : semicolon.kind = .semicolon)
      (hincrement : Derives keyword (.optional increment) tail (closing :: inner))
      (hclosing : closing.kind = .rightParen)
      (hbody : Derives keyword (.statement isOpen body) inner after) :
      Derives keyword (.statement isOpen (.counting initial condition increment body))
        (word :: opening :: rest) after
  | whileStatement {isOpen : Bool} {word opening closing : Token} {condition body : Node}
      {rest inner after : List Token} (hword : word.kind = .whileWord)
      (hopening : opening.kind = .leftParen)
      (hcondition : Derives keyword (.expression .expression condition) rest (closing :: inner))
      (hclosing : closing.kind = .rightParen)
      (hbody : Derives keyword (.statement isOpen body) inner after) :
      Derives keyword (.statement isOpen (.loop condition body)) (word :: opening :: rest) after
  | ifStatement {isOpen : Bool} {word opening closing : Token} {condition thenBranch : Node}
      {rest inner after : List Token} (hword : word.kind = .ifWord)
      (hopening : opening.kind = .leftParen)
      (hcondition : Derives keyword (.expression .expression condition) rest (closing :: inner))
      (hclosing : closing.kind = .rightParen)
      (hthen : Derives keyword (.statement isOpen thenBranch) inner after) :
      Derives keyword (.statement true (.branch condition thenBranch none))
        (word :: opening :: rest) after
  | ifElseStatement {isOpen : Bool} {word opening closing otherwise : Token}
      {condition thenBranch elseBranch : Node} {rest inner tail after : List Token}
      (hword : word.kind = .ifWord) (hopening : opening.kind = .leftParen)
      (hcondition : Derives keyword (.expression .expression condition) rest (closing :: inner))
      (hclosing : closing.kind = .rightParen)
      (hthen : Derives keyword (.statement false thenBranch) inner (otherwise :: tail))
      (hotherwise : otherwise.kind = .elseWord)
      (helse : Derives keyword (.statement isOpen elseBranch) tail after) :
      Derives keyword (.statement isOpen (.branch condition thenBranch (some elseBranch)))
        (word :: opening :: rest) after
  | blockStatement {nodes : List Node} {before after : List Token}
      (hblock : Derives keyword (.block nodes) before after) :
      Derives keyword (.statement false (.block nodes)) before after
  | discardStatement {node : Node} {before after : List Token}
      (hdiscard : Derives keyword (.discard node) before after) :
      Derives keyword (.statement false node) before after
  | block {opening closing : Token} {nodes : List Node} {rest after : List Token}
      (hopening : opening.kind = .leftBrace)
      (hnodes : Derives keyword (.declarations nodes) rest (closing :: after))
      (hclosing : closing.kind = .rightBrace) :
      Derives keyword (.block nodes) (opening :: rest) after
  | discard {semicolon : Token} {node : Node} {before after : List Token}
      (hnode : Derives keyword (.expression .expression node) before (semicolon :: after))
      (hsemicolon : semicolon.kind = .semicolon) :
      Derives keyword (.discard (.discard node)) before after
  | discardAtEnd {mark : Token} {node : Node} {before after : List Token}
      (hnode : Derives keyword (.expression .expression node) before (mark :: after))
      (hmark : mark.kind = .endOfInput) :
      Derives keyword (.discard (.discard node)) before (mark :: after)
  -- clauses
  | noInitial {semicolon : Token} {after : List Token} (hsemicolon : semicolon.kind = .semicolon) :
      Derives keyword (.initial none) (semicolon :: after) after
  | variableInitial {node : Node} {before rest after : List Token}
      (hmarked : Marked keyword before rest)
      (hitem : Derives keyword (.variableItem node) rest after) :
      Derives keyword (.initial (some node)) before after
  | discardInitial {node : Node} {before after : List Token}
      (hdiscard : Derives keyword (.discard node) before after) :
      Derives keyword (.initial (some node)) before after
  | absent {tokens : List Token} : Derives keyword (.optional none) tokens tokens
  | present {node : Node} {before after : List Token}
      (hnode : Derives keyword (.expression .expression node) before after) :
      Derives keyword (.optional (some node)) before after
  -- expressions
  | expression {node : Node} {before after : List Token}
      (hnode : Derives keyword (.expression .assignment node) before after) :
      Derives keyword (.expression .expression node) before after
  | assignment {name equals : Token} {value : Node} {rest after : List Token}
      (hname : name.kind = .identifier) (hequals : equals.kind = .equal)
      (hvalue : Derives keyword (.expression .assignment value) rest after) :
      Derives keyword (.expression .assignment (.assignment name value))
        (name :: equals :: rest) after
  | noAssignment {node : Node} {before after : List Token}
      (hnode : Derives keyword (.expression .ternary node) before after) :
      Derives keyword (.expression .assignment node) before after
  | ternary {question colon : Token} {condition thenBranch elseBranch : Node}
      {before rest tail after : List Token}
      (hcondition : Derives keyword (.expression .disjunction condition) before (question :: rest))
      (hquestion : question.kind = .questionMark)
      (hthen : Derives keyword (.expression .expression thenBranch) rest (colon :: tail))
      (hcolon : colon.kind = .colon)
      (helse : Derives keyword (.expression .ternary elseBranch) tail after) :
      Derives keyword (.expression .ternary (.ternary condition thenBranch elseBranch)) before after
  | noTernary {node : Node} {before after : List Token}
      (hnode : Derives keyword (.expression .disjunction node) before after) :
      Derives keyword (.expression .ternary node) before after
  | level {rule : Rule} {level : Level} {left node : Node} {before mid after : List Token}
      (hlevel : rule.level? = some level)
      (hleft : Derives keyword (.expression level.operand left) before mid)
      (hoperands : Derives keyword (.operands level left node) mid after) :
      Derives keyword (.expression rule node) before after
  | noOperands {level : Level} {left : Node} {tokens : List Token} :
      Derives keyword (.operands level left left) tokens tokens
  | moreOperands {level : Level} {operator : Token} {left right node : Node}
      {rest mid after : List Token} (hoperator : operator.kind ∈ level.operators)
      (hright : Derives keyword (.expression level.operand right) rest mid)
      (hoperands :
        Derives keyword (.operands level (level.join left operator right) node) mid after) :
      Derives keyword (.operands level left node) (operator :: rest) after
  | stepBefore {operator name : Token} {after : List Token}
      (hoperator : operator.kind ∈ stepOperators) (hname : name.kind = .identifier) :
      Derives keyword (.expression .unary (.stepBefore name operator))
        (operator :: name :: after) after
  | unary {operator : Token} {right : Node} {rest after : List Token}
      (hoperator : operator.kind ∈ unaryOperators)
      (hright : Derives keyword (.expression .unary right) rest after) :
      Derives keyword (.expression .unary (.unary operator right)) (operator :: rest) after
  | noUnary {node : Node} {before after : List Token}
      (hnode : Derives keyword (.expression .step node) before after) :
      Derives keyword (.expression .unary node) before after
  | stepAfter {name operator : Token} {after : List Token} (hname : name.kind = .identifier)
      (hoperator : operator.kind ∈ stepOperators) :
      Derives keyword (.expression .step (.stepAfter name operator)) (name :: operator :: after)
        after
  | noStep {node : Node} {before after : List Token}
      (hnode : Derives keyword (.expression .call node) before after) :
      Derives keyword (.expression .step node) before after
  | call {callee node : Node} {before mid after : List Token}
      (hcallee : Derives keyword (.expression .primary callee) before mid)
      (hcalls : Derives keyword (.calls callee node) mid after) :
      Derives keyword (.expression .call node) before after
  | noCalls {callee : Node} {tokens : List Token} :
      Derives keyword (.calls callee callee) tokens tokens
  | moreCalls {opening closing : Token} {callee node : Node} {args : List Node}
      {rest mid after : List Token} (hopening : opening.kind = .leftParen)
      (hargs : Derives keyword (.arguments args) rest (closing :: mid))
      (hcount : args.length ≤ 255) (hclosing : closing.kind = .rightParen)
      (hcalls : Derives keyword (.calls (.call callee closing args) node) mid after) :
      Derives keyword (.calls callee node) (opening :: rest) after
  | noArguments {tokens : List Token} : Derives keyword (.arguments []) tokens tokens
  | someArguments {args : List Node} {before after : List Token}
      (hargs : Derives keyword (.expressions args) before after) :
      Derives keyword (.arguments args) before after
  | lastExpression {node : Node} {before after : List Token}
      (hnode : Derives keyword (.expression .expression node) before after) :
      Derives keyword (.expressions [node]) before after
  | moreExpressions {comma : Token} {node : Node} {args : List Node}
      {before rest after : List Token}
      (hnode : Derives keyword (.expression .expression node) before (comma :: rest))
      (hcomma : comma.kind = .comma)
      (hrest : Derives keyword (.expressions args) rest after) :
      Derives keyword (.expressions (node :: args)) before after
  | constant {word : Token} {value : Constant} {after : List Token}
      (hword : word.constant? = some value) :
      Derives keyword (.expression .primary (.literal value)) (word :: after) after
  | reference {name : Token} {after : List Token} (hname : name.kind = .identifier) :
      Derives keyword (.expression .primary (.reference name)) (name :: after) after
  | grouping {opening closing : Token} {node : Node} {rest after : List Token}
      (hopening : opening.kind = .leftParen)
      (hnode : Derives keyword (.expression .expression node) rest (closing :: after))
      (hclosing : closing.kind = .rightParen) :
      Derives keyword (.expression .primary (.grouping node)) (opening :: rest) after

/-- The tokens of a program: declarations and the mark of the end of the input. -/
def IsProgram (keyword : Option Kind) (tokens : List Token) (program : List Node) : Prop :=
  ∃ mark, mark.kind = .endOfInput ∧ Derives keyword (.declarations program) tokens [mark]

/-! ### What phrases start with -/

/-- The tokens start with one of some kinds. -/
def StartsWith (kinds : List Kind) (tokens : List Token) : Prop :=
  ∃ first rest, tokens = first :: rest ∧ first.kind ∈ kinds

@[simp] theorem startsWith_cons {kinds : List Kind} {first : Token} {rest : List Token} :
    StartsWith kinds (first :: rest) ↔ first.kind ∈ kinds := by
  constructor
  · rintro ⟨_, _, h, hkind⟩
    cases h
    exact hkind
  · exact fun hkind => ⟨first, rest, rfl, hkind⟩

theorem StartsWith.mono {kinds others : List Kind} {tokens : List Token}
    (h : StartsWith kinds tokens) (hsub : kinds ⊆ others) : StartsWith others tokens := by
  obtain ⟨first, rest, rfl, hkind⟩ := h
  exact ⟨first, rest, rfl, hsub hkind⟩

/-- The kinds of tokens that an expression without an operator in front can start with. -/
def primaryStarts : List Kind :=
  [.falseWord, .trueWord, .nullWord, .number, .string, .identifier, .leftParen]

/-- The kinds of tokens that an expression can start with. -/
def expressionStarts : List Kind :=
  primaryStarts ++ stepOperators ++ unaryOperators

/-- The kinds of tokens that an expression of a rule can start with. -/
def Rule.starts : Rule → List Kind
  | .step | .call | .primary => primaryStarts
  | _ => expressionStarts

theorem Rule.starts_subset (rule : Rule) : rule.starts ⊆ expressionStarts := by
  cases rule <;> decide

/-- The kinds of tokens that a statement can start with. -/
def statementStarts : List Kind :=
  [.returnWord, .forWord, .whileWord, .ifWord, .leftBrace] ++ expressionStarts

/-- The kinds of tokens that a declaration can start with. -/
def declarationStarts : List Kind :=
  [.funWord, .varWord] ++ statementStarts

/-- A phrase starts as it can. Phrases that may be empty can start with anything, and so can the
first clause of a counting loop, which depends on the keyword. -/
def Phrase.Starts : Phrase → List Token → Prop
  | .declaration .., tokens => StartsWith declarationStarts tokens
  | .function _, tokens | .names _, tokens | .variableItem _, tokens =>
    StartsWith [.identifier] tokens
  | .statement .., tokens => StartsWith statementStarts tokens
  | .block _, tokens => StartsWith [.leftBrace] tokens
  | .discard _, tokens | .expressions _, tokens => StartsWith expressionStarts tokens
  | .expression rule _, tokens => StartsWith rule.starts tokens
  | _, _ => True

theorem Token.kind_mem_primaryStarts {t : Token} {value : Constant}
    (h : t.constant? = some value) : t.kind ∈ primaryStarts := by
  simp only [Token.constant?] at h
  split at h <;> simp_all [primaryStarts]

/-- The least number of tokens of a phrase, where it matters whether there are any. -/
def Phrase.minLength : Phrase → Nat
  | .declaration .. | .function _ | .variableItem _ | .statement .. | .block _ | .discard _
  | .expression .. => 1
  | _ => 0

namespace Derives

variable {keyword : Option Kind} {phrase : Phrase} {before after : List Token}

/-- Every phrase starts as it can. -/
theorem starts (h : Derives keyword phrase before after) : phrase.Starts before := by
  induction h with
  | statementDeclaration _ ih => exact StartsWith.mono ih (List.subset_append_right _ _)
  | blockStatement _ ih => exact StartsWith.mono ih (by simp [statementStarts])
  | discardStatement _ ih => exact StartsWith.mono ih (List.subset_append_right _ _)
  | level hlevel _ _ ih =>
    refine StartsWith.mono ih ?_
    rename Rule => rule
    cases rule <;> cases hlevel <;> exact Rule.starts_subset _
  | stepBefore hoperator =>
    exact startsWith_cons.mpr (List.mem_append_left _ (List.mem_append_right _ hoperator))
  | unary hoperator => exact startsWith_cons.mpr (List.mem_append_right _ hoperator)
  | noUnary _ ih => exact StartsWith.mono ih (Rule.starts_subset _)
  | constant hword => exact startsWith_cons.mpr (Token.kind_mem_primaryStarts hword)
  | _ =>
    simp_all [Phrase.Starts, declarationStarts, statementStarts, Rule.starts, expressionStarts,
      primaryStarts]

/-! ### How long phrases are -/

/-- A phrase has at least its least number of tokens. -/
theorem length_add_le (h : Derives keyword phrase before after) :
    after.length + phrase.minLength ≤ before.length := by
  induction h with
  | variableInitial hmarked _ ih => cases hmarked <;> grind [Phrase.minLength]
  | _ => grind [Phrase.minLength]

/-! ### Names -/

private theorem operands_reference {level : Level} {left : Node} {name : Token}
    (hjoin : ∀ left operator right, level.join left operator right ≠ .reference name)
    (h : Derives keyword (.operands level left (.reference name)) before after) :
    left = .reference name ∧ before = after := by
  generalize hphrase : Phrase.operands level left (.reference name) = phrase at h
  induction h generalizing left with
  | noOperands =>
    cases hphrase
    exact ⟨rfl, rfl⟩
  | moreOperands _ _ _ _ ih =>
    cases hphrase
    exact absurd (ih rfl).1 (hjoin _ _ _)
  | _ => cases hphrase

private theorem calls_reference {callee : Node} {name : Token}
    (h : Derives keyword (.calls callee (.reference name)) before after) :
    callee = .reference name ∧ before = after := by
  generalize hphrase : Phrase.calls callee (.reference name) = phrase at h
  induction h generalizing callee with
  | noCalls =>
    cases hphrase
    exact ⟨rfl, rfl⟩
  | moreCalls _ _ _ _ _ _ ih =>
    cases hphrase
    cases (ih rfl).1
  | _ => cases hphrase

/-- The tree of a level is never a name, unless the level has one operand only. -/
private theorem join_ne_reference {rule : Rule} {level : Level} (hlevel : rule.level? = some level)
    (left : Node) (operator : Token) (right : Node) (name : Token) :
    level.join left operator right ≠ .reference name := by
  cases rule <;> cases hlevel <;> exact Node.noConfusion

/-- An expression whose tree is a name consists of that name. -/
theorem eq_cons_of_reference {rule : Rule} {name : Token}
    (h : Derives keyword (.expression rule (.reference name)) before after) :
    before = name :: after ∧ name.kind = .identifier := by
  generalize hphrase : Phrase.expression rule (.reference name) = phrase at h
  induction h generalizing rule with
  | level hlevel _ hoperands ih =>
    cases hphrase
    obtain ⟨rfl, rfl⟩ := operands_reference (join_ne_reference hlevel · · · name) hoperands
    exact ih rfl
  | call _ hcalls ih =>
    cases hphrase
    obtain ⟨rfl, rfl⟩ := calls_reference hcalls
    exact ih rfl
  | expression _ ih | noAssignment _ ih | noTernary _ ih | noUnary _ ih | noStep _ ih =>
    cases hphrase
    exact ih rfl
  | reference hname =>
    cases hphrase
    exact ⟨rfl, hname⟩
  | _ => cases hphrase

end Derives

end Script
