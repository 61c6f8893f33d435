import Script.Proofs.Tree.Leaves
import Script.Proofs.Tree.WellFormed

/-!
# Shapes of trees

A node that is no leaf is shown as its head and its parts. The head is a word and the names behind
it, and the parts are trees. Each form has a word of its own, apart from operators: an operator on
one operand may have the word of an operator on two, and the number of the parts tells them apart.
So a tree is put together again from its head and its parts, up to the places of its tokens.

## Main definitions

* `Node.parts`, `Node.head?` : what a node is shown as.
* `Head.assemble` : the tree with a head and some parts.
* `Node.IsBuilt` : the trees of the grammar with all their tokens.

## Main results

* `Node.render_of_head?` : the text of a tree is that of its head and its parts.
* `Node.forget_eq_assemble` : a tree is assembled from its head and its parts.
-/

namespace Script

/-! ### Heads -/

/-- The forms of trees with parts, with an operator where a form has several. -/
inductive Form where
  | assignment
  | sign (operator : Kind)
  | ternary
  | grouping
  | call
  | stepAfter (operator : Kind)
  | stepBefore (operator : Kind)
  | discard
  | declaration
  | block
  | branch
  | loop
  | function
  | result
deriving DecidableEq

/-- The word that a form is shown with. -/
def Form.word : Form → String
  | assignment => "="
  | sign operator => operator.spelling
  | ternary => "?:"
  | grouping => "group"
  | call => "call"
  | stepAfter operator => "postfix" ++ operator.spelling
  | stepBefore operator => "prefix" ++ operator.spelling
  | discard => ";"
  | declaration => "var"
  | block => "block"
  | branch => "if"
  | loop => "while"
  | function => "fun"
  | result => "return"

/-- The head of a tree: its form, with the names that stand before the parts. -/
inductive Head where
  | bare (form : Form)
  | named (form : Form) (name : String)
  | function (name : String) (params : List String)

namespace Head

/-- The form of a head. -/
def form : Head → Form
  | bare form | named form _ => form
  | function .. => .function

/-- The texts of the names of a head. -/
def names : Head → List String
  | bare _ => []
  | named _ name => [name]
  | function name params => [name, "(" ++ " ".intercalate params ++ ")"]

/-- The tree with a head and some parts, with its tokens in no place. -/
def assemble : Head → List Node → Node
  | bare (.sign operator), [right] => .unary (.ofKind operator) right
  | bare (.sign operator), [left, right] =>
    if operator ∈ logicalOperators then .logical left (.ofKind operator) right
    else .binary left (.ofKind operator) right
  | bare .ternary, [condition, thenBranch, elseBranch] =>
    .ternary condition thenBranch elseBranch
  | bare .grouping, [expression] => .grouping expression
  | bare .call, callee :: args => .call callee (.ofKind .rightParen) args
  | bare .discard, [expression] => .discard expression
  | bare .block, statements => .block statements
  | bare .branch, condition :: thenBranch :: elseBranch =>
    .branch condition thenBranch elseBranch.head?
  | bare .loop, [condition, body] => .loop condition body
  | bare .result, value => .result (.ofKind .returnWord) value.head?
  | named .assignment name, [value] => .assignment (.ofName name) value
  | named .declaration name, initial => .declaration (.ofName name) initial.head?
  | named (.stepAfter operator) name, [] => .stepAfter (.ofName name) (.ofKind operator)
  | named (.stepBefore operator) name, [] => .stepBefore (.ofName name) (.ofKind operator)
  | function name params, body => .function (.ofName name) (params.map .ofName) body
  | _, _ => .unknownStatement

end Head

/-! ### Trees with their tokens -/

/-- The token is one of some text and of a kind among the given ones. -/
def Token.IsOneOf (isOf : Token → Prop) (kinds : List Kind) (token : Token) : Prop :=
  isOf token ∧ token.kind ∈ kinds

namespace Node

/-- The trees that a node is made of. -/
def parts : Node → List Node
  | .assignment _ value => [value]
  | .binary left _ right | .logical left _ right => [left, right]
  | .unary _ right => [right]
  | .ternary condition thenBranch elseBranch => [condition, thenBranch, elseBranch]
  | .grouping expression | .discard expression => [expression]
  | .call callee _ args => callee :: args
  | .declaration _ initial => initial.toList
  | .block statements => statements
  | .branch condition thenBranch elseBranch => condition :: thenBranch :: elseBranch.toList
  | .loop condition body => [condition, body]
  | .function _ _ body => body
  | .result _ value => value.toList
  | _ => []

/-- The head of a node that is no leaf. -/
def head? : Node → Option Head
  | .assignment name _ => some (.named .assignment name.text)
  | .binary _ operator _ | .logical _ operator _ | .unary operator _ =>
    some (.bare (.sign operator.kind))
  | .ternary .. => some (.bare .ternary)
  | .grouping _ => some (.bare .grouping)
  | .call .. => some (.bare .call)
  | .stepAfter name operator => some (.named (.stepAfter operator.kind) name.text)
  | .stepBefore name operator => some (.named (.stepBefore operator.kind) name.text)
  | .discard _ => some (.bare .discard)
  | .declaration name _ => some (.named .declaration name.text)
  | .block _ => some (.bare .block)
  | .branch .. => some (.bare .branch)
  | .loop .. => some (.bare .loop)
  | .function name params _ => some (.function name.text (params.map Token.text))
  | .result .. => some (.bare .result)
  | .literal _ | .reference _ | .unknownExpression | .unknownStatement => none

/-- The tokens of a node, apart from its parts, are of some text and of the kinds that its form has
in the grammar. A constant is that of a token or the condition of a loop without one. -/
def HasTokens (isOf : Token → Prop) : Node → Prop
  | .literal value => (∃ token, isOf token ∧ token.constant? = some value) ∨ value = .bool true
  | .reference name | .assignment name _ | .declaration name _ => name.IsOneOf isOf [.identifier]
  | .binary _ operator _ => operator.IsOneOf isOf binaryOperators
  | .logical _ operator _ => operator.IsOneOf isOf logicalOperators
  | .unary operator _ => operator.IsOneOf isOf unaryOperators
  | .call _ paren _ => paren.IsOneOf isOf [.rightParen]
  | .stepAfter name operator | .stepBefore name operator =>
    name.IsOneOf isOf [.identifier] ∧ operator.IsOneOf isOf stepOperators
  | .function name params _ =>
    name.IsOneOf isOf [.identifier] ∧ ∀ param ∈ params, param.IsOneOf isOf [.identifier]
  | .result word _ => word.IsOneOf isOf [.returnWord]
  | .unknownExpression | .unknownStatement => False
  | _ => True

/-- The trees that have the tokens of the grammar in all their parts. -/
inductive IsBuilt (isOf : Token → Prop) : Node → Prop
  | mk {node : Node} (htokens : node.HasTokens isOf)
      (hparts : ∀ part ∈ node.parts, IsBuilt isOf part) : IsBuilt isOf node

end Node

/-! ### Texts of heads and parts -/

namespace Token

variable {token : Token} {kinds : List Kind}

theorem IsOneOf.of_identifier (h : token.IsOneOf IsPlain [.identifier]) :
    IsName token.text ∧ Relocation.forget token = ofName token.text :=
  h.1.of_identifier (List.mem_singleton.mp h.2)

theorem IsOneOf.of_spelled (h : token.IsOneOf IsPlain kinds)
    (hkinds : ∀ kind ∈ kinds, kind ∈ Kind.spellings.map Prod.fst) :
    token.text = token.kind.spelling ∧ Relocation.forget token = ofKind token.kind :=
  h.1.of_mem_spellings (hkinds _ h.2)

end Token

namespace Node

variable {node : Node} {head : Head}

/-- The text of a tree is that of its head and its parts. -/
theorem render_of_head? (htokens : node.HasTokens Token.IsPlain) (hhead : node.head? = some head)
    (depth : Nat) :
    node.render (depth + 3) = do
      return parenthesize head.form.word (head.names ++ (← node.parts.mapM (render depth))) := by
  cases node with
  | literal | reference | unknownExpression | unknownStatement => cases hhead
  | assignment | ternary | grouping | call | discard | declaration | block | branch | loop
  | function | result =>
    cases hhead
    simp [render, parts, Head.form, Form.word, Head.names]
  | binary | logical | unary =>
    cases hhead
    simp [render, parts, Head.form, Form.word, Head.names, (htokens.of_spelled (by decide)).1]
  | stepAfter | stepBefore =>
    cases hhead
    simp [render, parts, Head.form, Form.word, Head.names, (htokens.2.of_spelled (by decide)).1]

theorem map_head?_toList {α β : Type} (f : α → β) (a : Option α) :
    (a.toList.map f).head? = a.map f := by
  cases a <;> rfl

theorem forget_params {params : List Token}
    (h : ∀ param ∈ params, param.IsOneOf Token.IsPlain [.identifier]) :
    params.map Relocation.forget = (params.map Token.text).map Token.ofName := by
  rw [List.map_map]
  exact List.map_congr_left fun param hparam => (h param hparam).of_identifier.2

/-- A tree is assembled from its head and its parts, up to the places of its tokens. -/
theorem forget_eq_assemble (htokens : node.HasTokens Token.IsPlain)
    (hhead : node.head? = some head) :
    node.relocate .forget = head.assemble (node.parts.map (relocate .forget)) := by
  cases node with
  | literal | reference | unknownExpression | unknownStatement => cases hhead
  | ternary | grouping | discard | loop =>
    cases hhead
    rfl
  | block statements =>
    cases hhead
    rw [relocate, relocateAll_eq_map]
    rfl
  | branch condition thenBranch elseBranch =>
    cases hhead
    rw [relocate, relocateOption_eq_map, ← map_head?_toList]
    rfl
  | assignment name value =>
    cases hhead
    rw [relocate, htokens.of_identifier.2]
    rfl
  | declaration name initial =>
    cases hhead
    rw [relocate, htokens.of_identifier.2, relocateOption_eq_map, ← map_head?_toList]
    rfl
  | binary left operator right =>
    cases hhead
    have hnot : ∀ kind ∈ binaryOperators, kind ∉ logicalOperators := by decide
    rw [relocate, (htokens.of_spelled (by decide)).2]
    exact (if_neg (hnot _ htokens.2)).symm
  | logical left operator right =>
    cases hhead
    rw [relocate, (htokens.of_spelled (by decide)).2]
    exact (if_pos htokens.2).symm
  | unary operator right =>
    cases hhead
    rw [relocate, (htokens.of_spelled (by decide)).2]
    rfl
  | call callee paren args =>
    cases hhead
    rw [relocate, relocateAll_eq_map, (htokens.of_spelled (by decide)).2,
      List.mem_singleton.mp htokens.2]
    rfl
  | result word value =>
    cases hhead
    rw [relocate, relocateOption_eq_map, ← map_head?_toList, (htokens.of_spelled (by decide)).2,
      List.mem_singleton.mp htokens.2]
    rfl
  | stepAfter name operator | stepBefore name operator =>
    cases hhead
    rw [relocate, htokens.1.of_identifier.2, (htokens.2.of_spelled (by decide)).2]
    rfl
  | function name params body =>
    cases hhead
    rw [relocate, relocateAll_eq_map, htokens.1.of_identifier.2, forget_params htokens.2]
    rfl

end Node

end Script
