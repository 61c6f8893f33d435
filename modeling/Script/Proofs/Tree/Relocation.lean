import Script.Tree.Render

/-!
# Moving tokens to other places

A relocation gives tokens new lines and columns and keeps all else that they say. It moves the
tokens of a tree and leaves the tree as it is otherwise, so two trees differ in the places of their
tokens only exactly if forgetting these places makes them equal.

## Main definitions

* `Relocation` : new places for tokens.
* `Relocation.forget` : the relocation that moves all tokens to one place.
* `Node.relocate` : the tree with its tokens moved.

## Main results

* `Node.render_relocate` : the text of a tree does not say where its tokens are.
-/

namespace Script

/-- New places for tokens. -/
structure Relocation where
  line : Token → Int
  column : Token → Int

namespace Relocation

/-- The token at its new place. -/
def apply (r : Relocation) (token : Token) : Token :=
  { token with line := r.line token, column := r.column token }

instance : CoeFun Relocation fun _ => Token → Token :=
  ⟨apply⟩

variable (r : Relocation) (token : Token)

@[simp] theorem kind_apply : (r token).kind = token.kind := rfl

@[simp] theorem text_apply : (r token).text = token.text := rfl

@[simp] theorem literal_apply : (r token).literal = token.literal := rfl

theorem map_text (tokens : List Token) :
    (tokens.map r).map Token.text = tokens.map Token.text :=
  List.map_map

/-- Leaves all tokens where they are. -/
def stay : Relocation :=
  ⟨Token.line, Token.column⟩

@[simp] theorem stay_apply : stay token = token := rfl

theorem map_stay (tokens : List Token) : tokens.map stay = tokens :=
  List.map_id' tokens

/-- Moves all tokens to one place. -/
def forget : Relocation :=
  ⟨fun _ => 0, fun _ => 0⟩

end Relocation

namespace Node

variable (r : Relocation)

mutual

/-- The tree with its tokens moved. -/
def relocate : Node → Node
  | .literal value => .literal value
  | .reference name => .reference (r name)
  | .assignment name value => .assignment (r name) value.relocate
  | .binary left operator right => .binary left.relocate (r operator) right.relocate
  | .logical left operator right => .logical left.relocate (r operator) right.relocate
  | .unary operator right => .unary (r operator) right.relocate
  | .ternary condition thenBranch elseBranch =>
    .ternary condition.relocate thenBranch.relocate elseBranch.relocate
  | .grouping expression => .grouping expression.relocate
  | .call callee paren args => .call callee.relocate (r paren) (relocateAll args)
  | .stepAfter name operator => .stepAfter (r name) (r operator)
  | .stepBefore name operator => .stepBefore (r name) (r operator)
  | .discard expression => .discard expression.relocate
  | .declaration name initial => .declaration (r name) (relocateOption initial)
  | .block statements => .block (relocateAll statements)
  | .branch condition thenBranch elseBranch =>
    .branch condition.relocate thenBranch.relocate (relocateOption elseBranch)
  | .loop condition body => .loop condition.relocate body.relocate
  | .function name params body => .function (r name) (params.map r) (relocateAll body)
  | .result keyword value => .result (r keyword) (relocateOption value)
  | .unknownExpression => .unknownExpression
  | .unknownStatement => .unknownStatement

/-- The trees of a list with their tokens moved. -/
def relocateAll : List Node → List Node
  | [] => []
  | node :: nodes => node.relocate :: relocateAll nodes

/-- The tree that may be there, with its tokens moved. -/
def relocateOption : Option Node → Option Node
  | none => none
  | some node => some node.relocate

end

theorem relocateAll_eq_map (nodes : List Node) : relocateAll r nodes = nodes.map (relocate r) := by
  induction nodes with
  | nil => rfl
  | cons node nodes ih => rw [relocateAll, ih, List.map_cons]

theorem relocateOption_eq_map (node : Option Node) :
    relocateOption r node = node.map (relocate r) := by
  cases node <;> rfl

mutual

theorem relocate_stay (node : Node) : node.relocate .stay = node := by
  cases node with
  | literal | reference | stepAfter | stepBefore | unknownExpression | unknownStatement => rfl
  | assignment name value => rw [relocate, relocate_stay value, Relocation.stay_apply]
  | binary left operator right =>
    rw [relocate, relocate_stay left, relocate_stay right, Relocation.stay_apply]
  | logical left operator right =>
    rw [relocate, relocate_stay left, relocate_stay right, Relocation.stay_apply]
  | unary operator right => rw [relocate, relocate_stay right, Relocation.stay_apply]
  | ternary condition thenBranch elseBranch =>
    rw [relocate, relocate_stay condition, relocate_stay thenBranch, relocate_stay elseBranch]
  | grouping expression => rw [relocate, relocate_stay expression]
  | call callee paren args =>
    rw [relocate, relocate_stay callee, relocateAll_stay args, Relocation.stay_apply]
  | discard expression => rw [relocate, relocate_stay expression]
  | declaration name initial =>
    rw [relocate, relocateOption_stay initial, Relocation.stay_apply]
  | block statements => rw [relocate, relocateAll_stay statements]
  | branch condition thenBranch elseBranch =>
    rw [relocate, relocate_stay condition, relocate_stay thenBranch,
      relocateOption_stay elseBranch]
  | loop condition body => rw [relocate, relocate_stay condition, relocate_stay body]
  | function name params body =>
    rw [relocate, relocateAll_stay body, Relocation.stay_apply, Relocation.map_stay]
  | result keyword value => rw [relocate, relocateOption_stay value, Relocation.stay_apply]

theorem relocateAll_stay (nodes : List Node) : relocateAll .stay nodes = nodes := by
  cases nodes with
  | nil => rfl
  | cons node nodes => rw [relocateAll, relocate_stay node, relocateAll_stay nodes]

theorem relocateOption_stay (node : Option Node) : relocateOption .stay node = node := by
  cases node with
  | none => rfl
  | some node => rw [relocateOption, relocate_stay node]

end

/-! ### Texts of trees -/

theorem mapM_render_relocate {r : Relocation} {depth : Nat}
    (h : ∀ node : Node, (node.relocate r).render depth = node.render depth) (nodes : List Node) :
    (nodes.map (relocate r)).mapM (render depth) = nodes.mapM (render depth) := by
  induction nodes with
  | nil => rfl
  | cons node nodes ih => rw [List.map_cons, List.mapM_cons, List.mapM_cons, h, ih]

/-- The text of a tree does not say where its tokens are. -/
theorem render_relocate (depth : Nat) (node : Node) :
    (node.relocate r).render depth = node.render depth := by
  induction depth using Nat.strongRecOn generalizing node with
  | ind depth ih =>
    match depth with
    | 0 | 1 | 2 => cases node <;> rfl
    | depth + 3 =>
      have hrender := ih depth (by omega)
      have hall := mapM_render_relocate hrender
      cases node <;>
        simp only [relocate, render, hrender, relocateAll_eq_map, relocateOption_eq_map,
          ← List.map_cons, hall, Relocation.text_apply, Relocation.map_text, form,
          Option.toList_map]

end Node

end Script
