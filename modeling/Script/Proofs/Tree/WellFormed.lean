import Script.Proofs.Grammar.Derivation
import Script.Tree.Render

/-!
# Trees of the grammar

A tree may be built by hand with anything in any place. The trees that the grammar builds have
expressions and statements in their places, and each operator is one of its form. Their tokens are
tokens of the text they were built from; this is said for the tokens at which a running program can
fail, with a predicate that all tokens of the text satisfy.

## Main definitions

* `Node.IsExpression`, `Node.IsStatement` : the trees of the grammar.

## Main results

* `Derives.wellFormed` : what has a derivation is a tree of the grammar.
* `Node.IsStatement.render` : trees of the grammar have a text, unless they are too deep.
-/

namespace Script

/-- The operators on two operands that are both evaluated. -/
def binaryOperators : List Kind :=
  [.bangEqual, .equalEqual, .ampersand, .pipe, .greater, .greaterEqual, .less, .lessEqual, .minus,
    .plus, .slash, .star]

/-- The operators whose second operand may be left out. -/
def logicalOperators : List Kind := [.orOr, .andAnd]

namespace Node

/-- The expressions of the grammar, with names, operators and the parentheses of calls from some
text. -/
inductive IsExpression (isOf : Token → Prop) : Node → Prop
  | literal (value : Constant) : IsExpression isOf (.literal value)
  | reference {name : Token} (hname : isOf name) : IsExpression isOf (.reference name)
  | assignment {name : Token} {value : Node} (hname : isOf name)
      (hvalue : IsExpression isOf value) : IsExpression isOf (.assignment name value)
  | binary {left right : Node} {operator : Token} (hkind : operator.kind ∈ binaryOperators)
      (hoperator : isOf operator) (hleft : IsExpression isOf left)
      (hright : IsExpression isOf right) : IsExpression isOf (.binary left operator right)
  | logical {left right : Node} {operator : Token} (hkind : operator.kind ∈ logicalOperators)
      (hoperator : isOf operator) (hleft : IsExpression isOf left)
      (hright : IsExpression isOf right) : IsExpression isOf (.logical left operator right)
  | unary {operator : Token} {right : Node} (hkind : operator.kind ∈ unaryOperators)
      (hoperator : isOf operator) (hright : IsExpression isOf right) :
      IsExpression isOf (.unary operator right)
  | ternary {condition thenBranch elseBranch : Node} (hcondition : IsExpression isOf condition)
      (hthen : IsExpression isOf thenBranch) (helse : IsExpression isOf elseBranch) :
      IsExpression isOf (.ternary condition thenBranch elseBranch)
  | grouping {inner : Node} (hinner : IsExpression isOf inner) :
      IsExpression isOf (.grouping inner)
  | call {callee : Node} {paren : Token} {args : List Node} (hparen : isOf paren)
      (hcallee : IsExpression isOf callee) (hargs : ∀ arg ∈ args, IsExpression isOf arg) :
      IsExpression isOf (.call callee paren args)
  | stepAfter {name operator : Token} (hkind : operator.kind ∈ stepOperators) (hname : isOf name)
      (hoperator : isOf operator) : IsExpression isOf (.stepAfter name operator)
  | stepBefore {name operator : Token} (hkind : operator.kind ∈ stepOperators) (hname : isOf name)
      (hoperator : isOf operator) : IsExpression isOf (.stepBefore name operator)

/-- The statements of the grammar. -/
inductive IsStatement (isOf : Token → Prop) : Node → Prop
  | discard {inner : Node} (hinner : inner.IsExpression isOf) : IsStatement isOf (.discard inner)
  | declaration {name : Token} {initial : Option Node}
      (hinitial : ∀ node ∈ initial, node.IsExpression isOf) :
      IsStatement isOf (.declaration name initial)
  | block {statements : List Node} (hstatements : ∀ node ∈ statements, IsStatement isOf node) :
      IsStatement isOf (.block statements)
  | branch {condition thenBranch : Node} {elseBranch : Option Node}
      (hcondition : condition.IsExpression isOf) (hthen : IsStatement isOf thenBranch)
      (helse : ∀ node ∈ elseBranch, IsStatement isOf node) :
      IsStatement isOf (.branch condition thenBranch elseBranch)
  | loop {condition body : Node} (hcondition : condition.IsExpression isOf)
      (hbody : IsStatement isOf body) : IsStatement isOf (.loop condition body)
  | function {name : Token} {params : List Token} {body : List Node}
      (hbody : ∀ node ∈ body, IsStatement isOf node) :
      IsStatement isOf (.function name params body)
  | result {word : Token} {value : Option Node} (hvalue : ∀ node ∈ value, node.IsExpression isOf) :
      IsStatement isOf (.result word value)

variable {isOf isOf' : Token → Prop}

theorem IsExpression.mono (hsub : ∀ token, isOf token → isOf' token) {node : Node}
    (h : node.IsExpression isOf) : node.IsExpression isOf' := by
  induction h with
  | literal value => exact .literal value
  | reference hname => exact .reference (hsub _ hname)
  | assignment hname _ ih => exact .assignment (hsub _ hname) ih
  | binary hkind hoperator _ _ ihleft ihright =>
    exact .binary hkind (hsub _ hoperator) ihleft ihright
  | logical hkind hoperator _ _ ihleft ihright =>
    exact .logical hkind (hsub _ hoperator) ihleft ihright
  | unary hkind hoperator _ ih => exact .unary hkind (hsub _ hoperator) ih
  | ternary _ _ _ ihcondition ihthen ihelse => exact .ternary ihcondition ihthen ihelse
  | grouping _ ih => exact .grouping ih
  | call hparen _ _ ihcallee ihargs => exact .call (hsub _ hparen) ihcallee ihargs
  | stepAfter hkind hname hoperator => exact .stepAfter hkind (hsub _ hname) (hsub _ hoperator)
  | stepBefore hkind hname hoperator => exact .stepBefore hkind (hsub _ hname) (hsub _ hoperator)

theorem IsStatement.mono (hsub : ∀ token, isOf token → isOf' token) {node : Node}
    (h : node.IsStatement isOf) : node.IsStatement isOf' := by
  induction h with
  | discard hinner => exact .discard (hinner.mono hsub)
  | declaration hinitial => exact .declaration fun node hnode => (hinitial node hnode).mono hsub
  | block _ ih => exact .block ih
  | branch hcondition _ _ ihthen ihelse => exact .branch (hcondition.mono hsub) ihthen ihelse
  | loop hcondition _ ih => exact .loop (hcondition.mono hsub) ih
  | function _ ih => exact .function ih
  | result hvalue => exact .result fun node hnode => (hvalue node hnode).mono hsub

end Node

/-! ### Derivations build trees of the grammar -/

section

variable {isOf : Token → Prop}

/-- A level joins two expressions to one. -/
def Level.Joins (isOf : Token → Prop) (level : Level) : Prop :=
  ∀ left operator right, operator.kind ∈ level.operators → isOf operator →
    Node.IsExpression isOf left → Node.IsExpression isOf right →
      (level.join left operator right).IsExpression isOf

theorem Rule.level?_joins {rule : Rule} {level : Level} (h : rule.level? = some level) :
    level.Joins isOf := by
  have hlogical : ∀ kinds, (∀ kind ∈ kinds, kind ∈ logicalOperators) →
      ∀ operand, Level.Joins isOf ⟨operand, kinds, .logical⟩ :=
    fun kinds hkinds _ _ _ _ hkind hoperator hleft hright =>
      .logical (hkinds _ hkind) hoperator hleft hright
  have hbinary : ∀ kinds, (∀ kind ∈ kinds, kind ∈ binaryOperators) →
      ∀ operand, Level.Joins isOf ⟨operand, kinds, .binary⟩ :=
    fun kinds hkinds _ _ _ _ hkind hoperator hleft hright =>
      .binary (hkinds _ hkind) hoperator hleft hright
  cases rule <;> cases h
  case disjunction | conjunction => exact hlogical _ (by decide) _
  all_goals exact hbinary _ (by decide) _

theorem Node.IsStatement.counting {initial condition increment : Option Node} {body : Node}
    (hinitial : ∀ node ∈ initial, node.IsStatement isOf)
    (hcondition : ∀ node ∈ condition, node.IsExpression isOf)
    (hincrement : ∀ node ∈ increment, node.IsExpression isOf) (hbody : body.IsStatement isOf) :
    (Node.counting initial condition increment body).IsStatement isOf := by
  have hcondition' : (condition.getD (.literal (.bool true))).IsExpression isOf := by
    cases condition with
    | none => exact .literal _
    | some condition => exact hcondition condition rfl
  have hloop (body : Node) (hbody : body.IsStatement isOf) :
      (Node.loop (condition.getD (.literal (.bool true))) body).IsStatement isOf :=
    .loop hcondition' hbody
  have hstep (increment : Node) (h : increment.IsExpression isOf) :
      (Node.block [body, .discard increment]).IsStatement isOf := by
    refine .block fun node hnode => ?_
    simp only [List.mem_cons, List.not_mem_nil, or_false] at hnode
    rcases hnode with rfl | rfl
    · exact hbody
    · exact .discard h
  have hblock (initial loop : Node) (h : initial.IsStatement isOf) (h' : loop.IsStatement isOf) :
      (Node.block [initial, loop]).IsStatement isOf := by
    refine .block fun node hnode => ?_
    simp only [List.mem_cons, List.not_mem_nil, or_false] at hnode
    rcases hnode with rfl | rfl
    · exact h
    · exact h'
  cases initial with
  | none =>
    cases increment with
    | none => exact hloop _ hbody
    | some increment => exact hloop _ (hstep increment (hincrement increment rfl))
  | some initial =>
    cases increment with
    | none => exact hblock _ _ (hinitial initial rfl) (hloop _ hbody)
    | some increment =>
      exact hblock _ _ (hinitial initial rfl)
        (hloop _ (hstep increment (hincrement increment rfl)))

/-- The trees of a phrase are trees of the grammar. What continues an operand or a callee does so if
that is one. -/
def Phrase.WellFormed (isOf : Token → Prop) : Phrase → Prop
  | .declarations nodes | .block nodes => ∀ node ∈ nodes, node.IsStatement isOf
  | .declaration _ node | .function node | .variableItem node | .statement _ node
  | .discard node => node.IsStatement isOf
  | .parameters _ | .names _ => True
  | .initial clause => ∀ node ∈ clause, Node.IsStatement isOf node
  | .optional clause => ∀ node ∈ clause, Node.IsExpression isOf node
  | .expression _ node => node.IsExpression isOf
  | .operands level left node =>
    level.Joins isOf → left.IsExpression isOf → node.IsExpression isOf
  | .calls callee node => callee.IsExpression isOf → node.IsExpression isOf
  | .arguments args | .expressions args => ∀ arg ∈ args, arg.IsExpression isOf

namespace Derives

variable {keyword : Option Kind} {phrase : Phrase} {before after : List Token}

theorem subset (h : Derives keyword phrase before after) : after ⊆ before := by
  intro token
  induction h with
  | variableInitial hmarked _ ih => cases hmarked <;> grind
  | _ => grind

theorem forall_mem (h : Derives keyword phrase before after)
    (hbefore : ∀ token ∈ before, isOf token) : ∀ token ∈ after, isOf token :=
  fun token htoken => hbefore token (h.subset htoken)

/-- What has a derivation is a tree of the grammar, with the tokens of the text. -/
theorem wellFormed (h : Derives keyword phrase before after)
    (hbefore : ∀ token ∈ before, isOf token) : phrase.WellFormed isOf := by
  induction h with
  | noParameters | someParameters | lastName | moreNames => trivial
  | noDeclarations | noArguments | noInitial | absent =>
    intro node hnode
    cases hnode
  | variableItem => exact .declaration fun _ h => nomatch h
  | moreDeclarations hfirst _ ihfirst ihrest =>
    exact List.forall_mem_cons.mpr ⟨ihfirst hbefore, ihrest (hfirst.forall_mem hbefore)⟩
  | functionDeclaration _ _ ih | variableDeclaration _ _ ih =>
    exact ih (List.forall_mem_cons.mp hbefore).2
  | statementDeclaration _ ih | discardStatement _ ih | someArguments _ ih | expression _ ih
  | noAssignment _ ih | noTernary _ ih | noUnary _ ih | noStep _ ih => exact ih hbefore
  | function _ _ hparams _ _ _ _ ih =>
    simp only [List.forall_mem_cons] at hbefore
    have hbody := hparams.forall_mem hbefore.2.2
    exact .function (ih (List.forall_mem_cons.mp hbody).2)
  | initializedItem _ _ _ _ ih =>
    simp only [List.forall_mem_cons] at hbefore
    refine .declaration fun node hnode => ?_
    cases hnode
    exact ih hbefore.2.2
  | returnStatement _ _ _ ih => exact .result (ih (List.forall_mem_cons.mp hbefore).2)
  | forStatement _ _ hinitial hcondition _ hincrement _ _ ihinitial ihcondition ihincrement
      ihbody =>
    simp only [List.forall_mem_cons] at hbefore
    have hclauses := hinitial.forall_mem hbefore.2.2
    have htail := (List.forall_mem_cons.mp (hcondition.forall_mem hclauses)).2
    have hinner := (List.forall_mem_cons.mp (hincrement.forall_mem htail)).2
    exact .counting (ihinitial hbefore.2.2) (ihcondition hclauses) (ihincrement htail)
      (ihbody hinner)
  | whileStatement _ _ hcondition _ _ ihcondition ihbody =>
    simp only [List.forall_mem_cons] at hbefore
    have hinner := (List.forall_mem_cons.mp (hcondition.forall_mem hbefore.2.2)).2
    exact .loop (ihcondition hbefore.2.2) (ihbody hinner)
  | ifStatement _ _ hcondition _ _ ihcondition ihthen =>
    simp only [List.forall_mem_cons] at hbefore
    have hinner := (List.forall_mem_cons.mp (hcondition.forall_mem hbefore.2.2)).2
    exact .branch (ihcondition hbefore.2.2) (ihthen hinner) fun _ h => nomatch h
  | ifElseStatement _ _ hcondition _ hthen _ _ ihcondition ihthen ihelse =>
    simp only [List.forall_mem_cons] at hbefore
    have hinner := (List.forall_mem_cons.mp (hcondition.forall_mem hbefore.2.2)).2
    have htail := (List.forall_mem_cons.mp (hthen.forall_mem hinner)).2
    refine .branch (ihcondition hbefore.2.2) (ihthen hinner) fun node hnode => ?_
    cases hnode
    exact ihelse htail
  | blockStatement _ ih => exact .block (ih hbefore)
  | block _ _ _ ih => exact ih (List.forall_mem_cons.mp hbefore).2
  | discard _ _ ih | discardAtEnd _ _ ih => exact .discard (ih hbefore)
  | variableInitial hmarked _ ih =>
    intro node hnode
    cases hnode
    cases hmarked with
    | bare => exact ih hbefore
    | word => exact ih (List.forall_mem_cons.mp hbefore).2
  | discardInitial _ ih | present _ ih =>
    intro node hnode
    cases hnode
    exact ih hbefore
  | assignment _ _ _ ih =>
    simp only [List.forall_mem_cons] at hbefore
    exact .assignment hbefore.1 (ih hbefore.2.2)
  | ternary hcondition _ hthen _ _ ihcondition ihthen ihelse =>
    have hrest := (List.forall_mem_cons.mp (hcondition.forall_mem hbefore)).2
    have htail := (List.forall_mem_cons.mp (hthen.forall_mem hrest)).2
    exact .ternary (ihcondition hbefore) (ihthen hrest) (ihelse htail)
  | level hlevel hleft _ ihleft ihoperands =>
    exact ihoperands (hleft.forall_mem hbefore) (Rule.level?_joins hlevel) (ihleft hbefore)
  | noOperands => exact fun _ hleft => hleft
  | noCalls => exact fun hcallee => hcallee
  | moreOperands hoperator hright _ ihright ihoperands =>
    intro hjoins hleft
    rw [List.forall_mem_cons] at hbefore
    exact ihoperands (hright.forall_mem hbefore.2) hjoins
      (hjoins _ _ _ hoperator hbefore.1 hleft (ihright hbefore.2))
  | stepBefore hoperator =>
    simp only [List.forall_mem_cons] at hbefore
    exact .stepBefore hoperator hbefore.2.1 hbefore.1
  | unary hoperator _ ih =>
    rw [List.forall_mem_cons] at hbefore
    exact .unary hoperator hbefore.1 (ih hbefore.2)
  | stepAfter _ hoperator =>
    simp only [List.forall_mem_cons] at hbefore
    exact .stepAfter hoperator hbefore.1 hbefore.2.1
  | call hcallee _ ihcallee ihcalls =>
    exact ihcalls (hcallee.forall_mem hbefore) (ihcallee hbefore)
  | moreCalls _ hargs _ _ _ ihargs ihcalls =>
    intro hcallee
    rw [List.forall_mem_cons] at hbefore
    have hrest := List.forall_mem_cons.mp (hargs.forall_mem hbefore.2)
    exact ihcalls hrest.2 (.call hrest.1 hcallee (ihargs hbefore.2))
  | lastExpression _ ih => exact List.forall_mem_cons.mpr ⟨ih hbefore, by simp⟩
  | moreExpressions hnode _ _ ih ihrest =>
    have hrest := (List.forall_mem_cons.mp (hnode.forall_mem hbefore)).2
    exact List.forall_mem_cons.mpr ⟨ih hbefore, ihrest hrest⟩
  | constant => exact .literal _
  | reference => exact .reference (List.forall_mem_cons.mp hbefore).1
  | grouping _ _ _ ih => exact .grouping (ih (List.forall_mem_cons.mp hbefore).2)

end Derives

/-! ### Trees of the grammar have a text -/

/-- The work succeeds, unless it is given up as too deep. -/
def OkUnlessDeep {α : Type} (x : Except Breakdown α) : Prop :=
  (∃ a, x = .ok a) ∨ x = .error .tooDeep

namespace OkUnlessDeep

variable {α β : Type}

theorem pure (a : α) : OkUnlessDeep (pure a) :=
  .inl ⟨a, rfl⟩

theorem bind {x : Except Breakdown α} {f : α → Except Breakdown β} (hx : OkUnlessDeep x)
    (hf : ∀ a, OkUnlessDeep (f a)) : OkUnlessDeep (x >>= f) := by
  rcases hx with ⟨a, rfl⟩ | rfl
  · exact hf a
  · exact .inr rfl

theorem mapM {f : α → Except Breakdown β} {as : List α} (h : ∀ a ∈ as, OkUnlessDeep (f a)) :
    OkUnlessDeep (as.mapM f) := by
  induction as with
  | nil => exact .pure []
  | cons a as ih =>
    rw [List.forall_mem_cons] at h
    rw [List.mapM_cons]
    exact h.1.bind fun _ => (ih h.2).bind fun _ => .pure _

end OkUnlessDeep

namespace Node

/-- A node whose parts have a text has one. -/
private theorem render_of_deeper {node : Node}
    (h : ∀ depth, OkUnlessDeep (node.render (depth + 3))) (depth : Nat) :
    OkUnlessDeep (node.render depth) := by
  match depth with
  | 0 | 1 | 2 => exact .inr rfl
  | depth + 3 => exact h depth

theorem IsExpression.render {node : Node} (h : node.IsExpression isOf) (depth : Nat) :
    OkUnlessDeep (node.render depth) := by
  induction h generalizing depth with
  | literal | reference | stepAfter | stepBefore =>
    refine render_of_deeper (fun depth => ?_) depth
    exact .pure _
  | assignment _ _ ih | unary _ _ _ ih | grouping _ ih =>
    refine render_of_deeper (fun depth => ?_) depth
    exact (ih depth).bind fun _ => .pure _
  | binary _ _ _ _ ihleft ihright | logical _ _ _ _ ihleft ihright =>
    refine render_of_deeper (fun depth => ?_) depth
    exact (ihleft depth).bind fun _ => (ihright depth).bind fun _ => .pure _
  | ternary _ _ _ ihcondition ihthen ihelse =>
    refine render_of_deeper (fun depth => ?_) depth
    exact (ihcondition depth).bind fun _ => (ihthen depth).bind fun _ =>
      (ihelse depth).bind fun _ => .pure _
  | call _ _ _ ihcallee ihargs =>
    refine render_of_deeper (fun depth => ?_) depth
    refine .bind (.mapM (List.forall_mem_cons.mpr ⟨ihcallee depth, ?_⟩)) fun _ => .pure _
    exact fun arg harg => ihargs arg harg depth

/-- A statement of the grammar has a text, unless it is too deep. -/
theorem IsStatement.render {node : Node} (h : node.IsStatement isOf) (depth : Nat) :
    OkUnlessDeep (node.render depth) := by
  induction h generalizing depth with
  | discard hinner =>
    refine render_of_deeper (fun depth => ?_) depth
    exact (hinner.render depth).bind fun _ => .pure _
  | declaration hvalue | result hvalue =>
    refine render_of_deeper (fun depth => ?_) depth
    refine .bind (.mapM fun node hnode => ?_) fun _ => .pure _
    exact (hvalue node (Option.mem_toList.mp hnode)).render depth
  | block _ ih | function _ ih =>
    refine render_of_deeper (fun depth => ?_) depth
    refine .bind (.mapM fun node hnode => ?_) fun _ => .pure _
    exact ih node hnode depth
  | branch hcondition _ _ ihthen ihelse =>
    refine render_of_deeper (fun depth => ?_) depth
    refine .bind (.mapM (List.forall_mem_cons.mpr ⟨hcondition.render depth, ?_⟩)) fun _ => .pure _
    refine List.forall_mem_cons.mpr ⟨ihthen depth, fun node hnode => ?_⟩
    exact ihelse node (Option.mem_toList.mp hnode) depth
  | loop hcondition _ ih =>
    refine render_of_deeper (fun depth => ?_) depth
    exact (hcondition.render depth).bind fun _ => (ih depth).bind fun _ => .pure _

end Node

end

end Script
