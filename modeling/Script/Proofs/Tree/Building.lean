import Script.Proofs.Tree.Shape

/-!
# Derivations build trees

A phrase of the grammar stands for trees with the tokens of the phrase, each in a place where the
grammar has a token of its kind. The only constant that is written nowhere is the condition of a
counting loop without one.

## Main results

* `Derives.isBuilt` : what has a derivation has the tokens of the grammar.
-/

namespace Script

variable {isOf : Token → Prop}

/-- A level joins two built trees to one. -/
def Level.Builds (isOf : Token → Prop) (level : Level) : Prop :=
  ∀ left operator right, operator.kind ∈ level.operators → isOf operator → left.IsBuilt isOf →
    right.IsBuilt isOf → (level.join left operator right).IsBuilt isOf

/-- A tree with two parts. -/
theorem Node.IsBuilt.pair {node left right : Node} (htokens : node.HasTokens isOf)
    (hparts : node.parts = [left, right]) (hleft : left.IsBuilt isOf)
    (hright : right.IsBuilt isOf) : node.IsBuilt isOf := by
  refine .mk htokens ?_
  rw [hparts]
  exact List.forall_mem_cons.mpr ⟨hleft, List.forall_mem_singleton.mpr hright⟩

theorem Rule.level?_builds {rule : Rule} {level : Level} (h : rule.level? = some level) :
    level.Builds isOf := by
  have hlogical : ∀ kinds, (∀ kind ∈ kinds, kind ∈ logicalOperators) →
      ∀ operand, Level.Builds isOf ⟨operand, kinds, .logical⟩ :=
    fun kinds hkinds _ _ _ _ hkind hoperator hleft hright =>
      .pair ⟨hoperator, hkinds _ hkind⟩ rfl hleft hright
  have hbinary : ∀ kinds, (∀ kind ∈ kinds, kind ∈ binaryOperators) →
      ∀ operand, Level.Builds isOf ⟨operand, kinds, .binary⟩ :=
    fun kinds hkinds _ _ _ _ hkind hoperator hleft hright =>
      .pair ⟨hoperator, hkinds _ hkind⟩ rfl hleft hright
  cases rule <;> cases h
  case disjunction | conjunction => exact hlogical _ (by decide) _
  all_goals exact hbinary _ (by decide) _

theorem Node.IsBuilt.counting {initial condition increment : Option Node} {body : Node}
    (hinitial : ∀ node ∈ initial, node.IsBuilt isOf)
    (hcondition : ∀ node ∈ condition, node.IsBuilt isOf)
    (hincrement : ∀ node ∈ increment, node.IsBuilt isOf) (hbody : body.IsBuilt isOf) :
    (Node.counting initial condition increment body).IsBuilt isOf := by
  have hcondition' : (condition.getD (.literal (.bool true))).IsBuilt isOf := by
    cases condition with
    | none => exact .mk (.inr rfl) (List.forall_mem_nil _)
    | some condition => exact hcondition condition rfl
  have hloop (body : Node) (hbody : body.IsBuilt isOf) :
      (Node.loop (condition.getD (.literal (.bool true))) body).IsBuilt isOf :=
    .pair trivial rfl hcondition' hbody
  have hblock (first second : Node) (h : first.IsBuilt isOf) (h' : second.IsBuilt isOf) :
      (Node.block [first, second]).IsBuilt isOf :=
    .pair trivial rfl h h'
  have hstep (increment : Node) (h : increment.IsBuilt isOf) :
      (Node.block [body, .discard increment]).IsBuilt isOf :=
    hblock _ _ hbody (.mk trivial (List.forall_mem_singleton.mpr h))
  cases initial with
  | none =>
    cases increment with
    | none => exact hloop _ hbody
    | some increment => exact hloop _ (hstep increment (hincrement increment rfl))
  | some initial =>
    cases increment with
    | none => exact hblock _ _ (hinitial initial rfl) (hloop _ hbody)
    | some increment =>
      exact hblock _ _ (hinitial initial rfl)
        (hloop _ (hstep increment (hincrement increment rfl)))

/-- The trees of a phrase have the tokens of the grammar. What continues an operand or a callee does
so if that has them. -/
def Phrase.IsBuilt (isOf : Token → Prop) : Phrase → Prop
  | .declarations nodes | .block nodes | .arguments nodes | .expressions nodes =>
    ∀ node ∈ nodes, node.IsBuilt isOf
  | .declaration _ node | .function node | .variableItem node | .statement _ node | .discard node
  | .expression _ node => node.IsBuilt isOf
  | .parameters params | .names params => ∀ name ∈ params, name.IsOneOf isOf [.identifier]
  | .initial clause | .optional clause => ∀ node ∈ clause, Node.IsBuilt isOf node
  | .operands level left node => level.Builds isOf → left.IsBuilt isOf → node.IsBuilt isOf
  | .calls callee node => callee.IsBuilt isOf → node.IsBuilt isOf

namespace Derives

variable {keyword : Option Kind} {phrase : Phrase} {before after : List Token}

/-- What has a derivation has the tokens of the grammar, and they are tokens of the text. -/
theorem isBuilt (h : Derives keyword phrase before after) (hbefore : ∀ token ∈ before, isOf token) :
    phrase.IsBuilt isOf := by
  induction h with
  | noDeclarations | noArguments | noInitial | absent | noParameters =>
    intro node hnode
    cases hnode
  | someParameters _ ih | statementDeclaration _ ih | discardStatement _ ih | someArguments _ ih
  | expression _ ih | noAssignment _ ih | noTernary _ ih | noUnary _ ih | noStep _ ih =>
    exact ih hbefore
  | functionDeclaration _ _ ih | variableDeclaration _ _ ih | block _ _ _ ih =>
    exact ih (List.forall_mem_cons.mp hbefore).2
  | moreDeclarations hfirst _ ihfirst ihrest =>
    exact List.forall_mem_cons.mpr ⟨ihfirst hbefore, ihrest (hfirst.forall_mem hbefore)⟩
  | lastName hname =>
    rw [List.forall_mem_cons] at hbefore
    exact List.forall_mem_singleton.mpr ⟨hbefore.1, List.mem_singleton.mpr hname⟩
  | moreNames hname _ _ ih =>
    simp only [List.forall_mem_cons] at hbefore
    exact List.forall_mem_cons.mpr
      ⟨⟨hbefore.1, List.mem_singleton.mpr hname⟩, ih hbefore.2.2⟩
  | function hname _ hparams _ _ _ ihparams ihbody =>
    simp only [List.forall_mem_cons] at hbefore
    have hbody := (List.forall_mem_cons.mp (hparams.forall_mem hbefore.2.2)).2
    exact .mk ⟨⟨hbefore.1, List.mem_singleton.mpr hname⟩, ihparams hbefore.2.2⟩ (ihbody hbody)
  | variableItem hname =>
    rw [List.forall_mem_cons] at hbefore
    exact .mk ⟨hbefore.1, List.mem_singleton.mpr hname⟩ (List.forall_mem_nil _)
  | initializedItem hname _ _ _ ih =>
    simp only [List.forall_mem_cons] at hbefore
    exact .mk ⟨hbefore.1, List.mem_singleton.mpr hname⟩
      (List.forall_mem_singleton.mpr (ih hbefore.2.2))
  | returnStatement hword _ _ ih =>
    rw [List.forall_mem_cons] at hbefore
    exact .mk ⟨hbefore.1, List.mem_singleton.mpr hword⟩ fun node hnode =>
      ih hbefore.2 node (Option.mem_toList.mp hnode)
  | forStatement _ _ hinitial hcondition _ hincrement _ _ ihinitial ihcondition ihincrement
      ihbody =>
    simp only [List.forall_mem_cons] at hbefore
    have hclauses := hinitial.forall_mem hbefore.2.2
    have htail := (List.forall_mem_cons.mp (hcondition.forall_mem hclauses)).2
    have hinner := (List.forall_mem_cons.mp (hincrement.forall_mem htail)).2
    exact .counting (ihinitial hbefore.2.2) (ihcondition hclauses) (ihincrement htail)
      (ihbody hinner)
  | whileStatement _ _ hcondition _ _ ihcondition ihbody =>
    simp only [List.forall_mem_cons] at hbefore
    have hinner := (List.forall_mem_cons.mp (hcondition.forall_mem hbefore.2.2)).2
    exact .pair trivial rfl (ihcondition hbefore.2.2) (ihbody hinner)
  | ifStatement _ _ hcondition _ _ ihcondition ihthen =>
    simp only [List.forall_mem_cons] at hbefore
    have hinner := (List.forall_mem_cons.mp (hcondition.forall_mem hbefore.2.2)).2
    exact .pair trivial rfl (ihcondition hbefore.2.2) (ihthen hinner)
  | ifElseStatement _ _ hcondition _ hthen _ _ ihcondition ihthen ihelse =>
    simp only [List.forall_mem_cons] at hbefore
    have hinner := (List.forall_mem_cons.mp (hcondition.forall_mem hbefore.2.2)).2
    have htail := (List.forall_mem_cons.mp (hthen.forall_mem hinner)).2
    exact .mk trivial (List.forall_mem_cons.mpr ⟨ihcondition hbefore.2.2,
      List.forall_mem_cons.mpr ⟨ihthen hinner, List.forall_mem_singleton.mpr (ihelse htail)⟩⟩)
  | blockStatement _ ih => exact .mk trivial (ih hbefore)
  | discard _ _ ih | discardAtEnd _ _ ih =>
    exact .mk trivial (List.forall_mem_singleton.mpr (ih hbefore))
  | variableInitial hmarked _ ih =>
    intro node hnode
    cases hnode
    cases hmarked with
    | bare => exact ih hbefore
    | word => exact ih (List.forall_mem_cons.mp hbefore).2
  | discardInitial _ ih | present _ ih =>
    intro node hnode
    cases hnode
    exact ih hbefore
  | assignment hname _ _ ih =>
    simp only [List.forall_mem_cons] at hbefore
    exact .mk ⟨hbefore.1, List.mem_singleton.mpr hname⟩
      (List.forall_mem_singleton.mpr (ih hbefore.2.2))
  | ternary hcondition _ hthen _ _ ihcondition ihthen ihelse =>
    have hrest := (List.forall_mem_cons.mp (hcondition.forall_mem hbefore)).2
    have htail := (List.forall_mem_cons.mp (hthen.forall_mem hrest)).2
    exact .mk trivial (List.forall_mem_cons.mpr ⟨ihcondition hbefore,
      List.forall_mem_cons.mpr ⟨ihthen hrest, List.forall_mem_singleton.mpr (ihelse htail)⟩⟩)
  | level hlevel hleft _ ihleft ihoperands =>
    exact ihoperands (hleft.forall_mem hbefore) (Rule.level?_builds hlevel) (ihleft hbefore)
  | noOperands => exact fun _ hleft => hleft
  | noCalls => exact fun hcallee => hcallee
  | moreOperands hoperator hright _ ihright ihoperands =>
    intro hbuilds hleft
    rw [List.forall_mem_cons] at hbefore
    exact ihoperands (hright.forall_mem hbefore.2) hbuilds
      (hbuilds _ _ _ hoperator hbefore.1 hleft (ihright hbefore.2))
  | stepBefore hoperator hname =>
    simp only [List.forall_mem_cons] at hbefore
    exact .mk ⟨⟨hbefore.2.1, List.mem_singleton.mpr hname⟩, hbefore.1, hoperator⟩
      (List.forall_mem_nil _)
  | unary hoperator _ ih =>
    rw [List.forall_mem_cons] at hbefore
    exact .mk ⟨hbefore.1, hoperator⟩ (List.forall_mem_singleton.mpr (ih hbefore.2))
  | stepAfter hname hoperator =>
    simp only [List.forall_mem_cons] at hbefore
    exact .mk ⟨⟨hbefore.1, List.mem_singleton.mpr hname⟩, hbefore.2.1, hoperator⟩
      (List.forall_mem_nil _)
  | call hcallee _ ihcallee ihcalls =>
    exact ihcalls (hcallee.forall_mem hbefore) (ihcallee hbefore)
  | moreCalls _ hargs _ hclosing _ ihargs ihcalls =>
    intro hcallee
    rw [List.forall_mem_cons] at hbefore
    have hrest := List.forall_mem_cons.mp (hargs.forall_mem hbefore.2)
    exact ihcalls hrest.2 (.mk ⟨hrest.1, List.mem_singleton.mpr hclosing⟩
      (List.forall_mem_cons.mpr ⟨hcallee, ihargs hbefore.2⟩))
  | lastExpression _ ih => exact List.forall_mem_singleton.mpr (ih hbefore)
  | moreExpressions hnode _ _ ih ihrest =>
    have hrest := (List.forall_mem_cons.mp (hnode.forall_mem hbefore)).2
    exact List.forall_mem_cons.mpr ⟨ih hbefore, ihrest hrest⟩
  | constant hword =>
    exact .mk (.inl ⟨_, (List.forall_mem_cons.mp hbefore).1, hword⟩) (List.forall_mem_nil _)
  | reference hname =>
    exact .mk ⟨(List.forall_mem_cons.mp hbefore).1, List.mem_singleton.mpr hname⟩
      (List.forall_mem_nil _)
  | grouping _ _ _ ih =>
    exact .mk trivial (List.forall_mem_singleton.mpr (ih (List.forall_mem_cons.mp hbefore).2))

end Derives

end Script
