import Script.Evaluation.Evaluate
import Script.Proofs.Agreement
import Script.Proofs.Number.Dividing
import Script.Proofs.Tree.Relocation

/-!
# Simulations

A simulation relates the machines of two runs. The trees of the second run are those of the first
with their tokens moved, and so are the functions among its values and the faults it comes to. All
functions that the runs meet were declared in scopes that the simulation calls visible. Where the
basic actions of a machine keep the relation, evaluation keeps it, to every depth: two related
machines that run a node and the moved node end in the same way.

## Main definitions

* `Value.relocate`, `Halt.relocate` : values and halts with their tokens moved.
* `Simulation` : a relation between machines that the basic actions keep.

## Main results

* `Simulation.agrees_bounded` : evaluation keeps the relation.
-/

namespace Script

/-! ### Values and halts with their tokens moved -/

/-- The function with the tokens of its declaration moved. -/
def Closure.relocate (r : Relocation) (f : Closure) : Closure :=
  { f with name := r f.name, params := f.params.map r, body := f.body.map (Node.relocate r) }

/-- The value with its tokens moved. -/
def Value.relocate (r : Relocation) : Value → Value
  | .constant c => .constant c
  | .function f => .function (f.relocate r)

/-- The halt with its token moved. -/
def Halt.relocate (r : Relocation) : Halt → Halt
  | .fault f => .fault { f with token := r f.token }
  | halt => halt

/-- The return with its tokens moved. -/
def Returning.relocate (r : Relocation) (returning : Returning) : Returning :=
  ⟨r returning.keyword, returning.value.relocate r⟩

/-- The result of an operator with its tokens moved. -/
def Value.relocateResult (r : Relocation) : Except Halt Value → Except Halt Value
  | .ok value => .ok (value.relocate r)
  | .error halt => .error (halt.relocate r)

/-- A value that is no function, or a function that was declared in a visible scope. -/
def Value.IsFrom (visible : ScopeId → Prop) : Value → Prop
  | .constant _ => True
  | .function f => visible f.scope

namespace Value

variable (r : Relocation)

theorem relocate_stay (v : Value) : v.relocate .stay = v := by
  cases v with
  | constant c => rfl
  | function f =>
    have hbody : f.body.map (Node.relocate .stay) = f.body := by
      rw [← Node.relocateAll_eq_map, Node.relocateAll_stay]
    rw [relocate, Closure.relocate, hbody, Relocation.map_stay, Relocation.stay_apply]

@[simp] theorem isTruthy_relocate (v : Value) : (v.relocate r).isTruthy = v.isTruthy := by
  cases v <;> rfl

@[simp] theorem display_relocate (v : Value) : (v.relocate r).display = v.display := by
  cases v <;> rfl

@[simp] theorem isEqual_relocate (v w : Value) :
    (v.relocate r).isEqual (w.relocate r) = v.isEqual w := by
  cases v with
  | constant c =>
    cases w with
    | constant d => rfl
    | function g => cases c <;> rfl
  | function f =>
    cases w with
    | constant d => cases d <;> rfl
    | function g => rfl

theorem unary_relocate (operator : Token) (v : Value) :
    unary (r operator) (v.relocate r) = relocateResult r (unary operator v) := by
  unfold unary
  rw [Relocation.kind_apply, isTruthy_relocate]
  split
  · rfl
  · cases v with
    | constant c => cases c <;> rfl
    | function f => rfl

theorem stepped_relocate (operator : Token) (v : Value) :
    stepped (r operator) (v.relocate r) = relocateResult r (stepped operator v) := by
  cases v with
  | constant c => cases c <;> rfl
  | function f => rfl

theorem arithmetic_relocate (operator : Token) (x y : Number) :
    arithmetic (r operator) x y = relocateResult r (arithmetic operator x y) := by
  rw [arithmetic, arithmetic, Relocation.kind_apply, Number.divide_eq]
  split <;> rfl

theorem binary_relocate (v : Value) (operator : Token) (w : Value) :
    (v.relocate r).binary (r operator) (w.relocate r) =
      relocateResult r (v.binary operator w) := by
  unfold binary
  rw [Relocation.kind_apply, isEqual_relocate]
  split
  · rfl
  · rfl
  · cases v with
    | constant c =>
      cases w with
      | constant d => cases c <;> cases d <;> rfl
      | function g => cases c <;> rfl
    | function f => rfl
  · cases v with
    | constant c =>
      cases w with
      | constant d =>
        simp only [relocate]
        split
        · exact arithmetic_relocate r operator ..
        · rfl
      | function g => cases c <;> rfl
    | function f => rfl

/-! The results of operators are constants. -/

theorem constant_of_unary {operator : Token} {v w : Value} (h : unary operator v = .ok w) :
    ∃ c, w = .constant c := by
  unfold unary at h
  split at h
  · cases h
    exact ⟨_, rfl⟩
  · split at h
    · cases h
      exact ⟨_, rfl⟩
    · cases h

theorem constant_of_stepped {operator : Token} {v w : Value} (h : stepped operator v = .ok w) :
    ∃ c, w = .constant c := by
  unfold stepped at h
  split at h
  · cases h
    exact ⟨_, rfl⟩
  · cases h

theorem constant_of_arithmetic {operator : Token} {x y : Number} {w : Value}
    (h : arithmetic operator x y = .ok w) : ∃ c, w = .constant c := by
  unfold arithmetic at h
  simp only [Number.divide_eq] at h
  split at h
  case h_10 => cases h
  all_goals
    cases h
    exact ⟨_, rfl⟩

theorem constant_of_binary {operator : Token} {v v' w : Value}
    (h : v.binary operator v' = .ok w) : ∃ c, w = .constant c := by
  unfold binary at h
  split at h
  · cases h
    exact ⟨_, rfl⟩
  · cases h
    exact ⟨_, rfl⟩
  · split at h
    · cases h
      exact ⟨_, rfl⟩
    · cases h
      exact ⟨_, rfl⟩
    · cases h
  · split at h
    · exact constant_of_arithmetic h
    · cases h

end Value

/-! ### Simulations -/

/-- A relation between the machines of two runs that the basic actions keep. -/
structure Simulation where
  /-- Where the tokens of the first run are in the second one. -/
  relocation : Relocation
  /-- The scopes in which the functions that the runs meet were declared. -/
  Visible : ScopeId → Prop
  /-- The machines of the first and of the second run. -/
  Related : Machine → Machine → Prop
  scope_eq : ∀ {m n}, Related m n → n.scope = m.scope
  visible_scope : ∀ {m n}, Related m n → Visible m.scope
  /-- Both machines may enter a visible scope. -/
  enter : ∀ {m n id}, Related m n → Visible id →
    Related { m with scope := id } { n with scope := id }
  /-- Both machines may print a line. -/
  print : ∀ {m n} line, Related m n →
    Related { m with output := m.output ++ line } { n with output := n.output ++ line }
  /-- Both machines may make a function in their current scope. -/
  makeFunction : ∀ {m n}, Related m n → n.functions = m.functions ∧
    Related { m with functions := m.functions + 1 } { n with functions := n.functions + 1 }
  /-- Both machines may make a scope in a visible one. -/
  makeScope : ∀ {m n parent}, Related m n → Visible parent →
    n.store.size = m.store.size ∧ Visible m.store.size ∧
      Related { m with store := m.store.push (some parent) }
        { n with store := n.store.push (some parent) }
  /-- Both machines may bind a name in their current scope. -/
  define : ∀ {m n} name {value}, Related m n → value.IsFrom Visible →
    Related { m with store := m.store.define m.scope name value }
      { n with store := n.store.define n.scope name (value.relocate relocation) }
  /-- Both machines change a binding, or neither does. -/
  assign : ∀ {m n} name {value}, Related m n → value.IsFrom Visible →
    (n.store.assign n.scope name (value.relocate relocation)).2 =
        (m.store.assign m.scope name value).2 ∧
      Related { m with store := (m.store.assign m.scope name value).1 }
        { n with store := (n.store.assign n.scope name (value.relocate relocation)).1 }
  /-- Both machines find the same value. -/
  get? : ∀ {m n} name, Related m n →
    n.store.get? n.scope name = (m.store.get? m.scope name).map (Value.relocate relocation) ∧
      ∀ value, m.store.get? m.scope name = some value → value.IsFrom Visible

namespace Simulation

variable (S : Simulation)

/-- A value of the first run and what it is in the second one. -/
def Values (v w : Value) : Prop :=
  w = v.relocate S.relocation ∧ v.IsFrom S.Visible

/-- The end of a statement in the first run and what it is in the second one. -/
def Returns (a b : Option Returning) : Prop :=
  b = a.map (Returning.relocate S.relocation) ∧ ∀ returning ∈ a, returning.value.IsFrom S.Visible

/-- An action of the first run and the corresponding one of the second run. -/
abbrev Agree {α β : Type} (x : Run α) (y : Run β) (results : α → β → Prop) : Prop :=
  Script.Agree S.Related (fun halt halt' => halt' = halt.relocate S.relocation) x y results

variable {S}

theorem values_constant (c : Constant) : S.Values (.constant c) (.constant c) :=
  ⟨rfl, trivial⟩

theorem returns_none : S.Returns none none :=
  ⟨rfl, fun _ h => nomatch h⟩

theorem Values.returns {v w : Value} (h : S.Values v w) (keyword : Token) :
    S.Returns (some ⟨keyword, v⟩) (some ⟨S.relocation keyword, w⟩) := by
  obtain ⟨rfl, hv⟩ := h
  refine ⟨rfl, fun returning hreturning => ?_⟩
  cases hreturning
  exact hv

/-- The value that a call gives for the return of its function. -/
theorem Returns.values {a b : Option Returning} (h : S.Returns a b) :
    S.Values ((a.map Returning.value).getD .null) ((b.map Returning.value).getD .null) := by
  obtain ⟨rfl, ha⟩ := h
  cases a with
  | none => exact values_constant _
  | some returning => exact ⟨rfl, ha returning rfl⟩

/-! ### Basic actions -/

theorem agree_fail {α β : Type} {results : α → β → Prop} (cause : RuntimeFault.Cause)
    (token : Token) :
    S.Agree (Run.fail cause token) (Run.fail cause (S.relocation token)) results :=
  .throw rfl

theorem agree_ofExcept {result : Except Halt Value}
    (h : ∀ value, result = .ok value → ∃ c, value = .constant c) :
    S.Agree (Run.ofExcept result) (Run.ofExcept (Value.relocateResult S.relocation result))
      S.Values := by
  cases result with
  | ok value =>
    obtain ⟨c, rfl⟩ := h value rfl
    exact .pure (values_constant c)
  | error halt => exact .throw rfl

theorem agree_lookUp (name : Token) :
    S.Agree (Run.lookUp name) (Run.lookUp (S.relocation name)) S.Values := by
  refine Agree.get.bind fun m n hmn => ?_
  obtain ⟨hget, hfrom⟩ := S.get? name.text hmn
  rw [Relocation.text_apply, hget]
  cases hvalue : m.store.get? m.scope name.text with
  | none => exact agree_fail .undefined name
  | some value => exact .pure ⟨rfl, hfrom value hvalue⟩

theorem agree_define (name : String) {v w : Value} (h : S.Values v w) :
    S.Agree (Run.define name v) (Run.define name w) fun _ _ => True := by
  obtain ⟨rfl, hv⟩ := h
  exact fun m n hmn => .ok (S.define name hmn hv) trivial

theorem agree_assign (name : Token) {v w : Value} (h : S.Values v w) :
    S.Agree (Run.assign name v) (Run.assign (S.relocation name) w) fun _ _ => True := by
  obtain ⟨rfl, hv⟩ := h
  intro m n hmn
  obtain ⟨hfound, hrelated⟩ := S.assign name.text hmn hv
  simp only [Run.assign, Relocation.text_apply, hfound]
  cases (m.store.assign m.scope name.text v).2 with
  | true => exact .ok hrelated trivial
  | false => exact .error hrelated rfl

theorem agree_makeScope {parent : ScopeId} (h : S.Visible parent) :
    S.Agree (Run.makeScope parent) (Run.makeScope parent) fun a b => b = a ∧ S.Visible a := by
  intro m n hmn
  obtain ⟨hsize, hvisible, hrelated⟩ := S.makeScope hmn h
  exact .ok hrelated ⟨hsize, hvisible⟩

theorem agree_makeFunction (name : Token) (params : List Token) (body : List Node) :
    S.Agree (Run.makeFunction name params body)
      (Run.makeFunction (S.relocation name) (params.map S.relocation)
        (body.map (Node.relocate S.relocation))) S.Values := by
  intro m n hmn
  obtain ⟨hfunctions, hrelated⟩ := S.makeFunction hmn
  refine .ok hrelated ⟨?_, S.visible_scope hmn⟩
  rw [hfunctions, S.scope_eq hmn]
  rfl

theorem agree_printLine (line : String) :
    S.Agree (Run.printLine line) (Run.printLine line) fun _ _ => True := by
  intro m n hmn
  refine .ok ?_ trivial
  simpa only [String.append_assoc] using S.print (line ++ "\n") hmn

theorem agree_within {α β : Type} {x : Run α} {y : Run β} {results : α → β → Prop} {id : ScopeId}
    (hid : S.Visible id) (hxy : S.Agree x y results) :
    S.Agree (Run.within id x) (Run.within id y) results := by
  intro m n hmn
  have hend := hxy _ _ (S.enter hmn hid)
  have hscope := S.visible_scope hmn
  simp only [Run.within, S.scope_eq hmn]
  generalize x _ = end₁ at hend
  generalize y _ = end₂ at hend
  cases hend with
  | ok hrelated hresults => exact .ok (S.enter hrelated hscope) hresults
  | error hrelated hhalt => exact .error (S.enter hrelated hscope) hhalt

/-! ### Evaluation -/

variable (S) in
/-- A tree and the moved tree are treated alike. -/
structure Agrees (sub : Evaluator) : Prop where
  evaluate : ∀ node,
    S.Agree (sub.evaluate node) (sub.evaluate (node.relocate S.relocation)) S.Values
  execute : ∀ node,
    S.Agree (sub.execute node) (sub.execute (node.relocate S.relocation)) S.Returns

variable {sub : Evaluator}

theorem agree_executeAll (hsub : S.Agrees sub) (statements : List Node) :
    S.Agree (sub.executeAll statements)
      (sub.executeAll (statements.map (Node.relocate S.relocation))) S.Returns := by
  induction statements with
  | nil => exact .pure returns_none
  | cons statement statements ih =>
    refine (hsub.execute statement).bind ?_
    rintro returning _ ⟨rfl, hreturning⟩
    cases returning with
    | none => exact ih
    | some returning => exact .pure ⟨rfl, hreturning⟩

theorem agree_executeInside (hsub : S.Agrees sub) {parent : ScopeId} (hparent : S.Visible parent)
    (names : List String) {values : List Value} (hvalues : ∀ v ∈ values, v.IsFrom S.Visible)
    (statements : List Node) :
    S.Agree (sub.executeInside parent (names.zip values) statements)
      (sub.executeInside parent (names.zip (values.map (Value.relocate S.relocation)))
        (statements.map (Node.relocate S.relocation))) S.Returns := by
  refine (agree_makeScope hparent).bind ?_
  rintro _ scope ⟨rfl, hscope⟩
  have hdefine : S.Agree ((names.zip values).forM fun entry => Run.define entry.1 entry.2)
      ((names.zip (values.map (Value.relocate S.relocation))).forM
        fun entry => Run.define entry.1 entry.2) fun _ _ => True := by
    rw [List.zip_map_right]
    exact Agree.forM fun entry hentry =>
      agree_define entry.1 ⟨rfl, hvalues _ (List.of_mem_zip hentry).2⟩
  exact agree_within hscope (hdefine.bind fun _ _ _ => agree_executeAll hsub statements)

theorem agree_repeatWhile {condition condition' : Run Bool} {body body' : Run (Option Returning)}
    (hcondition : S.Agree condition condition' Eq) (hbody : S.Agree body body' S.Returns)
    (fuel : Nat) :
    S.Agree (Evaluator.repeatWhile condition body fuel)
      (Evaluator.repeatWhile condition' body' fuel) S.Returns := by
  induction fuel with
  | zero => exact .throw rfl
  | succ fuel ih =>
    refine hcondition.bind ?_
    rintro holds _ rfl
    cases holds with
    | false => exact .pure returns_none
    | true =>
      refine hbody.bind ?_
      rintro returning _ ⟨rfl, hreturning⟩
      cases returning with
      | none => exact ih
      | some returning => exact .pure ⟨rfl, hreturning⟩

theorem agree_call (hsub : S.Agrees sub) {callee : Value} (hcallee : callee.IsFrom S.Visible)
    (paren : Token) {args : List Value} (hargs : ∀ arg ∈ args, arg.IsFrom S.Visible) :
    S.Agree (sub.call callee paren args)
      (sub.call (callee.relocate S.relocation) (S.relocation paren)
        (args.map (Value.relocate S.relocation))) S.Values := by
  cases callee with
  | function f =>
    have hbody := agree_executeInside hsub hcallee (f.params.map Token.text) hargs f.body
    simp only [Evaluator.call, Value.relocate, Closure.relocate, List.length_map,
      Relocation.map_text]
    split
    · exact fun _ _ hmn => .error hmn rfl
    · exact hbody.bind fun _ _ hreturns => .pure hreturns.values
  | constant c =>
    cases c with
    | print id =>
      have htexts : (args.map (Value.relocate S.relocation)).map Value.display =
          args.map Value.display := by
        rw [List.map_map]
        exact List.map_congr_left fun arg _ => Value.display_relocate S.relocation arg
      simp only [Evaluator.call, Value.relocate, Run.calling_print, List.isEmpty_map, htexts]
      split
      · exact agree_fail .nothingToPrint paren
      · exact (agree_printLine _).bind fun _ _ _ => .pure (values_constant .null)
    | _ => exact agree_fail .notCallable paren

theorem agree_step (name operator : Token) :
    S.Agree (Evaluator.step name operator)
      (Evaluator.step (S.relocation name) (S.relocation operator))
      fun a b => S.Values a.1 b.1 ∧ S.Values a.2 b.2 := by
  refine (agree_lookUp name).bind ?_
  rintro old _ ⟨rfl, hold⟩
  rw [Value.stepped_relocate]
  refine (agree_ofExcept fun _ => Value.constant_of_stepped).bind fun new new' hnew => ?_
  exact (agree_assign name hnew).bind fun _ _ _ => .pure ⟨⟨rfl, hold⟩, hnew⟩

theorem agree_expression (hsub : S.Agrees sub) (node : Node) :
    S.Agree (sub.expression node) (sub.expression (node.relocate S.relocation)) S.Values := by
  cases node with
  | literal value => exact .pure (values_constant value)
  | reference name => exact agree_lookUp name
  | assignment name value =>
    refine (hsub.evaluate value).bind fun value value' hvalue => ?_
    exact (agree_assign name hvalue).bind fun _ _ _ => .pure hvalue
  | binary left operator right =>
    refine (hsub.evaluate left).bind ?_
    rintro left _ ⟨rfl, -⟩
    refine (hsub.evaluate right).bind ?_
    rintro right _ ⟨rfl, -⟩
    rw [Value.binary_relocate]
    exact agree_ofExcept fun _ => Value.constant_of_binary
  | logical left operator right =>
    refine (hsub.evaluate left).bind ?_
    rintro left _ ⟨rfl, hleft⟩
    rw [Value.isTruthy_relocate, Relocation.kind_apply]
    split
    · exact .pure ⟨rfl, hleft⟩
    · exact hsub.evaluate right
  | unary operator right =>
    refine (hsub.evaluate right).bind ?_
    rintro right _ ⟨rfl, -⟩
    rw [Value.unary_relocate]
    exact agree_ofExcept fun _ => Value.constant_of_unary
  | ternary condition thenBranch elseBranch =>
    refine (hsub.evaluate condition).bind ?_
    rintro value _ ⟨rfl, -⟩
    rw [Value.isTruthy_relocate]
    split
    · exact hsub.evaluate thenBranch
    · exact hsub.evaluate elseBranch
  | grouping inner => exact hsub.evaluate inner
  | call callee paren args =>
    rw [Node.relocate, Node.relocateAll_eq_map]
    refine (hsub.evaluate callee).bind ?_
    rintro callee _ ⟨rfl, hcallee⟩
    refine (Agree.mapM fun arg _ => hsub.evaluate arg).bind ?_
    rintro args _ ⟨rfl, hargs⟩
    exact agree_call hsub hcallee paren hargs
  | stepAfter name operator => exact (agree_step name operator).bind fun _ _ h => .pure h.1
  | stepBefore name operator => exact (agree_step name operator).bind fun _ _ h => .pure h.2
  | _ => exact .throw rfl

theorem agree_statement (hsub : S.Agrees sub) (fuel : Nat) (node : Node) :
    S.Agree (sub.statement fuel node) (sub.statement fuel (node.relocate S.relocation))
      S.Returns := by
  cases node with
  | discard expression => exact (hsub.evaluate expression).bind fun _ _ _ => .pure returns_none
  | declaration name initial =>
    have hdefine {v w : Value} (h : S.Values v w) :
        S.Agree (Run.define name.text v >>= fun _ => pure none)
          (Run.define (S.relocation name).text w >>= fun _ => pure none) S.Returns :=
      (agree_define name.text h).bind fun _ _ _ => .pure returns_none
    cases initial with
    | none => exact hdefine (values_constant .null)
    | some initial => exact (hsub.evaluate initial).bind fun _ _ hvalue => hdefine hvalue
  | block statements =>
    rw [Node.relocate, Node.relocateAll_eq_map]
    refine Agree.get.bind fun m n hmn => ?_
    rw [S.scope_eq hmn]
    exact agree_executeInside hsub (S.visible_scope hmn) [] (List.forall_mem_nil _) statements
  | branch condition thenBranch elseBranch =>
    refine (hsub.evaluate condition).bind ?_
    rintro value _ ⟨rfl, -⟩
    rw [Value.isTruthy_relocate]
    split
    · exact hsub.execute thenBranch
    · cases elseBranch with
      | none => exact .pure returns_none
      | some elseBranch => exact hsub.execute elseBranch
  | loop condition body =>
    refine agree_repeatWhile ((hsub.evaluate condition).map ?_) (hsub.execute body) fuel
    rintro value _ ⟨rfl, -⟩
    exact (Value.isTruthy_relocate S.relocation value).symm
  | function name params body =>
    rw [Node.relocate, Node.relocateAll_eq_map]
    refine (agree_makeFunction name params body).bind fun value value' hvalue => ?_
    exact (agree_define name.text hvalue).bind fun _ _ _ => .pure returns_none
  | result keyword value =>
    cases value with
    | none => exact .pure ((values_constant .null).returns keyword)
    | some value =>
      exact (hsub.evaluate value).bind fun _ _ hvalue => .pure (hvalue.returns keyword)
  | _ => exact .throw rfl

variable (S) in
/-- Evaluation keeps the relation, at every depth. -/
theorem agrees_bounded (fuel depth : Nat) : S.Agrees (Evaluator.bounded fuel depth) := by
  induction depth with
  | zero => exact ⟨fun _ => .throw rfl, fun _ => .throw rfl⟩
  | succ depth ih => exact ⟨agree_expression ih, agree_statement ih fuel⟩

end Simulation

end Script
