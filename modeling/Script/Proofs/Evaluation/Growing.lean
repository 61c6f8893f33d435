import Script.Proofs.Agreement
import Script.Proofs.Evaluation.Keeping

/-!
# What a run does to the scopes around it

A run may make scopes, but it removes none, and wherever it has been in between, it ends in the
scope in which it was started. A scope that was there before keeps its names in their order. Only
the scope in which a statement is run can get new names, and these are the names that the statement
declares outside of its blocks and functions.

All of this holds of every node, in the place of an expression or of a statement, on every machine,
and for every way in which a run can end.

## Main definitions

* `stateAfter` : the state that a run leaves behind.
* `Node.declared` : the names that a statement declares in the scope in which it is run.
* `Machine.Grows` : what a run can do to the scopes of a machine.

## Main results

* `Evaluator.grows_bounded` : machines grow by evaluation, at every depth.
* `names_stateAfter` : the names of the scopes around a run.
-/

namespace Script

/-- The state that a run leaves behind, whether it ends or halts. -/
def stateAfter {ε σ α : Type} (x : EStateM ε σ α) (s : σ) : σ :=
  match x s with
  | .ok _ s | .error _ s => s

/-- Runs that end alike leave states that are related. -/
theorem EndAlike.stateAfter {ε δ σ τ α β : Type} {states : σ → τ → Prop} {halts : ε → δ → Prop}
    {results : α → β → Prop} {x : EStateM ε σ α} {y : EStateM δ τ β} {s : σ} {t : τ}
    (h : EndAlike states halts results (x s) (y t)) :
    states (Script.stateAfter x s) (Script.stateAfter y t) := by
  rw [Script.stateAfter, Script.stateAfter]
  cases hx : x s <;> cases hy : y t <;> rw [hx, hy] at h <;> cases h <;> assumption

/-- What a run ends with, if it does not halt. -/
def resultOf? {ε σ α : Type} (x : EStateM ε σ α) (s : σ) : Option α :=
  match x s with
  | .ok a _ => some a
  | .error _ _ => none

/-- Why a run halts, if it does. -/
def haltOf? {ε σ α : Type} (x : EStateM ε σ α) (s : σ) : Option ε :=
  match x s with
  | .ok _ _ => none
  | .error halt _ => some halt

theorem eq_ok_of_resultOf? {ε σ α : Type} {x : EStateM ε σ α} {s : σ} {a : α}
    (h : resultOf? x s = some a) : x s = .ok a (stateAfter x s) := by
  rw [resultOf?] at h
  rw [stateAfter]
  cases hrun : x s with
  | ok b t =>
    rw [hrun] at h
    cases h
    rfl
  | error halt t =>
    rw [hrun] at h
    cases h

theorem eq_error_of_haltOf? {ε σ α : Type} {x : EStateM ε σ α} {s : σ} {halt : ε}
    (h : haltOf? x s = some halt) : x s = .error halt (stateAfter x s) := by
  rw [haltOf?] at h
  rw [stateAfter]
  cases hrun : x s with
  | ok b t =>
    rw [hrun] at h
    cases h
  | error halt' t =>
    rw [hrun] at h
    cases h
    rfl

theorem stateAfter_bind {ε σ α β : Type} (x : EStateM ε σ α) (f : α → EStateM ε σ β) (s : σ) :
    stateAfter (x >>= f) s = stateAfter x s ∨
      ∃ a, stateAfter (x >>= f) s = stateAfter (f a) (stateAfter x s) := by
  simp only [stateAfter, Bind.bind, EStateM.bind]
  cases x s with
  | ok a s' => exact .inr ⟨a, rfl⟩
  | error halt s' => exact .inl rfl

/-! ### Names -/

namespace Dictionary

variable {α : Type}

theorem binds_cons (d : Dictionary α) (other name : String) (value : α) :
    binds ((other, value) :: d) name = (decide (other = name) || binds d name) := by
  by_cases h : other = name <;> simp [binds, get?, h]

theorem names_put (d : Dictionary α) (name : String) (value : α) :
    (d.put name value).names = if d.binds name then d.names else d.names ++ [name] := by
  induction d with
  | nil => rfl
  | cons entry d ih =>
    obtain ⟨other, old⟩ := entry
    rw [put, binds_cons]
    by_cases heq : other = name
    · simp [heq, names]
    · simp only [names] at ih
      simp only [heq, names, if_false, List.map_cons, ih, decide_false, Bool.false_or]
      split <;> rfl

end Dictionary

namespace Store

variable {α : Type}

/-- The names that are bound in a scope itself, in the order of their first binding. -/
def names (s : Store α) (id : ScopeId) : List String :=
  (s.bindings id).names

@[simp] theorem size_push (s : Store α) (parent : Option ScopeId) :
    (s.push parent).size = s.size + 1 :=
  Array.size_push _

@[simp] theorem size_define (s : Store α) (id : ScopeId) (name : String) (value : α) :
    (s.define id name value).size = s.size :=
  Array.size_modify

@[simp] theorem names_push (s : Store α) (parent : Option ScopeId) (id : ScopeId) :
    (s.push parent).names id = s.names id := by
  rw [names, bindings_push, names]

theorem names_define_of_ne (s : Store α) {id target : ScopeId} (name : String) (value : α)
    (h : target ≠ id) : (s.define target name value).names id = s.names id := by
  rw [names, bindings_define, if_neg fun hand => h hand.1, names]

theorem names_define_of_binds (s : Store α) {target : ScopeId} {name : String} (value : α)
    (h : (s.bindings target).binds name) (id : ScopeId) :
    (s.define target name value).names id = s.names id := by
  rw [names, bindings_define]
  split
  · next hand =>
    obtain ⟨rfl, -⟩ := hand
    rw [Dictionary.names_put, if_pos h, names]
  · rfl

/-- Binding a name adds at most this name. -/
theorem names_define_self (s : Store α) (id : ScopeId) (name : String) (value : α) :
    ∃ added, (s.define id name value).names id = s.names id ++ added ∧ added ⊆ [name] := by
  rw [names, bindings_define]
  split
  · rw [Dictionary.names_put]
    split
    · exact ⟨[], (List.append_nil _).symm, List.nil_subset _⟩
    · exact ⟨[name], rfl, List.Subset.refl _⟩
  · exact ⟨[], (List.append_nil _).symm, List.nil_subset _⟩

/-- The scope that a name is found in binds it. -/
theorem binds_of_resolve? {s : Store α} {id target : ScopeId} {name : String}
    (h : s.resolve? id name = some target) : (s.bindings target).binds name := by
  fun_induction resolve? s id name with
  | case1 => cases h
  | case2 id scope hscope hbinds =>
    cases h
    rwa [bindings, hscope]
  | case3 => cases h
  | case4 id scope _ _ parent _ _ ih => exact ih h
  | case5 => cases h

/-- Changing a binding changes no names, and makes no scope. -/
theorem names_assign (s : Store α) (start : ScopeId) (name : String) (value : α) (id : ScopeId) :
    (s.assign start name value).1.names id = s.names id := by
  rw [assign]
  cases hresolve : s.resolve? start name with
  | none => rfl
  | some target => exact s.names_define_of_binds value (binds_of_resolve? hresolve) id

theorem size_assign (s : Store α) (start : ScopeId) (name : String) (value : α) :
    (s.assign start name value).1.size = s.size := by
  rcases s.assign_cases start name value with h | ⟨target, h⟩
  · rw [h]
  · rw [h, size_define]

end Store

/-- The names that a statement declares in the scope in which it is run. Those of a block and of the
body of a function are declared in scopes of their own. -/
def Node.declared : Node → List String
  | .declaration name _ | .function name _ _ => [name.text]
  | .branch _ thenBranch none => thenBranch.declared
  | .branch _ thenBranch (some elseBranch) => thenBranch.declared ++ elseBranch.declared
  | .loop _ body => body.declared
  | _ => []

/-! ### Growing machines -/

/-- A run that declares some names can lead from one machine to the other. -/
structure Machine.Grows (declared : List String) (m m' : Machine) : Prop where
  /-- The run ends in the scope in which it was started. -/
  scope : m'.scope = m.scope
  /-- No scope is removed. -/
  size : m.store.size ≤ m'.store.size
  /-- A scope keeps its names, and only the current one gets new ones. -/
  names : ∀ id < m.store.size, ∃ added, m'.store.names id = m.store.names id ++ added ∧
    ∀ name ∈ added, id = m.scope ∧ name ∈ declared

namespace Machine.Grows

variable {declared : List String} {m m' m'' : Machine}

/-- A machine that differs in neither scope, size nor names has grown by nothing. -/
theorem of_names_eq (hscope : m'.scope = m.scope) (hsize : m'.store.size = m.store.size)
    (hnames : ∀ id, m'.store.names id = m.store.names id) : m.Grows declared m' where
  scope := hscope
  size := Nat.le_of_eq hsize.symm
  names := fun id _ => ⟨[], by rw [hnames, List.append_nil], List.forall_mem_nil _⟩

theorem refl (m : Machine) : m.Grows declared m :=
  of_names_eq rfl rfl fun _ => rfl

theorem trans (h : m.Grows declared m') (h' : m'.Grows declared m'') : m.Grows declared m'' where
  scope := h'.scope.trans h.scope
  size := Nat.le_trans h.size h'.size
  names := by
    intro id hid
    obtain ⟨added, hnames, hadded⟩ := h.names id hid
    obtain ⟨added', hnames', hadded'⟩ := h'.names id (Nat.lt_of_lt_of_le hid h.size)
    refine ⟨added ++ added', by rw [hnames', hnames, List.append_assoc], ?_⟩
    rw [h.scope] at hadded'
    exact List.forall_mem_append.mpr ⟨hadded, hadded'⟩

theorem mono {declared' : List String} (hsub : declared ⊆ declared') (h : m.Grows declared m') :
    m.Grows declared' m' where
  scope := h.scope
  size := h.size
  names := by
    intro id hid
    obtain ⟨added, hnames, hadded⟩ := h.names id hid
    exact ⟨added, hnames, fun name hname => (hadded name hname).imp_right (hsub ·)⟩

/-- A scope other than the current one keeps exactly its names. -/
theorem names_eq_of_ne (h : m.Grows declared m') {id : ScopeId} (hid : id < m.store.size)
    (hne : id ≠ m.scope) : m'.store.names id = m.store.names id := by
  obtain ⟨added, hnames, hadded⟩ := h.names id hid
  cases added with
  | nil => rw [hnames, List.append_nil]
  | cons name added => exact absurd (hadded name List.mem_cons_self).1 hne

/-- Where nothing is declared, every scope keeps exactly its names. -/
theorem names_eq (h : m.Grows [] m') {id : ScopeId} (hid : id < m.store.size) :
    m'.store.names id = m.store.names id := by
  obtain ⟨added, hnames, hadded⟩ := h.names id hid
  cases added with
  | nil => rw [hnames, List.append_nil]
  | cons name added => exact absurd (hadded name List.mem_cons_self).2 List.not_mem_nil

end Machine.Grows

/-- An action that declares some names in the current scope. -/
def Run.Grows {α : Type} (declared : List String) (x : Run α) : Prop :=
  ∀ m : Machine, m.Grows declared (stateAfter x m)

namespace Run

variable {α β : Type} {declared declared' : List String} {x : Run α}

theorem Grows.mono (hx : Grows declared x) (hsub : declared ⊆ declared') : Grows declared' x :=
  fun m => (hx m).mono hsub

theorem grows_pure (a : α) : Grows declared (pure a : Run α) :=
  fun m => .refl m

theorem grows_throw (halt : Halt) : Grows declared (throw halt : Run α) :=
  fun m => .refl m

theorem Grows.bind {f : α → Run β} (hx : Grows declared x) (hf : ∀ a, Grows declared (f a)) :
    Grows declared (x >>= f) := by
  intro m
  rcases stateAfter_bind x f m with h | ⟨a, h⟩
  · rw [h]
    exact hx m
  · rw [h]
    exact (hx m).trans (hf a _)

theorem Grows.map {f : α → β} (hx : Grows declared x) : Grows declared (f <$> x) := by
  rw [map_eq_pure_bind]
  exact hx.bind fun a => grows_pure _

theorem grows_mapM {f : α → Run β} (hf : ∀ a, Grows declared (f a)) (as : List α) :
    Grows declared (as.mapM f) := by
  induction as with
  | nil => exact grows_pure _
  | cons a as ih =>
    rw [List.mapM_cons]
    exact (hf a).bind fun b => ih.bind fun bs => grows_pure _

theorem grows_forM {f : α → Run PUnit} {as : List α} (hf : ∀ a ∈ as, Grows declared (f a)) :
    Grows declared (as.forM f) := by
  induction as with
  | nil => exact grows_pure _
  | cons a as ih =>
    rw [List.forall_mem_cons] at hf
    exact hf.1.bind fun _ => ih hf.2

/-! ### Basic actions -/

theorem grows_ofExcept (result : Except Halt α) : Grows declared (ofExcept result) := by
  cases result with
  | ok a => exact grows_pure a
  | error halt => exact grows_throw halt

theorem grows_get : Grows declared (get : Run Machine) :=
  fun m => .refl m

theorem grows_define {name : String} (hname : name ∈ declared) (value : Value) :
    Grows declared (define name value) := by
  intro m
  refine ⟨rfl, Nat.le_of_eq (m.store.size_define ..).symm, fun id _ => ?_⟩
  by_cases hid : m.scope = id
  · subst hid
    obtain ⟨added, hnames, hadded⟩ := m.store.names_define_self m.scope name value
    refine ⟨added, hnames, fun other hother => ⟨rfl, ?_⟩⟩
    rwa [List.mem_singleton.mp (hadded hother)]
  · refine ⟨[], ?_, List.forall_mem_nil _⟩
    rw [List.append_nil]
    exact m.store.names_define_of_ne name value hid

theorem grows_lookUp (name : Token) : Grows declared (lookUp name) := by
  refine grows_get.bind fun m => ?_
  split
  · exact grows_pure _
  · exact grows_throw _

theorem grows_assign (name : Token) (value : Value) : Grows declared (assign name value) := by
  intro m
  have hafter : stateAfter (assign name value) m =
      { m with store := (m.store.assign m.scope name.text value).1 } := by
    simp only [stateAfter, assign]
    cases (m.store.assign m.scope name.text value).2 <;> rfl
  rw [hafter]
  exact .of_names_eq rfl (m.store.size_assign ..) fun id => m.store.names_assign ..

theorem grows_makeFunction (name : Token) (params : List Token) (body : List Node) :
    Grows declared (makeFunction name params body) :=
  fun _ => .of_names_eq rfl rfl fun _ => rfl

theorem grows_printLine (line : String) : Grows declared (printLine line) :=
  fun _ => .of_names_eq rfl rfl fun _ => rfl

/-- Work in a new scope declares nothing in the current one, whatever it declares in its own. -/
theorem grows_inside (hx : Grows declared x) (parent : ScopeId) :
    Grows declared' (makeScope parent >>= fun scope => within scope x) := by
  intro m
  let inner : Machine := { m with store := m.store.push (some parent), scope := m.store.size }
  have hafter : stateAfter (makeScope parent >>= fun scope => within scope x) m =
      { stateAfter x inner with scope := m.scope } := by
    simp only [stateAfter, Bind.bind, EStateM.bind, makeScope, within]
    cases x inner <;> rfl
  have hgrows := hx inner
  rw [hafter]
  refine ⟨rfl, ?_, fun id hid => ⟨[], ?_, List.forall_mem_nil _⟩⟩
  · calc m.store.size ≤ inner.store.size := by simp [inner]
      _ ≤ (stateAfter x inner).store.size := hgrows.size
  · have hlt : id < inner.store.size := by
      rw [Store.size_push]
      exact Nat.lt_succ_of_lt hid
    rw [List.append_nil]
    calc (stateAfter x inner).store.names id
        = inner.store.names id := hgrows.names_eq_of_ne hlt (Nat.ne_of_lt hid)
      _ = m.store.names id := m.store.names_push ..

end Run

/-! ### Evaluation -/

open Run

/-- Expressions declare nothing, and statements declare what they say. -/
structure Evaluator.Grows (sub : Evaluator) : Prop where
  evaluate : ∀ node, Run.Grows [] (sub.evaluate node)
  execute : ∀ node, Run.Grows node.declared (sub.execute node)

namespace Evaluator

variable {sub : Evaluator}

theorem grows_executeAll (hsub : sub.Grows) (statements : List Node) :
    Run.Grows (statements.flatMap Node.declared) (sub.executeAll statements) := by
  induction statements with
  | nil => exact grows_pure _
  | cons statement statements ih =>
    rw [List.flatMap_cons]
    refine ((hsub.execute statement).mono (List.subset_append_left ..)).bind fun returning => ?_
    cases returning with
    | some returning => exact grows_pure _
    | none => exact ih.mono (List.subset_append_right ..)

theorem grows_executeInside (hsub : sub.Grows) (parent : ScopeId)
    (bindings : List (String × Value)) (statements : List Node) :
    Run.Grows [] (sub.executeInside parent bindings statements) := by
  let declared := bindings.map Prod.fst ++ statements.flatMap Node.declared
  have hbindings : Run.Grows declared (bindings.forM fun entry => define entry.1 entry.2) :=
    grows_forM fun entry hentry =>
      grows_define (List.mem_append_left _ (List.mem_map_of_mem hentry)) entry.2
  have hstatements : Run.Grows declared (sub.executeAll statements) :=
    (grows_executeAll hsub statements).mono (List.subset_append_right ..)
  exact grows_inside (hbindings.bind fun _ => hstatements) parent

theorem grows_repeatWhile {declared : List String} {condition : Run Bool}
    {body : Run (Option Returning)} (hcondition : Run.Grows declared condition)
    (hbody : Run.Grows declared body) (fuel : Nat) :
    Run.Grows declared (repeatWhile condition body fuel) := by
  induction fuel with
  | zero => exact grows_throw _
  | succ fuel ih =>
    refine hcondition.bind fun holds => ?_
    cases holds with
    | false => exact grows_pure _
    | true =>
      refine hbody.bind fun returning => ?_
      cases returning with
      | some returning => exact grows_pure _
      | none => exact ih

theorem grows_call (hsub : sub.Grows) (callee : Value) (paren : Token) (args : List Value) :
    Run.Grows [] (sub.call callee paren args) := by
  unfold call
  split
  · next f =>
    have hbody := grows_executeInside hsub f.scope ((f.params.map Token.text).zip args) f.body
    split
    · exact (grows_throw _).bind fun _ => hbody.bind fun _ => grows_pure _
    · exact hbody.bind fun _ => grows_pure _
  · rw [calling_print]
    split
    · exact grows_throw _
    · exact (grows_printLine _).bind fun _ => grows_pure _
  · exact grows_throw _

theorem grows_step (name operator : Token) : Run.Grows [] (step name operator) := by
  refine (grows_lookUp name).bind fun old => (grows_ofExcept _).bind fun new => ?_
  exact (grows_assign name new).bind fun _ => grows_pure _

theorem grows_expression (hsub : sub.Grows) (node : Node) :
    Run.Grows [] (sub.expression node) := by
  cases node with
  | literal value => exact grows_pure _
  | reference name => exact grows_lookUp name
  | assignment name value =>
    refine (hsub.evaluate value).bind fun value => ?_
    exact (grows_assign name value).bind fun _ => grows_pure _
  | binary left operator right =>
    refine (hsub.evaluate left).bind fun left => ?_
    exact (hsub.evaluate right).bind fun right => grows_ofExcept _
  | logical left operator right =>
    refine (hsub.evaluate left).bind fun left => ?_
    split
    · exact grows_pure _
    · exact hsub.evaluate right
  | unary operator right => exact (hsub.evaluate right).bind fun right => grows_ofExcept _
  | ternary condition thenBranch elseBranch =>
    refine (hsub.evaluate condition).bind fun value => ?_
    split
    · exact hsub.evaluate thenBranch
    · exact hsub.evaluate elseBranch
  | grouping inner => exact hsub.evaluate inner
  | call callee paren args =>
    refine (hsub.evaluate callee).bind fun callee => ?_
    exact (grows_mapM hsub.evaluate args).bind fun args => grows_call hsub callee paren args
  | stepAfter name operator => exact (grows_step name operator).bind fun _ => grows_pure _
  | stepBefore name operator => exact (grows_step name operator).bind fun _ => grows_pure _
  | _ => exact grows_throw _

theorem grows_statement (hsub : sub.Grows) (fuel : Nat) (node : Node) :
    Run.Grows node.declared (sub.statement fuel node) := by
  have hevaluate (declared : List String) (node : Node) :
      Run.Grows declared (sub.evaluate node) :=
    (hsub.evaluate node).mono (List.nil_subset _)
  cases node with
  | discard expression => exact (hevaluate _ expression).bind fun _ => grows_pure _
  | declaration name initial =>
    have hname : name.text ∈ (Node.declaration name initial).declared := by simp [Node.declared]
    cases initial with
    | none => exact (grows_define hname _).bind fun _ => grows_pure _
    | some initial =>
      refine (hevaluate _ initial).bind fun value => ?_
      exact (grows_define hname value).bind fun _ => grows_pure _
  | block statements =>
    refine Grows.mono ?_ (List.nil_subset _)
    exact grows_get.bind fun m => grows_executeInside hsub m.scope [] statements
  | branch condition thenBranch elseBranch =>
    refine (hevaluate _ condition).bind fun value => ?_
    cases elseBranch with
    | none =>
      split
      · exact hsub.execute thenBranch
      · exact grows_pure _
    | some elseBranch =>
      split
      · exact (hsub.execute thenBranch).mono (List.subset_append_left ..)
      · exact (hsub.execute elseBranch).mono (List.subset_append_right ..)
  | loop condition body =>
    exact grows_repeatWhile (hevaluate _ condition).map (hsub.execute body) fuel
  | function name params body =>
    refine (grows_makeFunction name params body).bind fun value => ?_
    exact (grows_define List.mem_cons_self value).bind fun _ => grows_pure _
  | result keyword value =>
    cases value with
    | none => exact grows_pure _
    | some value => exact (hevaluate _ value).bind fun _ => grows_pure _
  | _ => exact grows_throw _

/-- Machines grow by evaluation, at every depth. -/
theorem grows_bounded (fuel depth : Nat) : (bounded fuel depth).Grows := by
  induction depth with
  | zero => exact ⟨fun _ => grows_throw _, fun _ => grows_throw _⟩
  | succ depth ih => exact ⟨grows_expression ih, grows_statement ih fuel⟩

end Evaluator

/-- The names of the scopes that were there before a run. Evaluating leaves them as they are.
Executing leaves those of every scope but the current one as they are; the current one loses no name
and gets only names that the statement declares outside of its blocks and functions. So a block
leaves the names of all scopes as they are. -/
theorem names_stateAfter (fuel depth : Nat) (m : Machine) :
    (∀ node, ∀ id < m.store.size,
      (stateAfter ((Evaluator.bounded fuel depth).evaluate node) m).store.names id =
        m.store.names id) ∧
    (∀ node, ∀ id < m.store.size, id ≠ m.scope →
      (stateAfter ((Evaluator.bounded fuel depth).execute node) m).store.names id =
        m.store.names id) ∧
    (∀ node, m.scope < m.store.size →
      m.store.names m.scope ⊆
        (stateAfter ((Evaluator.bounded fuel depth).execute node) m).store.names m.scope ∧
      ∀ name ∈ (stateAfter ((Evaluator.bounded fuel depth).execute node) m).store.names m.scope,
        name ∈ m.store.names m.scope ∨ name ∈ node.declared) ∧
    ∀ statements, ∀ id < m.store.size,
      (stateAfter ((Evaluator.bounded fuel depth).execute (.block statements)) m).store.names id =
        m.store.names id := by
  have hsub := Evaluator.grows_bounded fuel depth
  refine ⟨fun node id hid => (hsub.evaluate node m).names_eq hid,
    fun node id hid hne => (hsub.execute node m).names_eq_of_ne hid hne, fun node hid => ?_,
    fun statements id hid => (hsub.execute (.block statements) m).names_eq hid⟩
  obtain ⟨added, hnames, hadded⟩ := (hsub.execute node m).names m.scope hid
  rw [hnames]
  refine ⟨List.subset_append_left .., fun name hname => ?_⟩
  exact (List.mem_append.mp hname).imp_right fun h => (hadded name h).2

/-- A choice between `var x;` and a block that declares another name, run in a scope inside the
global one: the global scope keeps its names, and `x` is all that the inner one can get. -/
theorem names_stateAfter_branch :
    let outer := (Machine.start 0).store
    let m : Machine := ⟨outer.push (some 0), 1, 0, ""⟩
    let word (text : String) : Token := ⟨.identifier, text, .null, 1, 1, 1⟩
    let node : Node := .branch (.literal (.bool true)) (.declaration (word "x") none)
      (some (.block [.declaration (word "y") none]))
    (stateAfter (execute 0 node) m).store.names 0 = ["print"] ∧
      ∀ name ∈ (stateAfter (execute 0 node) m).store.names 1, name = "x" := by
  intro outer m word node
  obtain ⟨-, hothers, hcurrent, -⟩ := names_stateAfter 0 nestingLimit m
  refine ⟨hothers node 0 (by decide) (by decide), fun name hname => ?_⟩
  rcases (hcurrent node (by decide)).2 name hname with hold | hnew
  · exact absurd hold List.not_mem_nil
  · exact List.mem_singleton.mp hnew

end Script
