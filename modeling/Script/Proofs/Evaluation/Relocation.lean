import Script.Proofs.Evaluation.Keeping
import Script.Proofs.Evaluation.Simulation

/-!
# Running does not look at places

A machine that runs a tree with its tokens moved does what it does with the tree itself. The
functions that it binds have their tokens moved as well, and a fault that it comes to is at a moved
token.

## Main definitions

* `Store.map` : the store with a function applied to all values.
* `Machine.relocate` : the machine with the tokens of its functions moved.

## Main results

* `Evaluator.executeAll_relocate` : running moved statements.
-/

namespace Script

/-! ### Values of a store -/

namespace Dictionary

variable {α β : Type} (g : α → β)

/-- The dictionary with a function applied to all values. -/
def mapValues (d : Dictionary α) : Dictionary β :=
  d.map fun (name, value) => (name, g value)

theorem get?_mapValues (d : Dictionary α) (name : String) :
    (d.mapValues g).get? name = (d.get? name).map g := by
  induction d with
  | nil => rfl
  | cons entry d ih =>
    simp only [mapValues, List.map_cons, get?] at ih ⊢
    rw [ih, apply_ite (Option.map g), Option.map_some]

theorem binds_mapValues (d : Dictionary α) (name : String) :
    (d.mapValues g).binds name = d.binds name := by
  rw [binds, get?_mapValues, Option.isSome_map, binds]

theorem mapValues_put (d : Dictionary α) (name : String) (value : α) :
    (d.put name value).mapValues g = (d.mapValues g).put name (g value) := by
  induction d with
  | nil => rfl
  | cons entry d ih =>
    simp only [mapValues, put, List.map_cons] at ih ⊢
    split
    · rfl
    · rw [List.map_cons, ih]

end Dictionary

namespace Store

variable {α β : Type} (g : α → β)

/-- The store with a function applied to all values. -/
def map (s : Store α) : Store β :=
  ⟨s.scopes.map fun scope => ⟨scope.bindings.mapValues g, scope.parent⟩⟩

variable (s : Store α)

@[simp] theorem size_map : (s.map g).size = s.size :=
  Array.size_map

theorem map_id : s.map id = s := by
  obtain ⟨scopes⟩ := s
  refine congrArg Store.mk ?_
  have hscope :
      (fun scope : Scope α => Scope.mk (scope.bindings.mapValues id) scope.parent) = id := by
    funext ⟨bindings, parent⟩
    exact congrArg (Scope.mk · parent) (List.map_id' bindings)
  rw [hscope, Array.map_id]

theorem bindings_map (id : ScopeId) : (s.map g).bindings id = (s.bindings id).mapValues g := by
  rw [bindings, map, Array.getElem?_map, bindings]
  cases s.scopes[id]? <;> rfl

theorem map_push (parent : Option ScopeId) : (s.push parent).map g = (s.map g).push parent :=
  congrArg Store.mk Array.map_push

theorem map_define (id : ScopeId) (name : String) (value : α) :
    (s.define id name value).map g = (s.map g).define id name (g value) := by
  refine congrArg Store.mk (Array.ext_getElem? fun i => ?_)
  rw [Array.getElem?_map, define, Array.getElem?_modify, Array.getElem?_modify, map,
    Array.getElem?_map]
  split
  · cases s.scopes[i]? with
    | none => rfl
    | some scope =>
      simp only [Option.map_some, Dictionary.mapValues_put]
  · rfl

theorem resolve?_map (id : ScopeId) (name : String) :
    (s.map g).resolve? id name = s.resolve? id name := by
  fun_induction resolve? s id name with
  | case1 id hnone => rw [resolve?, map, Array.getElem?_map, hnone, Option.map_none]
  | case2 id scope hsome hbinds =>
    rw [resolve?, map, Array.getElem?_map, hsome, Option.map_some]
    simp only [Dictionary.binds_mapValues, hbinds, if_true]
  | case3 id scope hsome hbinds hparent =>
    rw [resolve?, map, Array.getElem?_map, hsome, Option.map_some]
    simp only [Dictionary.binds_mapValues, if_neg hbinds, hparent]
  | case4 id scope hsome hbinds parent hparent hlt ih =>
    rw [resolve?, map, Array.getElem?_map, hsome, Option.map_some]
    simp only [Dictionary.binds_mapValues, if_neg hbinds, hparent, if_pos hlt]
    exact ih
  | case5 id scope hsome hbinds parent hparent hlt =>
    rw [resolve?, map, Array.getElem?_map, hsome, Option.map_some]
    simp only [Dictionary.binds_mapValues, if_neg hbinds, hparent, if_neg hlt]

theorem get?_map (id : ScopeId) (name : String) :
    (s.map g).get? id name = (s.get? id name).map g := by
  simp only [get?, resolve?_map]
  cases s.resolve? id name with
  | none => rfl
  | some target =>
    simp only [Option.bind_eq_bind, Option.bind_some, bindings_map, Dictionary.get?_mapValues]

theorem assign_map (id : ScopeId) (name : String) (value : α) :
    (s.map g).assign id name (g value) =
      ((s.assign id name value).1.map g, (s.assign id name value).2) := by
  rw [assign, resolve?_map, assign]
  cases s.resolve? id name with
  | none => rfl
  | some target => simp only [map_define]

end Store

/-! ### Machines -/

/-- The machine with the tokens of its functions moved. -/
def Machine.relocate (r : Relocation) (m : Machine) : Machine :=
  { m with store := m.store.map (Value.relocate r) }

theorem Machine.relocate_stay (m : Machine) : m.relocate .stay = m := by
  have hvalue : Value.relocate .stay = id := funext Value.relocate_stay
  rw [relocate, hvalue, Store.map_id]

/-- There is nothing to move in a machine at the start. -/
theorem Machine.relocate_start (r : Relocation) (id : Nat) :
    (Machine.start id).relocate r = .start id := by
  have hempty : (Store.empty : Store Value).map (Value.relocate r) = .empty :=
    congrArg Store.mk Array.map_empty
  rw [relocate, start, Store.map_define, Store.map_push, hempty, Value.relocate]

/-- A machine runs moved trees as it runs the trees. -/
def Simulation.relocating (r : Relocation) : Simulation where
  relocation := r
  Visible _ := True
  Related m n := n = m.relocate r
  scope_eq := by
    rintro m _ rfl
    rfl
  visible_scope _ := trivial
  enter := by
    rintro m _ id rfl -
    rfl
  print := by
    rintro m _ line rfl
    rfl
  makeFunction := by
    rintro m _ rfl
    exact ⟨rfl, rfl⟩
  makeScope := by
    rintro m _ parent rfl -
    exact ⟨m.store.size_map _, trivial, by simp only [Machine.relocate, Store.map_push]⟩
  define := by
    rintro m _ name value rfl -
    simp only [Machine.relocate, Store.map_define]
  assign := by
    rintro m _ name value rfl -
    simp only [Machine.relocate, Store.assign_map, and_self]
  get? := by
    rintro m _ name rfl
    refine ⟨Store.get?_map .., fun value _ => ?_⟩
    cases value <;> trivial

/-- The end of a run with its tokens moved. -/
def relocateEnd (r : Relocation) :
    EStateM.Result Halt Machine (Option Returning) → EStateM.Result Halt Machine (Option Returning)
  | .ok returning m => .ok (returning.map (Returning.relocate r)) (m.relocate r)
  | .error halt m => .error (halt.relocate r) (m.relocate r)

/-- Running moved statements on a moved machine ends as running the statements does, moved. -/
theorem Evaluator.executeAll_relocate (r : Relocation) (fuel depth : Nat) (statements : List Node)
    (m : Machine) :
    (bounded fuel depth).executeAll (statements.map (Node.relocate r)) (m.relocate r) =
      relocateEnd r ((bounded fuel depth).executeAll statements m) := by
  have hsub := (Simulation.relocating r).agrees_bounded fuel depth
  have hend := Simulation.agree_executeAll hsub statements m (m.relocate r) rfl
  cases hrun : (bounded fuel depth).executeAll statements m with
  | ok returning m' =>
    rw [hrun] at hend
    obtain ⟨_, _, hmoved, rfl, rfl, -⟩ := hend.of_ok
    exact hmoved
  | error halt m' =>
    rw [hrun] at hend
    obtain ⟨_, _, hmoved, rfl, rfl⟩ := hend.of_error
    exact hmoved

end Script
