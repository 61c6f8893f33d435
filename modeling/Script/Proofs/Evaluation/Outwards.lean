import Script.Proofs.Evaluation.Resolving

/-!
# The way outwards

The way outwards from a scope goes through the scope around it, the one around that, and so on, up
to a scope that lies in no other one. Scopes that lie around each other have no such way, so that
there is one says that walking outwards ends. Where there is one, the walks that use a name go along
it and no further, and they never ask whether a scope was made before another one.

## Main definitions

* `Store.Way` : the scopes on the way outwards from a scope.
* `Store.IsTree` : all ways lead to one root.
* `Store.WalksAlong` : using a name from a scope goes along a way.

## Main results

* `Store.IsForest.isTree` : a forest in which only one scope lies in no other one is a tree.
* `Store.IsForest.walksAlong` : the walks of a forest go along its ways.
-/

namespace Script.Store

variable {α : Type} {s : Store α} {id : ScopeId} {way : List ScopeId}

/-- The scopes on the way outwards from a scope, from this scope on to one in no other scope. -/
inductive Way (s : Store α) : ScopeId → List ScopeId → Prop
  | last {id : ScopeId} (hlast : s.parent? id = none) : Way s id [id]
  | outwards {id parent : ScopeId} {way : List ScopeId} (hparent : s.parent? id = some parent)
      (hway : Way s parent way) : Way s id (id :: way)

/-- The scopes of a store form a tree with a root. From every scope the way outwards comes to an
end, passes scopes of the store only and none of them twice, and its end is the root. -/
def IsTree (s : Store α) (root : ScopeId) : Prop :=
  ∀ id < s.size, ∃ way, s.Way id way ∧ way.Nodup ∧ way.getLast? = some root ∧
    ∀ passed ∈ way, passed < s.size

/-- Reading a name from a scope, changing it and asking whether it is bound all go along a way, as
far as the first scope there that binds the name. -/
structure WalksAlong (s : Store α) (id : ScopeId) (name : String) (way : List ScopeId) : Prop where
  get?_eq : s.get? id name = (way.find? fun passed => (s.bindings passed).binds name).bind
    fun target => (s.bindings target).get? name
  assign_eq : ∀ value, s.assign id name value =
    (way.find? fun passed => (s.bindings passed).binds name).elim (s, false)
      fun target => (s.define target name value, true)
  /-- Asking has an answer if it is allowed as many steps as there are scopes on the way. -/
  contains_eq : ∀ depth,
    s.contains name depth id = .ok (way.any fun passed => (s.bindings passed).binds name) ∨
      depth < way.length ∧ s.contains name depth id = .error .tooDeep

/-! ### Ways -/

/-- A way ends at a scope that lies in no other one. -/
theorem Way.exists_last (hway : s.Way id way) :
    ∃ root, way.getLast? = some root ∧ s.parent? root = none := by
  induction hway with
  | @last id hlast => exact ⟨id, rfl, hlast⟩
  | @outwards id _ way _ _ ih =>
    obtain ⟨root, hroot, hnone⟩ := ih
    refine ⟨root, ?_, hnone⟩
    rw [List.getLast?_cons, hroot, Option.getD_some]

/-- Asking whether a name is bound goes along the way and takes a step for each scope. -/
theorem Way.contains_eq (hway : s.Way id way) (name : String) (depth : Nat) :
    s.contains name depth id = .ok (way.any fun passed => (s.bindings passed).binds name) ∨
      depth < way.length ∧ s.contains name depth id = .error .tooDeep := by
  induction hway generalizing depth with
  | @last id hlast =>
    cases depth with
    | zero => exact .inr ⟨Nat.one_pos, rfl⟩
    | succ depth =>
      rw [contains_succ, hlast]
      by_cases hbinds : (s.bindings id).binds name <;> simp [hbinds]
  | @outwards id parent way hparent _ ih =>
    cases depth with
    | zero => exact .inr ⟨Nat.succ_pos _, rfl⟩
    | succ depth =>
      rw [contains_succ, hparent, List.any_cons, List.length_cons]
      by_cases hbinds : (s.bindings id).binds name
      · simp [hbinds]
      · rw [if_neg hbinds, Bool.eq_false_iff.mpr hbinds, Bool.false_or]
        exact (ih depth).imp_right fun h => ⟨Nat.succ_lt_succ h.1, h.2⟩

/-! ### Forests -/

namespace IsForest

theorem exists_way (hs : s.IsForest) (id : ScopeId) : ∃ way, s.Way id way := by
  induction id using Nat.strongRecOn with
  | ind id ih =>
    cases hparent : s.parent? id with
    | none => exact ⟨[id], .last hparent⟩
    | some parent =>
      obtain ⟨way, hway⟩ := ih parent (hs id parent hparent)
      exact ⟨id :: way, .outwards hparent hway⟩

/-- Nothing on a way was made after the scope that it starts from. -/
theorem le_of_mem_way (hs : s.IsForest) (hway : s.Way id way) : ∀ passed ∈ way, passed ≤ id := by
  induction hway with
  | last => exact List.forall_mem_singleton.mpr (Nat.le_refl _)
  | @outwards id parent way hparent _ ih =>
    have hlt : parent < id := hs id parent hparent
    exact List.forall_mem_cons.mpr
      ⟨Nat.le_refl _, fun passed hpassed => Nat.le_trans (ih passed hpassed) (Nat.le_of_lt hlt)⟩

theorem nodup_way (hs : s.IsForest) (hway : s.Way id way) : way.Nodup := by
  induction hway with
  | last => exact List.pairwise_singleton _ _
  | @outwards id parent way hparent hway ih =>
    refine List.nodup_cons.mpr ⟨fun hmem => ?_, ih⟩
    have hle : id ≤ parent := hs.le_of_mem_way hway id hmem
    exact Nat.not_lt_of_le hle (hs id parent hparent)

/-- A forest in which only one scope lies in no other one is a tree. -/
theorem isTree (hs : s.IsForest) {root : ScopeId}
    (hroot : ∀ id < s.size, s.parent? id = none → id = root) : s.IsTree root := by
  intro id hid
  obtain ⟨way, hway⟩ := hs.exists_way id
  have hsize : ∀ passed ∈ way, passed < s.size :=
    fun passed hpassed => Nat.lt_of_le_of_lt (hs.le_of_mem_way hway passed hpassed) hid
  obtain ⟨last, hlast, hnone⟩ := hway.exists_last
  obtain rfl := hroot last (hsize last (List.mem_of_getLast? hlast)) hnone
  exact ⟨way, hway, hs.nodup_way hway, hlast, hsize⟩

/-- A walk outwards ends at the first scope of the way that binds the name. -/
theorem resolve?_eq_find? (hs : s.IsForest) (hway : s.Way id way) (name : String) :
    s.resolve? id name = way.find? fun passed => (s.bindings passed).binds name := by
  induction hway with
  | @last id hlast =>
    rw [resolve?_eq, hlast]
    by_cases hbinds : (s.bindings id).binds name <;> simp [hbinds]
  | @outwards id parent way hparent _ ih =>
    by_cases hbinds : (s.bindings id).binds name
    · simp [resolve?_of_binds hbinds, hbinds]
    · rw [resolve?_of_parent hbinds hparent (hs id parent hparent), ih]
      simp [hbinds]

/-- The walks of a forest go along its ways. -/
theorem walksAlong (hs : s.IsForest) (hway : s.Way id way) (name : String) :
    s.WalksAlong id name way where
  get?_eq := by rw [get?, hs.resolve?_eq_find? hway, Option.bind_eq_bind]
  assign_eq := by
    intro value
    rw [assign, hs.resolve?_eq_find? hway]
    cases way.find? fun passed => (s.bindings passed).binds name <;> rfl
  contains_eq := hway.contains_eq name

end IsForest

end Script.Store
