import Script.Evaluation.Evaluate

/-!
# Runs that keep an invariant

`Keeps inv halts x post` is about running the action `x` on a state that satisfies `inv`. The state
satisfies it afterwards as well, whether the run ends or halts; a result satisfies `post` and a halt
satisfies `halts`. This module says so for the ways of combining actions, and says what the basic
actions of a machine do to the bindings of its store.

## Main definitions

* `Keeps` : a run that keeps an invariant.
-/

namespace Script

/-! ### Bindings -/

namespace Dictionary

variable {α : Type}

theorem mem_of_get? {d : Dictionary α} {name : String} {value : α} (h : get? d name = some value) :
    (name, value) ∈ d := by
  induction d with
  | nil => cases h
  | cons entry d ih =>
    obtain ⟨other, old⟩ := entry
    rw [get?] at h
    split at h
    · next heq =>
      cases h
      rw [heq]
      exact List.mem_cons_self
    · exact List.mem_cons_of_mem _ (ih h)

theorem mem_put {d : Dictionary α} {name : String} {value : α} {entry : String × α}
    (h : entry ∈ put d name value) : entry = (name, value) ∨ entry ∈ d := by
  induction d with
  | nil => exact .inl (List.mem_singleton.mp h)
  | cons first d ih =>
    obtain ⟨other, old⟩ := first
    rw [put] at h
    split at h
    · exact (List.mem_cons.mp h).imp_right (List.mem_cons_of_mem _)
    · rcases List.mem_cons.mp h with rfl | hmem
      · exact .inr List.mem_cons_self
      · exact (ih hmem).imp_right (List.mem_cons_of_mem _)

end Dictionary

namespace Store

variable {α : Type}

theorem bindings_push (s : Store α) (parent : Option ScopeId) (id : ScopeId) :
    (s.push parent).bindings id = s.bindings id := by
  rw [bindings, bindings, push, Array.getElem?_push]
  split
  · next heq =>
    subst heq
    simp
  · rfl

theorem bindings_define (s : Store α) (id target : ScopeId) (name : String) (value : α) :
    (s.define target name value).bindings id =
      if target = id ∧ id < s.size then (s.bindings id).put name value else s.bindings id := by
  rw [bindings, bindings, define, Array.getElem?_modify]
  by_cases htarget : target = id
  · subst htarget
    by_cases hsize : target < s.size
    · rw [if_pos rfl, if_pos ⟨rfl, hsize⟩, Array.getElem?_eq_getElem hsize]
      rfl
    · rw [if_pos rfl, if_neg fun h => hsize h.2, Array.getElem?_eq_none (Nat.le_of_not_lt hsize)]
      rfl
  · rw [if_neg htarget, if_neg fun h => htarget h.1]

theorem mem_bindings_define {s : Store α} {id target : ScopeId} {name : String} {value : α}
    {entry : String × α} (h : entry ∈ (s.define target name value).bindings id) :
    entry = (name, value) ∨ entry ∈ s.bindings id := by
  rw [bindings_define] at h
  split at h
  · exact Dictionary.mem_put h
  · exact .inr h

theorem assign_cases (s : Store α) (id : ScopeId) (name : String) (value : α) :
    s.assign id name value = (s, false) ∨
      ∃ target, s.assign id name value = (s.define target name value, true) := by
  rw [assign]
  cases s.resolve? id name with
  | none => exact .inl rfl
  | some target => exact .inr ⟨target, rfl⟩

theorem mem_bindings_of_get? {s : Store α} {id : ScopeId} {name : String} {value : α}
    (h : s.get? id name = some value) : ∃ target, (name, value) ∈ s.bindings target := by
  rw [get?, Option.bind_eq_bind, Option.bind_eq_some_iff] at h
  obtain ⟨target, -, hget⟩ := h
  exact ⟨target, Dictionary.mem_of_get? hget⟩

end Store

/-! ### Runs -/

section

variable {ε σ α β : Type} {inv : σ → Prop} {halts : ε → Prop}

/-- A run keeps an invariant, its result satisfies `post` and its halt satisfies `halts`. -/
def Keeps (inv : σ → Prop) (halts : ε → Prop) (x : EStateM ε σ α) (post : α → Prop) : Prop :=
  ∀ s, inv s →
    match x s with
    | .ok a s => inv s ∧ post a
    | .error halt s => inv s ∧ halts halt

namespace Keeps

theorem pure {a : α} {post : α → Prop} (h : post a) : Keeps inv halts (pure a) post :=
  fun _ hs => ⟨hs, h⟩

theorem throw {halt : ε} {post : α → Prop} (h : halts halt) :
    Keeps inv halts (throw halt) post :=
  fun _ hs => ⟨hs, h⟩

theorem bind {x : EStateM ε σ α} {f : α → EStateM ε σ β} {post : α → Prop} {post' : β → Prop}
    (hx : Keeps inv halts x post) (hf : ∀ a, post a → Keeps inv halts (f a) post') :
    Keeps inv halts (x >>= f) post' := by
  intro s hs
  have hrun := hx s hs
  simp only [Bind.bind, EStateM.bind]
  cases hresult : x s with
  | ok a s' =>
    rw [hresult] at hrun
    exact hf a hrun.2 s' hrun.1
  | error halt s' =>
    rw [hresult] at hrun
    exact hrun

/-- An action that may be skipped, followed by another one. -/
theorem ite_bind {c : Prop} [Decidable c] {x : EStateM ε σ PUnit} {y : EStateM ε σ α}
    {post : α → Prop} (hx : Keeps inv halts x fun _ => True) (hy : Keeps inv halts y post) :
    Keeps inv halts (if c then x >>= fun _ => y else y) post := by
  split
  · exact hx.bind fun _ _ => hy
  · exact hy

theorem map {x : EStateM ε σ α} {f : α → β} {post : α → Prop} {post' : β → Prop}
    (hx : Keeps inv halts x post) (hf : ∀ a, post a → post' (f a)) :
    Keeps inv halts (f <$> x) post' := by
  rw [map_eq_pure_bind]
  exact hx.bind fun a ha => .pure (hf a ha)

theorem get : Keeps inv halts get inv :=
  fun _ hs => ⟨hs, hs⟩

theorem modify {f : σ → σ} (hf : ∀ s, inv s → inv (f s)) :
    Keeps inv halts (modify f) fun _ => True :=
  fun s hs => ⟨hf s hs, trivial⟩

theorem mapM {f : α → EStateM ε σ β} {as : List α} {post : β → Prop}
    (h : ∀ a ∈ as, Keeps inv halts (f a) post) :
    Keeps inv halts (as.mapM f) fun bs => ∀ b ∈ bs, post b := by
  induction as with
  | nil => exact .pure fun _ hb => nomatch hb
  | cons a as ih =>
    rw [List.forall_mem_cons] at h
    rw [List.mapM_cons]
    refine h.1.bind fun b hb => (ih h.2).bind fun bs hbs => .pure ?_
    exact List.forall_mem_cons.mpr ⟨hb, hbs⟩

theorem forM {f : α → EStateM ε σ PUnit} {as : List α}
    (h : ∀ a ∈ as, Keeps inv halts (f a) fun _ => True) :
    Keeps inv halts (as.forM f) fun _ => True := by
  induction as with
  | nil => exact .pure trivial
  | cons a as ih =>
    rw [List.forall_mem_cons] at h
    exact h.1.bind fun _ _ => ih h.2

end Keeps

end

namespace Run

variable {α : Type} {inv : Machine → Prop} {halts : Halt → Prop}

/-- Work in another scope keeps an invariant that does not depend on the scope. -/
theorem keeps_within {x : Run α} {post : α → Prop}
    (hscope : ∀ m id, inv m → inv { m with scope := id }) (hx : Keeps inv halts x post)
    (id : ScopeId) : Keeps inv halts (Run.within id x) post := by
  intro m hm
  have hrun := hx _ (hscope m id hm)
  simp only [Run.within]
  split at hrun
  · next heq =>
    rw [heq]
    exact ⟨hscope _ _ hrun.1, hrun.2⟩
  · next heq =>
    rw [heq]
    exact ⟨hscope _ _ hrun.1, hrun.2⟩

end Run

end Script
