/-!
# Runs that agree

Two runs agree when they end in the same way: both with results or both with halts, related states
again, and related results or halts. The runs may be those of different actions on different states.
This module says so for the ways of combining actions; whether two programs agree then comes down to
their basic actions.

## Main definitions

* `EndAlike` : two runs have ended in the same way.
* `Agree` : two actions lead from related states to related ends.
-/

namespace Script

section

variable {ε δ σ τ α β α' β' : Type} {states : σ → τ → Prop} {halts : ε → δ → Prop}

/-- Two runs have both ended with related results or both with related halts, in related states. -/
inductive EndAlike (states : σ → τ → Prop) (halts : ε → δ → Prop) (results : α → β → Prop) :
    EStateM.Result ε σ α → EStateM.Result δ τ β → Prop
  | ok {a : α} {b : β} {s : σ} {t : τ} (hstates : states s t) (hresults : results a b) :
      EndAlike states halts results (.ok a s) (.ok b t)
  | error {halt : ε} {halt' : δ} {s : σ} {t : τ} (hstates : states s t)
      (hhalts : halts halt halt') : EndAlike states halts results (.error halt s) (.error halt' t)

theorem EndAlike.of_ok {results : α → β → Prop} {a : α} {s : σ} {end₂ : EStateM.Result δ τ β}
    (h : EndAlike states halts results (.ok a s) end₂) :
    ∃ b t, end₂ = .ok b t ∧ states s t ∧ results a b := by
  cases h with
  | ok hstates hresults => exact ⟨_, _, rfl, hstates, hresults⟩

theorem EndAlike.of_error {results : α → β → Prop} {halt : ε} {s : σ}
    {end₂ : EStateM.Result δ τ β} (h : EndAlike states halts results (.error halt s) end₂) :
    ∃ halt' t, end₂ = .error halt' t ∧ states s t ∧ halts halt halt' := by
  cases h with
  | error hstates hhalts => exact ⟨_, _, rfl, hstates, hhalts⟩

theorem EndAlike.mono {results results' : α → β → Prop} {end₁ : EStateM.Result ε σ α}
    {end₂ : EStateM.Result δ τ β} (hend : EndAlike states halts results end₁ end₂)
    (h : ∀ a b, results a b → results' a b) : EndAlike states halts results' end₁ end₂ := by
  cases hend with
  | ok hstates hresults => exact .ok hstates (h _ _ hresults)
  | error hstates hhalts => exact .error hstates hhalts

/-- Run on related states, two actions end in the same way. -/
def Agree (states : σ → τ → Prop) (halts : ε → δ → Prop) (x : EStateM ε σ α) (y : EStateM δ τ β)
    (results : α → β → Prop) : Prop :=
  ∀ s t, states s t → EndAlike states halts results (x s) (y t)

namespace Agree

theorem pure {a : α} {b : β} {results : α → β → Prop} (h : results a b) :
    Agree states halts (pure a) (pure b) results :=
  fun _ _ hst => .ok hst h

theorem throw {halt : ε} {halt' : δ} {results : α → β → Prop} (h : halts halt halt') :
    Agree states halts (throw halt) (throw halt') results :=
  fun _ _ hst => .error hst h

theorem get : Agree states halts get get states :=
  fun _ _ hst => .ok hst hst

theorem mono {x : EStateM ε σ α} {y : EStateM δ τ β} {results results' : α → β → Prop}
    (hxy : Agree states halts x y results) (h : ∀ a b, results a b → results' a b) :
    Agree states halts x y results' :=
  fun s t hst => (hxy s t hst).mono h

theorem bind {x : EStateM ε σ α} {y : EStateM δ τ β} {f : α → EStateM ε σ α'}
    {g : β → EStateM δ τ β'} {results : α → β → Prop} {results' : α' → β' → Prop}
    (hxy : Agree states halts x y results)
    (hfg : ∀ a b, results a b → Agree states halts (f a) (g b) results') :
    Agree states halts (x >>= f) (y >>= g) results' := by
  intro s t hst
  have hend := hxy s t hst
  simp only [Bind.bind, EStateM.bind]
  generalize x s = end₁ at hend
  generalize y t = end₂ at hend
  cases hend with
  | ok hst' hab => exact hfg _ _ hab _ _ hst'
  | error hst' hhalts => exact .error hst' hhalts

theorem map {x : EStateM ε σ α} {y : EStateM δ τ β} {f : α → α'} {g : β → β'}
    {results : α → β → Prop} {results' : α' → β' → Prop} (hxy : Agree states halts x y results)
    (hfg : ∀ a b, results a b → results' (f a) (g b)) :
    Agree states halts (f <$> x) (g <$> y) results' := by
  rw [map_eq_pure_bind, map_eq_pure_bind]
  exact hxy.bind fun a b hab => .pure (hfg a b hab)

/-- Actions for the items of a list and for their images, which give a result and its image. -/
theorem mapM {f : α → EStateM ε σ β} {g : α' → EStateM δ τ β'} {move : α → α'} {image : β → β'}
    {post : β → Prop} {as : List α}
    (h : ∀ a ∈ as, Agree states halts (f a) (g (move a)) fun b b' => b' = image b ∧ post b) :
    Agree states halts (as.mapM f) ((as.map move).mapM g) fun bs bs' =>
      bs' = bs.map image ∧ ∀ b ∈ bs, post b := by
  induction as with
  | nil => exact .pure ⟨rfl, List.forall_mem_nil _⟩
  | cons a as ih =>
    rw [List.forall_mem_cons] at h
    rw [List.map_cons, List.mapM_cons, List.mapM_cons]
    refine h.1.bind ?_
    rintro b _ ⟨rfl, hb⟩
    refine (ih h.2).bind ?_
    rintro bs _ ⟨rfl, hbs⟩
    exact .pure ⟨rfl, List.forall_mem_cons.mpr ⟨hb, hbs⟩⟩

theorem forM {f : α → EStateM ε σ PUnit} {g : α' → EStateM δ τ PUnit} {move : α → α'}
    {as : List α} (h : ∀ a ∈ as, Agree states halts (f a) (g (move a)) fun _ _ => True) :
    Agree states halts (as.forM f) ((as.map move).forM g) fun _ _ => True := by
  induction as with
  | nil => exact .pure trivial
  | cons a as ih =>
    rw [List.forall_mem_cons] at h
    exact h.1.bind fun _ _ _ => ih h.2

end Agree

end

end Script
