import Mathlib.Data.List.Forall2
import Script.Proofs.Evaluation.Privacy
import Script.Proofs.Session.Interpreting

/-!
# Scopes that bind nothing

A scope without bindings is transparent: a name that is looked up in it is looked up in the scope
around it. A store may be padded with such scopes without any program noticing, as long as nothing
is ever bound in them. A padding says which scope each scope of the padded store stands for. The
first scope that stands for another one is its copy, and the others are empty and lie inside one
another, around or inside the copy.

The scopes of the two stores do not have the same places, so functions are compared by what their
scopes stand for. New scopes make a padding longer and leave alone what it says of the others.

## Main definitions

* `Padding` : what the scopes of a padded store stand for.
* `Store.Pads`, `Machine.PadsAt` : stores and machines that differ by a padding.
* `Padding.Agree` : two actions that lead from a padding to a longer one.
* `Machine.IsWellScoped` : a machine whose scopes are all made.

## Main results

* `Padding.agrees_bounded` : evaluation does not notice a padding.
* `Interpreter.isWellScoped_interpretAll` : interpreters have well-scoped machines.
-/

namespace Script

/-! ### Paddings -/

/-- What the scopes of a padded store stand for, in the order of their places. -/
abbrev Padding := List ScopeId

namespace Padding

variable {p q : Padding} {id id' place place' : ScopeId}

/-- The first scope that stands for a scope. -/
def IsPlace (p : Padding) (id place : ScopeId) : Prop :=
  p[place]? = some id ∧ id ∉ p.take place

theorem stands_mono (hpq : p <+: q) (h : p[place]? = some id) : q[place]? = some id := by
  obtain ⟨more, rfl⟩ := hpq
  rw [List.getElem?_append_left (List.getElem?_eq_some_iff.mp h).1, h]

theorem lt_length (h : p[place]? = some id) : place < p.length :=
  (List.getElem?_eq_some_iff.mp h).1

theorem IsPlace.mono (hpq : p <+: q) (h : p.IsPlace id place) : q.IsPlace id place := by
  refine ⟨stands_mono hpq h.1, ?_⟩
  obtain ⟨more, rfl⟩ := hpq
  rw [List.take_append_of_le_length (Nat.le_of_lt (lt_length h.1))]
  exact h.2

theorem mem_take (h : p[place]? = some id) (hlt : place < place') : id ∈ p.take place' := by
  rw [List.mem_iff_getElem?]
  exact ⟨place, by rw [List.getElem?_take_of_lt hlt, h]⟩

/-- A scope has one copy. -/
theorem IsPlace.unique (h : p.IsPlace id place) (h' : p.IsPlace id place') : place = place' := by
  rcases Nat.lt_trichotomy place place' with hlt | heq | hlt
  · exact absurd (mem_take h.1 hlt) h'.2
  · exact heq
  · exact absurd (mem_take h'.1 hlt) h.2

/-- What a longer padding says of a scope that was there before. -/
theorem isPlace_of_append {more : Padding} (h : (p ++ more).IsPlace id place)
    (hlt : place < p.length) : p.IsPlace id place := by
  obtain ⟨hstands, hfirst⟩ := h
  rw [List.getElem?_append_left hlt] at hstands
  rw [List.take_append_of_le_length (Nat.le_of_lt hlt)] at hfirst
  exact ⟨hstands, hfirst⟩

/-- What a padding that is longer by one says. -/
theorem stands_concat (h : (p ++ [id])[place]? = some id') :
    p[place]? = some id' ∨ place = p.length ∧ id' = id := by
  rcases Nat.lt_or_ge place p.length with hlt | hge
  · rw [List.getElem?_append_left hlt] at h
    exact .inl h
  · rw [List.getElem?_append_right hge] at h
    have hle := Nat.sub_eq_zero_iff_le.mp (Nat.lt_one_iff.mp (lt_length h))
    obtain rfl := Nat.le_antisymm hle hge
    rw [Nat.sub_self] at h
    exact .inr ⟨rfl, (Option.some.inj h).symm⟩

/-- A further scope that stands for another one is not its copy. -/
theorem isPlace_of_pad {around : ScopeId} (haround : p[around]? = some id')
    (h : (p ++ [id']).IsPlace id place) : p.IsPlace id place := by
  rcases stands_concat h.1 with hstands | ⟨rfl, rfl⟩
  · exact isPlace_of_append h (lt_length hstands)
  · have hfirst := h.2
    rw [List.take_left] at hfirst
    exact absurd (List.mem_of_getElem? haround) hfirst

theorem eq_of_stands_range {n : Nat} (h : (List.range n)[place]? = some id) :
    place = id ∧ place < n := by
  have hlt : place < n := List.length_range (n := n) ▸ lt_length h
  rw [List.getElem?_range hlt] at h
  exact ⟨Option.some.inj h, hlt⟩

/-- Nothing is padded: every scope stands for itself. -/
theorem isPlace_range {n : Nat} (h : id < n) : IsPlace (List.range n) id id := by
  refine ⟨?_, ?_⟩
  · rw [List.getElem?_range h]
  · rw [List.take_range, Nat.min_eq_left (Nat.le_of_lt h)]
    exact List.not_mem_range_self

end Padding

/-! ### Values and bindings -/

/-- A value, and what it is in the padded store: a function is declared in a scope that stands for
the one in which it was declared. -/
inductive Value.Pads (p : Padding) : Value → Value → Prop
  | constant (c : Constant) : Pads p (.constant c) (.constant c)
  | function {f : Closure} {place : ScopeId} (h : p[place]? = some f.scope) :
      Pads p (.function f) (.function { f with scope := place })

namespace Value.Pads

variable {p q : Padding} {v v' w w' : Value}

theorem mono (hpq : p <+: q) (h : v.Pads p v') : v.Pads q v' := by
  cases h with
  | constant c => exact .constant c
  | function h => exact .function (Padding.stands_mono hpq h)

theorem of_isFrom {n : Nat} (h : v.IsFrom (· < n)) : v.Pads (List.range n) v := by
  cases v with
  | constant c => exact .constant c
  | function f => exact .function (Padding.isPlace_range h).1

theorem isFrom (h : v.Pads p v') : v'.IsFrom (· < p.length) := by
  cases h with
  | constant c => trivial
  | function h => exact Padding.lt_length h

theorem isTruthy_eq (h : v.Pads p v') : v'.isTruthy = v.isTruthy := by
  cases h <;> rfl

theorem display_eq (h : v.Pads p v') : v'.display = v.display := by
  cases h <;> rfl

theorem isEqual_eq (hv : v.Pads p v') (hw : w.Pads p w') : v'.isEqual w' = v.isEqual w := by
  cases hv with
  | constant c =>
    cases hw with
    | constant d => rfl
    | function h => cases c <;> rfl
  | function h =>
    cases hw with
    | constant d => cases d <;> rfl
    | function h' => rfl

theorem unary_eq (operator : Token) (h : v.Pads p v') :
    Value.unary operator v' = Value.unary operator v := by
  cases h <;> rfl

theorem stepped_eq (operator : Token) (h : v.Pads p v') :
    Value.stepped operator v' = Value.stepped operator v := by
  cases h <;> rfl

theorem binary_eq (operator : Token) (hv : v.Pads p v') (hw : w.Pads p w') :
    v'.binary operator w' = v.binary operator w := by
  unfold Value.binary
  rw [isEqual_eq hv hw]
  cases hv with
  | constant c =>
    cases hw with
    | constant d => rfl
    | function h =>
      split
      · rfl
      · rfl
      · cases c <;> rfl
      · cases c <;> rfl
  | function h => split <;> rfl

end Value.Pads

/-- The names of a scope with their values, and what they are in the padded store. -/
def Dictionary.Pads (p : Padding) (d d' : Dictionary Value) : Prop :=
  List.Forall₂ (fun entry entry' => entry'.1 = entry.1 ∧ entry.2.Pads p entry'.2) d d'

namespace Dictionary.Pads

variable {p q : Padding} {d d' : Dictionary Value}

theorem mono (hpq : p <+: q) (h : d.Pads p d') : d.Pads q d' :=
  List.Forall₂.imp (fun _ _ hentry => ⟨hentry.1, hentry.2.mono hpq⟩) h

theorem get?_cases (h : d.Pads p d') (name : String) :
    d.get? name = none ∧ d'.get? name = none ∨
      ∃ v v', d.get? name = some v ∧ d'.get? name = some v' ∧ v.Pads p v' := by
  induction h with
  | nil => exact .inl ⟨rfl, rfl⟩
  | @cons entry entry' d d' hentry _ ih =>
    obtain ⟨other, v⟩ := entry
    obtain ⟨_, v'⟩ := entry'
    obtain ⟨rfl, hv⟩ := hentry
    simp only [get?]
    split
    · exact .inr ⟨v, v', rfl, rfl, hv⟩
    · exact ih

theorem binds_eq (h : d.Pads p d') (name : String) : d'.binds name = d.binds name := by
  rcases h.get?_cases name with ⟨hd, hd'⟩ | ⟨v, v', hd, hd', -⟩ <;> simp [binds, hd, hd']

theorem put (h : d.Pads p d') (name : String) {v v' : Value} (hv : v.Pads p v') :
    (d.put name v).Pads p (d'.put name v') := by
  induction h with
  | nil => exact .cons ⟨rfl, hv⟩ .nil
  | @cons entry entry' d d' hentry hrest ih =>
    obtain ⟨other, old⟩ := entry
    obtain ⟨_, old'⟩ := entry'
    obtain ⟨rfl, hold⟩ := hentry
    simp only [Dictionary.put]
    split
    · exact .cons ⟨rfl, hv⟩ hrest
    · exact .cons ⟨rfl, hold⟩ ih

theorem exists_of_mem (h : d.Pads p d') {entry' : String × Value} (hmem : entry' ∈ d') :
    ∃ v : Value, v.Pads p entry'.2 := by
  induction h with
  | nil => cases hmem
  | @cons entry _ _ _ hentry _ ih =>
    rcases List.mem_cons.mp hmem with rfl | hrest
    · exact ⟨entry.2, hentry.2⟩
    · exact ih hrest

end Dictionary.Pads

/-! ### Stores -/

namespace Store

/-- The scope around a scope, and around what it is in the padded store. -/
inductive PadsAround (p : Padding) (s t : Store Value) (id place : ScopeId) : Prop
  | none (hid : s.parent? id = none) (hplace : t.parent? place = none)
  | some {parent around : ScopeId} (hid : s.parent? id = some parent) (hlt : parent < id)
      (hplace : t.parent? place = some around) (hlt' : around < place)
      (hstands : p[around]? = some parent)

/-- A store, and the store with a padding. -/
structure Pads (p : Padding) (s t : Store Value) : Prop where
  length_eq : p.length = t.size
  mem_iff : ∀ {id}, id ∈ p ↔ id < s.size
  /-- The first scope that stands for a scope is a copy of it. -/
  bindings : ∀ {id place}, p.IsPlace id place → (s.bindings id).Pads p (t.bindings place)
  around : ∀ {id place}, p.IsPlace id place → PadsAround p s t id place
  /-- Every other one is empty and lies in one that stands for the same scope. -/
  pad : ∀ {id place}, p[place]? = some id → ¬p.IsPlace id place → t.bindings place = [] ∧
    ∃ around < place, t.parent? place = some around ∧ p[around]? = some id

/-- Walking outwards, in terms of bindings and of the scope around. -/
theorem resolve?_eq {α : Type} (s : Store α) (id : ScopeId) (name : String) :
    s.resolve? id name =
      if (s.bindings id).binds name then some id
      else
        match s.parent? id with
        | none => none
        | some parent => if parent < id then s.resolve? parent name else none := by
  rw [resolve?, bindings, parent?]
  cases s.scopes[id]? with
  | none => rfl
  | some scope => rfl

theorem bindings_of_size_le {α : Type} {s : Store α} {id : ScopeId} (h : s.size ≤ id) :
    s.bindings id = [] := by
  rw [bindings, Array.getElem?_eq_none h]
  rfl

theorem lt_size_of_parent? {α : Type} {s : Store α} {id parent : ScopeId}
    (h : s.parent? id = some parent) : id < s.size := by
  rw [parent?, Option.bind_eq_some_iff] at h
  obtain ⟨scope, hscope, -⟩ := h
  exact (Array.getElem?_eq_some_iff.mp hscope).1

theorem PadsAround.mono {p q : Padding} {s s' t t' : Store Value} {id place : ScopeId}
    (h : PadsAround p s t id place) (hpq : p <+: q) (hs : s'.parent? id = s.parent? id)
    (ht : t'.parent? place = t.parent? place) : PadsAround q s' t' id place := by
  cases h with
  | none hid hplace => exact .none (hs.trans hid) (ht.trans hplace)
  | some hid hlt hplace hlt' hstands =>
    exact .some (hs.trans hid) hlt (ht.trans hplace) hlt' (Padding.stands_mono hpq hstands)

namespace Pads

variable {p q : Padding} {s t : Store Value} {id place parent around : ScopeId}

/-- A name is found in the scope that is the copy of where it is found, or in neither store. -/
theorem resolve?_cases (h : s.Pads p t) (hstands : p[place]? = some id) (name : String) :
    s.resolve? id name = none ∧ t.resolve? place name = none ∨
      ∃ target target', s.resolve? id name = some target ∧ t.resolve? place name = some target' ∧
        p.IsPlace target target' := by
  -- on the place in the padded store: from a pad the walk goes on and stays at the same scope
  induction place using Nat.strongRecOn generalizing id with
  | _ place ih =>
    by_cases hplace : p.IsPlace id place
    · have hbinds := (h.bindings hplace).binds_eq name
      rw [resolve?_eq s, resolve?_eq t, hbinds]
      split
      · exact .inr ⟨id, place, rfl, rfl, hplace⟩
      · cases h.around hplace with
        | none hid hplace' =>
          rw [hid, hplace']
          exact .inl ⟨rfl, rfl⟩
        | some hid hlt hplace' hlt' hstands' =>
          rw [hid, hplace']
          dsimp only
          rw [if_pos hlt, if_pos hlt']
          exact ih _ hlt' hstands'
    · obtain ⟨hempty, around, hlt, hparent, hstands'⟩ := h.pad hstands hplace
      have hskip : t.resolve? place name = t.resolve? around name := by
        rw [resolve?_eq t place, hempty, hparent]
        dsimp only
        rw [if_pos hlt]
        rfl
      rw [hskip]
      exact ih around hlt hstands'

theorem lt_size (h : s.Pads p t) (hstands : p[place]? = some id) : id < s.size :=
  h.mem_iff.mp (List.mem_of_getElem? hstands)

theorem place_lt_size (h : s.Pads p t) (hstands : p[place]? = some id) : place < t.size :=
  h.length_eq ▸ Padding.lt_length hstands

theorem define (h : s.Pads p t) (hplace : p.IsPlace id place) (name : String) {v v' : Value}
    (hv : v.Pads p v') : (s.define id name v).Pads p (t.define place name v') where
  length_eq := by rw [size_define, h.length_eq]
  mem_iff := by
    intro id'
    rw [size_define, h.mem_iff]
  bindings := by
    intro id' place' hplace'
    have hold := h.bindings hplace'
    rw [bindings_define, bindings_define]
    by_cases hid : id = id'
    · subst hid
      obtain rfl := hplace.unique hplace'
      rw [if_pos ⟨rfl, h.lt_size hplace.1⟩, if_pos ⟨rfl, h.place_lt_size hplace.1⟩]
      exact hold.put name hv
    · have hne : place ≠ place' := by
        rintro rfl
        exact hid (Option.some.inj (hplace.1.symm.trans hplace'.1))
      rw [if_neg fun hand => hid hand.1, if_neg fun hand => hne hand.1]
      exact hold
  around := by
    intro id' place' hplace'
    exact (h.around hplace').mono (List.prefix_refl _) (parent?_define ..) (parent?_define ..)
  pad := by
    intro id' place' hstands hnot
    obtain ⟨hempty, around, hlt, hparent, haround⟩ := h.pad hstands hnot
    have hne : place ≠ place' := by
      rintro rfl
      cases hplace.1.symm.trans hstands
      exact hnot hplace
    refine ⟨?_, around, hlt, by rw [parent?_define, hparent], haround⟩
    rw [bindings_define, if_neg fun hand => hne hand.1, hempty]

/-- A scope that is made in both stores. -/
theorem push (h : s.Pads p t) (haround : p[around]? = some parent) :
    (s.push (some parent)).Pads (p ++ [s.size]) (t.push (some around)) where
  length_eq := by rw [List.length_append, List.length_singleton, h.length_eq, size_push]
  mem_iff := by
    intro id
    rw [List.mem_append, List.mem_singleton, h.mem_iff, size_push]
    exact Nat.lt_succ_iff_lt_or_eq.symm
  bindings := by
    intro id place hplace
    rw [bindings_push, bindings_push]
    rcases Padding.stands_concat hplace.1 with hstands | ⟨rfl, rfl⟩
    · have hold := Padding.isPlace_of_append hplace (Padding.lt_length hstands)
      exact (h.bindings hold).mono (List.prefix_append _ _)
    · rw [bindings_of_size_le (Nat.le_refl _), h.length_eq, bindings_of_size_le (Nat.le_refl _)]
      exact .nil
  around := by
    intro id place hplace
    rcases Padding.stands_concat hplace.1 with hstands | ⟨rfl, rfl⟩
    · have hold := Padding.isPlace_of_append hplace (Padding.lt_length hstands)
      refine (h.around hold).mono (List.prefix_append _ _) ?_ ?_
      · rw [parent?_push, if_neg (Nat.ne_of_lt (h.lt_size hstands))]
      · rw [parent?_push, if_neg (Nat.ne_of_lt (h.place_lt_size hstands))]
    · refine .some ?_ (h.lt_size haround) ?_ (Padding.lt_length haround)
        (Padding.stands_mono (List.prefix_append _ _) haround)
      · rw [parent?_push, if_pos rfl]
      · rw [parent?_push, if_pos h.length_eq]
  pad := by
    intro id place hstands hnot
    rcases Padding.stands_concat hstands with hold | ⟨rfl, rfl⟩
    · obtain ⟨hempty, around', hlt, hparent, haround'⟩ :=
        h.pad hold (mt (Padding.IsPlace.mono (List.prefix_append _ _)) hnot)
      refine ⟨by rw [bindings_push, hempty], around', hlt, ?_,
        Padding.stands_mono (List.prefix_append _ _) haround'⟩
      rw [parent?_push, if_neg (Nat.ne_of_lt (h.place_lt_size hold)), hparent]
    · refine absurd ⟨hstands, ?_⟩ hnot
      rw [List.take_left, h.mem_iff]
      exact Nat.lt_irrefl _

/-- A scope that is made in the padded store only. -/
theorem pushPad (h : s.Pads p t) (haround : p[around]? = some parent) :
    s.Pads (p ++ [parent]) (t.push (some around)) where
  length_eq := by rw [List.length_append, List.length_singleton, h.length_eq, size_push]
  mem_iff := by
    intro id
    rw [List.mem_append, List.mem_singleton, h.mem_iff]
    refine ⟨fun hid => hid.elim (fun hlt => hlt) ?_, .inl⟩
    rintro rfl
    exact h.lt_size haround
  bindings := by
    intro id place hplace
    have hold := Padding.isPlace_of_pad haround hplace
    rw [bindings_push]
    exact (h.bindings hold).mono (List.prefix_append _ _)
  around := by
    intro id place hplace
    have hold := Padding.isPlace_of_pad haround hplace
    refine (h.around hold).mono (List.prefix_append _ _) rfl ?_
    rw [parent?_push, if_neg (Nat.ne_of_lt (h.place_lt_size hold.1))]
  pad := by
    intro id place hstands hnot
    rcases Padding.stands_concat hstands with hold | ⟨rfl, rfl⟩
    · obtain ⟨hempty, around', hlt, hparent, haround'⟩ :=
        h.pad hold (mt (Padding.IsPlace.mono (List.prefix_append _ _)) hnot)
      refine ⟨by rw [bindings_push, hempty], around', hlt, ?_,
        Padding.stands_mono (List.prefix_append _ _) haround'⟩
      rw [parent?_push, if_neg (Nat.ne_of_lt (h.place_lt_size hold)), hparent]
    · refine ⟨?_, around, Padding.lt_length haround, ?_,
        Padding.stands_mono (List.prefix_append _ _) haround⟩
      · rw [bindings_push, h.length_eq, bindings_of_size_le (Nat.le_refl _)]
      · rw [parent?_push, if_pos h.length_eq]

end Pads

end Store

/-! ### Machines -/

/-- A machine in a scope, and a machine with a padded store in a scope that stands for it. -/
structure Machine.PadsAt (p : Padding) (id place : ScopeId) (m n : Machine) : Prop where
  store : m.store.Pads p n.store
  scope_eq : m.scope = id
  place_eq : n.scope = place
  stands : p[place]? = some id
  functions_eq : n.functions = m.functions
  output_eq : n.output = m.output

/-- Both machines may go to another scope. -/
theorem Machine.PadsAt.enter {p : Padding} {id place id' place' : ScopeId} {m n : Machine}
    (h : m.PadsAt p id place n) (hstands : p[place']? = some id') :
    { m with scope := id' }.PadsAt p id' place' { n with scope := place' } where
  store := h.store
  scope_eq := rfl
  place_eq := rfl
  stands := hstands
  functions_eq := h.functions_eq
  output_eq := h.output_eq

/-- The padded machine may go to another scope that stands for the same one. -/
theorem Machine.PadsAt.enterPad {p : Padding} {id place place' : ScopeId} {m n : Machine}
    (h : m.PadsAt p id place n) (hstands : p[place']? = some id) :
    m.PadsAt p id place' { n with scope := place' } where
  store := h.store
  scope_eq := h.scope_eq
  place_eq := rfl
  stands := hstands
  functions_eq := h.functions_eq
  output_eq := h.output_eq

theorem Machine.PadsAt.stands_scope {p : Padding} {id place : ScopeId} {m n : Machine}
    (h : m.PadsAt p id place n) : p[n.scope]? = some m.scope := by
  rw [h.scope_eq, h.place_eq, h.stands]

/-- Both machines may have their stores changed. -/
theorem Machine.PadsAt.withStore {p q : Padding} {id place : ScopeId} {m n : Machine}
    (h : m.PadsAt p id place n) (hpq : p <+: q) {s t : Store Value} (hst : s.Pads q t) :
    { m with store := s }.PadsAt q id place { n with store := t } where
  store := hst
  scope_eq := h.scope_eq
  place_eq := h.place_eq
  stands := Padding.stands_mono hpq h.stands
  functions_eq := h.functions_eq
  output_eq := h.output_eq

/-- A run was too deep. -/
def IsTooDeep {α : Type} (result : EStateM.Result Halt Machine α) : Prop :=
  ∃ m, result = .error (.breakdown .tooDeep) m

theorem IsTooDeep.bind {α β : Type} {x : Run α} {m : Machine} (h : IsTooDeep (x m))
    (f : α → Run β) : IsTooDeep ((x >>= f) m) := by
  obtain ⟨m', hrun⟩ := h
  exact ⟨m', by simp only [Bind.bind, EStateM.bind, hrun]⟩

theorem IsTooDeep.bind_of_run {α β : Type} {x : Run α} {m m' : Machine} {a : α}
    (hrun : x m = .ok a m') {f : α → Run β} (h : IsTooDeep (f a m')) :
    IsTooDeep ((x >>= f) m) := by
  obtain ⟨m'', hrest⟩ := h
  exact ⟨m'', by simp only [Bind.bind, EStateM.bind, hrun, hrest]⟩

theorem IsTooDeep.within {α : Type} {x : Run α} {m : Machine} {id : ScopeId}
    (h : IsTooDeep (x { m with scope := id })) : IsTooDeep (Run.within id x m) := by
  obtain ⟨m', hrun⟩ := h
  exact ⟨{ m' with scope := m.scope }, by simp only [Run.within, hrun]⟩

namespace Padding

variable {α β α' β' : Type} {lenient : Prop} {p : Padding} {id place : ScopeId}

/-- Run on machines that differ by a padding, two actions end in the same way on machines that
differ by a longer one. A lenient agreement says nothing of runs that are too deep. -/
def Agree (lenient : Prop) (p : Padding) (id place : ScopeId) (x : Run α) (y : Run β)
    (results : Padding → α → β → Prop) : Prop :=
  ∀ q, p <+: q → ∀ m n : Machine, m.PadsAt q id place n →
    lenient ∧ (IsTooDeep (x m) ∨ IsTooDeep (y n)) ∨
      ∃ r, q <+: r ∧ EndAlike (Machine.PadsAt r id place) Eq (results r) (x m) (y n)

namespace Agree

variable {x : Run α} {y : Run β} {results : Padding → α → β → Prop}
  {results' : Padding → α' → β' → Prop}

/-- Agreement of two runs that can only lead to the same padding. -/
theorem of_endAlike (h : ∀ q, p <+: q → ∀ m n : Machine, m.PadsAt q id place n →
    EndAlike (Machine.PadsAt q id place) Eq (results q) (x m) (y n)) :
    Agree lenient p id place x y results :=
  fun q hpq m n hmn => .inr ⟨q, List.prefix_refl _, h q hpq m n hmn⟩

theorem pure {a : α} {b : β} (h : ∀ q, p <+: q → results q a b) :
    Agree lenient p id place (pure a) (pure b) results :=
  .of_endAlike fun q hpq _ _ hmn => .ok hmn (h q hpq)

theorem throw (halt : Halt) : Agree lenient p id place (throw halt) (throw halt) results :=
  .of_endAlike fun _ _ _ _ hmn => .error hmn rfl

theorem mono_padding {q : Padding} (hxy : Agree lenient p id place x y results) (hpq : p <+: q) :
    Agree lenient q id place x y results :=
  fun r hqr => hxy r (hpq.trans hqr)

theorem bind {f : α → Run α'} {g : β → Run β'} (hxy : Agree lenient p id place x y results)
    (hfg : ∀ q, p <+: q → ∀ a b, results q a b → Agree lenient q id place (f a) (g b) results') :
    Agree lenient p id place (x >>= f) (y >>= g) results' := by
  intro q hpq m n hmn
  obtain ⟨hlenient, hdeep⟩ | ⟨r, hqr, hend⟩ := hxy q hpq m n hmn
  · exact .inl ⟨hlenient, hdeep.imp (·.bind f) (·.bind g)⟩
  · cases hx : x m with
    | ok a m' =>
      rw [hx] at hend
      obtain ⟨b, n', hy, hmn', hab⟩ := hend.of_ok
      obtain ⟨hlenient, hdeep⟩ | ⟨r', hrr', hend'⟩ :=
        hfg r (hpq.trans hqr) a b hab r (List.prefix_refl _) m' n' hmn'
      · exact .inl ⟨hlenient, hdeep.imp (.bind_of_run hx) (.bind_of_run hy)⟩
      · refine .inr ⟨r', hqr.trans hrr', ?_⟩
        simpa only [Bind.bind, EStateM.bind, hx, hy] using hend'
    | error halt m' =>
      rw [hx] at hend
      obtain ⟨halt', n', hy, hmn', rfl⟩ := hend.of_error
      refine .inr ⟨r, hqr, ?_⟩
      simp only [Bind.bind, EStateM.bind, hx, hy]
      exact .error hmn' rfl

theorem map {f : α → α'} {g : β → β'} (hxy : Agree lenient p id place x y results)
    (hfg : ∀ q a b, results q a b → ∀ r, q <+: r → results' r (f a) (g b)) :
    Agree lenient p id place (f <$> x) (g <$> y) results' := by
  rw [map_eq_pure_bind, map_eq_pure_bind]
  exact hxy.bind fun q _ a b hab => .pure fun r hqr => hfg q a b hab r hqr

theorem get : Agree lenient p id place get get fun q m n => m.PadsAt q id place n :=
  .of_endAlike fun _ _ _ _ hmn => .ok hmn hmn

/-- Both machines may do something in scopes of which one is the copy of the other. -/
theorem within {id' place' : ScopeId} (hstands : p[place']? = some id')
    (hxy : Agree lenient p id' place' x y results) :
    Agree lenient p id place (Run.within id' x) (Run.within place' y) results := by
  intro q hpq m n hmn
  obtain ⟨hlenient, hdeep⟩ | ⟨r, hqr, hend⟩ :=
    hxy q hpq _ _ (hmn.enter (stands_mono hpq hstands))
  · exact .inl ⟨hlenient, hdeep.imp .within .within⟩
  · refine .inr ⟨r, hqr, ?_⟩
    have hback := stands_mono hqr hmn.stands
    have hscope := hmn.scope_eq
    have hplace := hmn.place_eq
    simp only [Run.within, hscope, hplace]
    generalize x _ = end₁ at hend
    generalize y _ = end₂ at hend
    cases hend with
    | ok hstates hresults => exact .ok (hstates.enter hback) hresults
    | error hstates hhalts => exact .error (hstates.enter hback) hhalts

end Agree

/-! ### Basic actions -/

/-- What a statement gives that returns, and what it is in the padded store. -/
inductive Returns (p : Padding) : Option Returning → Option Returning → Prop
  | none : Returns p none none
  | some (keyword : Token) {v v' : Value} (h : v.Pads p v') :
      Returns p (some ⟨keyword, v⟩) (some ⟨keyword, v'⟩)

/-- The value that a call gives for the return of its function. -/
theorem Returns.value {a b : Option Returning} (h : Returns p a b) :
    ((a.map Returning.value).getD .null).Pads p ((b.map Returning.value).getD .null) := by
  cases h with
  | none => exact .constant .null
  | some keyword h => exact h

theorem Returns.mono {q : Padding} (hpq : p <+: q) {a b : Option Returning} (h : Returns p a b) :
    Returns q a b := by
  cases h with
  | none => exact .none
  | some keyword h => exact .some keyword (h.mono hpq)

theorem agree_pure {v v' : Value} (h : v.Pads p v') :
    Agree lenient p id place (pure v) (pure v') Value.Pads :=
  .pure fun _ hpq => h.mono hpq

theorem agree_returns {a b : Option Returning} (h : Returns p a b) :
    Agree lenient p id place (pure a) (pure b) Returns :=
  .pure fun _ hpq => h.mono hpq

theorem agree_ofExcept {result : Except Halt Value}
    (h : ∀ value, result = .ok value → ∃ c, value = .constant c) :
    Agree lenient p id place (Run.ofExcept result) (Run.ofExcept result) Value.Pads := by
  cases result with
  | ok value =>
    obtain ⟨c, rfl⟩ := h value rfl
    exact agree_pure (.constant c)
  | error halt => exact .throw halt

theorem agree_lookUp (name : Token) :
    Agree lenient p id place (Run.lookUp name) (Run.lookUp name) Value.Pads := by
  refine Agree.get.bind fun q _ m n hmn => ?_
  rw [Store.get?, Store.get?]
  rcases hmn.store.resolve?_cases hmn.stands_scope name.text with
    ⟨hid, hplace⟩ | ⟨target, target', hid, hplace, htarget⟩
  · rw [hid, hplace]
    exact .throw _
  · rw [hid, hplace]
    simp only [Option.bind_eq_bind, Option.bind_some]
    rcases (hmn.store.bindings htarget).get?_cases name.text with ⟨hv, hv'⟩ | ⟨v, v', hv, hv', h⟩
    · rw [hv, hv']
      exact .throw _
    · rw [hv, hv']
      exact agree_pure h

/-- Both machines may bind a name, the padded one in the copy of the scope. -/
theorem agree_define (hplace : p.IsPlace id place) (name : String) {v v' : Value}
    (h : v.Pads p v') :
    Agree lenient p id place (Run.define name v) (Run.define name v') fun _ _ _ => True := by
  refine .of_endAlike fun q hpq m n hmn => .ok (hmn.withStore (List.prefix_refl _) ?_) trivial
  rw [hmn.scope_eq, hmn.place_eq]
  exact hmn.store.define (hplace.mono hpq) name (h.mono hpq)

theorem agree_assign (name : Token) {v v' : Value} (h : v.Pads p v') :
    Agree lenient p id place (Run.assign name v) (Run.assign name v') fun _ _ _ => True := by
  refine .of_endAlike fun q hpq m n hmn => ?_
  rw [Run.assign, Run.assign, Store.assign, Store.assign]
  rcases hmn.store.resolve?_cases hmn.stands_scope name.text with
    ⟨hid, hplace⟩ | ⟨target, target', hid, hplace, htarget⟩
  · rw [hid, hplace]
    exact .error (hmn.withStore (List.prefix_refl _) hmn.store) rfl
  · rw [hid, hplace]
    have hstore := hmn.store.define htarget name.text (h.mono hpq)
    exact .ok (hmn.withStore (List.prefix_refl _) hstore) trivial

theorem agree_makeFunction (name : Token) (params : List Token) (body : List Node) :
    Agree lenient p id place (Run.makeFunction name params body)
      (Run.makeFunction name params body) Value.Pads := by
  refine .of_endAlike fun q _ m n hmn => .ok ?_ ?_
  · exact ⟨hmn.store, hmn.scope_eq, hmn.place_eq, hmn.stands,
      congrArg (· + 1) hmn.functions_eq, hmn.output_eq⟩
  · rw [hmn.functions_eq, hmn.scope_eq, hmn.place_eq]
    exact .function hmn.stands

theorem agree_printLine (line : String) :
    Agree lenient p id place (Run.printLine line) (Run.printLine line) fun _ _ _ => True := by
  refine .of_endAlike fun q _ m n hmn => .ok ?_ trivial
  exact ⟨hmn.store, hmn.scope_eq, hmn.place_eq, hmn.stands, hmn.functions_eq,
    congrArg (· ++ line ++ "\n") hmn.output_eq⟩

/-- Both machines may make a scope. -/
theorem agree_makeScope {parent around : ScopeId} (haround : p[around]? = some parent) :
    Agree lenient p id place (Run.makeScope parent) (Run.makeScope around) IsPlace := by
  intro q hpq m n hmn
  have hnew : IsPlace (q ++ [m.store.size]) m.store.size n.store.size := by
    rw [← hmn.store.length_eq]
    refine ⟨List.getElem?_concat_length, ?_⟩
    rw [List.take_left, hmn.store.mem_iff]
    exact Nat.lt_irrefl _
  refine .inr ⟨q ++ [m.store.size], List.prefix_append _ _, .ok ?_ hnew⟩
  exact hmn.withStore (List.prefix_append _ _) (hmn.store.push (stands_mono hpq haround))

/-- The padded machine may do in a scope of its own what the other machine does where it is. -/
theorem Agree.pad {x : Run α} {y : Run β} {results : Padding → α → β → Prop}
    (hxy : ∀ q, p <+: q → ∀ inside, q[inside]? = some id →
      Agree lenient q id inside x y results) :
    Agree lenient p id place x (Run.makeScope place >>= fun scope => Run.within scope y)
      results := by
  intro q hpq m n hmn
  have hinside : (q ++ [id])[n.store.size]? = some id := by
    rw [← hmn.store.length_eq]
    exact List.getElem?_concat_length
  have hpads := (hmn.withStore (List.prefix_append _ [id])
    (hmn.store.pushPad hmn.stands)).enterPad hinside
  obtain ⟨hlenient, hdeep⟩ | ⟨r, hqr, hend⟩ := hxy _ (hpq.trans (List.prefix_append _ [id]))
    n.store.size hinside _ (List.prefix_refl _) _ _ hpads
  · exact .inl ⟨hlenient, hdeep.imp_right fun h => .bind_of_run rfl (.within h)⟩
  · refine .inr ⟨r, (List.prefix_append _ _).trans hqr, ?_⟩
    have hback := stands_mono ((List.prefix_append _ _).trans hqr) hmn.stands
    have hplace := hmn.place_eq
    simp only [Bind.bind, EStateM.bind, Run.makeScope, Run.within, hplace]
    generalize x _ = end₁ at hend
    generalize y _ = end₂ at hend
    cases hend with
    | ok hstates hresults => exact .ok (hstates.enterPad hback) hresults
    | error hstates hhalts => exact .error (hstates.enterPad hback) hhalts

/-! ### Evaluation -/

/-- Nodes are treated alike by two evaluators. A statement that declares something is run in the
copy of a scope. -/
structure Agrees (lenient : Prop) (sub sub' : Evaluator) : Prop where
  evaluate : ∀ node p id place,
    Agree lenient p id place (sub.evaluate node) (sub'.evaluate node) Value.Pads
  execute : ∀ node p id place, p.IsPlace id place ∨ node.declared = [] →
    Agree lenient p id place (sub.execute node) (sub'.execute node) Returns

variable {sub sub' : Evaluator}

theorem agree_executeAll (hsub : Agrees lenient sub sub') {statements : List Node}
    (h : p.IsPlace id place ∨ ∀ statement ∈ statements, statement.declared = []) :
    Agree lenient p id place (sub.executeAll statements) (sub'.executeAll statements) Returns := by
  induction statements generalizing p with
  | nil => exact agree_returns .none
  | cons statement statements ih =>
    rw [List.forall_mem_cons] at h
    refine (hsub.execute statement p id place (h.imp_right And.left)).bind fun q hpq a b hab => ?_
    cases hab with
    | none => exact ih (h.imp (·.mono hpq) And.right)
    | some keyword hvalue => exact agree_returns (.some keyword hvalue)

/-- Arguments, and what they are in the padded store. -/
def Arguments (p : Padding) (args args' : List Value) : Prop :=
  List.Forall₂ (Value.Pads p) args args'

theorem Arguments.map_display_eq {args args' : List Value} (h : Arguments p args args') :
    args'.map Value.display = args.map Value.display := by
  induction h with
  | nil => rfl
  | cons hv _ ih => rw [List.map_cons, List.map_cons, hv.display_eq, ih]

theorem agree_arguments (hsub : Agrees lenient sub sub') (args : List Node) :
    Agree lenient p id place (args.mapM sub.evaluate) (args.mapM sub'.evaluate) Arguments := by
  induction args generalizing p with
  | nil => exact .pure fun _ _ => .nil
  | cons arg args ih =>
    rw [List.mapM_cons, List.mapM_cons]
    refine (hsub.evaluate arg p id place).bind fun q _ v v' hv => ?_
    refine ih.bind fun r hqr vs vs' hvs => .pure fun r' hrr' => ?_
    exact .cons (hv.mono (hqr.trans hrr')) (hvs.imp fun _ _ h => h.mono hrr')

theorem agree_defines (hplace : p.IsPlace id place) (names : List String) {args args' : List Value}
    (hargs : Arguments p args args') :
    Agree lenient p id place ((names.zip args).forM fun entry => Run.define entry.1 entry.2)
      ((names.zip args').forM fun entry => Run.define entry.1 entry.2) fun _ _ _ => True := by
  induction names generalizing p args args' with
  | nil => exact .pure fun _ _ => trivial
  | cons name names ih =>
    cases hargs with
    | nil => exact .pure fun _ _ => trivial
    | cons hv hrest =>
      refine (agree_define hplace name hv).bind fun q hpq _ _ _ => ?_
      exact ih (hplace.mono hpq) (hrest.imp fun _ _ h => h.mono hpq)

theorem agree_executeInside (hsub : Agrees lenient sub sub') {parent around : ScopeId}
    (haround : p[around]? = some parent) (names : List String) {args args' : List Value}
    (hargs : Arguments p args args') (statements : List Node) :
    Agree lenient p id place (sub.executeInside parent (names.zip args) statements)
      (sub'.executeInside around (names.zip args') statements) Returns := by
  refine (agree_makeScope haround).bind fun q hpq scope scope' hscope => .within hscope.1 ?_
  refine (agree_defines hscope names (hargs.imp fun _ _ h => h.mono hpq)).bind fun r hqr _ _ _ => ?_
  exact agree_executeAll hsub (.inl (hscope.mono hqr))

theorem agree_repeatWhile {condition condition' : Run Bool} {body body' : Run (Option Returning)}
    (hcondition : Agree lenient p id place condition condition' fun _ => Eq)
    (hbody : Agree lenient p id place body body' Returns) (fuel : Nat) :
    Agree lenient p id place (Evaluator.repeatWhile condition body fuel)
      (Evaluator.repeatWhile condition' body' fuel) Returns := by
  induction fuel generalizing p with
  | zero => exact .throw _
  | succ fuel ih =>
    refine hcondition.bind fun q hpq holds _ heq => ?_
    subst heq
    cases holds with
    | false => exact agree_returns .none
    | true =>
      refine (hbody.mono_padding hpq).bind fun r hqr a b hab => ?_
      have hpr := hpq.trans hqr
      cases hab with
      | none => exact ih (hcondition.mono_padding hpr) (hbody.mono_padding hpr)
      | some keyword hvalue => exact agree_returns (.some keyword hvalue)

theorem agree_call (hsub : Agrees lenient sub sub') {callee callee' : Value}
    (hcallee : callee.Pads p callee') (paren : Token) {args args' : List Value}
    (hargs : Arguments p args args') :
    Agree lenient p id place (sub.call callee paren args) (sub'.call callee' paren args')
      Value.Pads := by
  have hlength := hargs.length_eq
  cases hcallee with
  | @function f place' hstands =>
    have hbody : Agree lenient p id place _ _ Returns :=
      agree_executeInside hsub hstands (f.params.map Token.text) hargs f.body
    simp only [Evaluator.call, hlength]
    split
    · exact .of_endAlike fun _ _ _ _ hmn => .error hmn rfl
    · exact hbody.bind fun q _ a b hab => agree_pure hab.value
  | constant c =>
    cases c with
    | print number =>
      have hempty : args'.isEmpty = args.isEmpty := by
        cases hargs <;> rfl
      simp only [Evaluator.call, Run.calling_print, hempty, hargs.map_display_eq]
      split
      · exact .throw _
      · exact (agree_printLine _).bind fun _ _ _ _ _ => agree_pure (.constant .null)
    | _ => exact .throw _

theorem agree_step (name operator : Token) :
    Agree lenient p id place (Evaluator.step name operator) (Evaluator.step name operator)
      fun q a b => a.1.Pads q b.1 ∧ a.2.Pads q b.2 := by
  refine (agree_lookUp name).bind fun q _ old old' hold => ?_
  rw [hold.stepped_eq]
  refine (agree_ofExcept fun _ => Value.constant_of_stepped).bind fun r hqr new new' hnew => ?_
  refine (agree_assign name hnew).bind fun r' hrr' _ _ _ => .pure fun t hrt => ?_
  exact ⟨hold.mono (hqr.trans (hrr'.trans hrt)), hnew.mono (hrr'.trans hrt)⟩

theorem agree_expression (hsub : Agrees lenient sub sub') (node : Node) :
    Agree lenient p id place (sub.expression node) (sub'.expression node) Value.Pads := by
  cases node with
  | literal value => exact agree_pure (.constant value)
  | reference name => exact agree_lookUp name
  | assignment name value =>
    refine (hsub.evaluate value p id place).bind fun q _ v v' hv => ?_
    exact (agree_assign name hv).bind fun r hqr _ _ _ => agree_pure (hv.mono hqr)
  | binary left operator right =>
    refine (hsub.evaluate left p id place).bind fun q _ v v' hv => ?_
    refine (hsub.evaluate right q id place).bind fun r hqr w w' hw => ?_
    rw [(hv.mono hqr).binary_eq operator hw]
    exact agree_ofExcept fun _ => Value.constant_of_binary
  | logical left operator right =>
    refine (hsub.evaluate left p id place).bind fun q _ v v' hv => ?_
    rw [hv.isTruthy_eq]
    split
    · exact agree_pure hv
    · exact hsub.evaluate right q id place
  | unary operator right =>
    refine (hsub.evaluate right p id place).bind fun q _ v v' hv => ?_
    rw [hv.unary_eq]
    exact agree_ofExcept fun _ => Value.constant_of_unary
  | ternary condition thenBranch elseBranch =>
    refine (hsub.evaluate condition p id place).bind fun q _ v v' hv => ?_
    rw [hv.isTruthy_eq]
    split
    · exact hsub.evaluate thenBranch q id place
    · exact hsub.evaluate elseBranch q id place
  | grouping inner => exact hsub.evaluate inner p id place
  | call callee paren args =>
    refine (hsub.evaluate callee p id place).bind fun q _ v v' hv => ?_
    refine (agree_arguments hsub args).bind fun r hqr vs vs' hvs => ?_
    exact agree_call hsub (hv.mono hqr) paren hvs
  | stepAfter name operator =>
    exact (agree_step name operator).bind fun _ _ _ _ h => agree_pure h.1
  | stepBefore name operator =>
    exact (agree_step name operator).bind fun _ _ _ _ h => agree_pure h.2
  | _ => exact .throw _

theorem agree_statement (hsub : Agrees lenient sub sub') (fuel : Nat) (node : Node)
    (h : p.IsPlace id place ∨ node.declared = []) :
    Agree lenient p id place (sub.statement fuel node) (sub'.statement fuel node) Returns := by
  cases node with
  | discard expression =>
    exact (hsub.evaluate expression p id place).bind fun _ _ _ _ _ => agree_returns .none
  | declaration name initial =>
    have hplace : p.IsPlace id place := h.resolve_right (List.cons_ne_nil _ _)
    have hdefine {q : Padding} (hpq : p <+: q) {v v' : Value} (hv : v.Pads q v') :
        Agree lenient q id place (Run.define name.text v >>= fun _ => pure none)
          (Run.define name.text v' >>= fun _ => pure none) Returns :=
      (agree_define (hplace.mono hpq) name.text hv).bind fun _ _ _ _ _ => agree_returns .none
    cases initial with
    | none => exact hdefine (List.prefix_refl _) (.constant .null)
    | some initial =>
      exact (hsub.evaluate initial p id place).bind fun q hpq _ _ hv => hdefine hpq hv
  | block statements =>
    refine Agree.get.bind fun q _ m n hmn => ?_
    exact agree_executeInside hsub hmn.stands_scope [] .nil statements
  | branch condition thenBranch elseBranch =>
    refine (hsub.evaluate condition p id place).bind fun q hpq v v' hv => ?_
    rw [hv.isTruthy_eq]
    cases elseBranch with
    | none =>
      split
      · exact hsub.execute thenBranch q id place (h.imp_left (·.mono hpq))
      · exact agree_returns .none
    | some elseBranch =>
      rw [Node.declared, List.append_eq_nil_iff] at h
      split
      · exact hsub.execute thenBranch q id place (h.imp (·.mono hpq) And.left)
      · exact hsub.execute elseBranch q id place (h.imp (·.mono hpq) And.right)
  | loop condition body =>
    refine agree_repeatWhile ((hsub.evaluate condition p id place).map ?_)
      (hsub.execute body p id place h) fuel
    exact fun q v v' hv _ _ => hv.isTruthy_eq.symm
  | function name params body =>
    have hplace : p.IsPlace id place := h.resolve_right (List.cons_ne_nil _ _)
    refine (agree_makeFunction name params body).bind fun q hpq v v' hv => ?_
    exact (agree_define (hplace.mono hpq) name.text hv).bind fun _ _ _ _ _ => agree_returns .none
  | result keyword value =>
    cases value with
    | none => exact agree_returns (.some keyword (.constant .null))
    | some value =>
      refine (hsub.evaluate value p id place).bind fun q _ v v' hv => ?_
      exact agree_returns (.some keyword hv)
  | _ => exact .throw _

/-- Evaluation does not notice a padding. A lenient agreement may compare runs to different depths,
a strict one compares runs to the same depth. -/
theorem agrees_bounded (fuel : Nat) {depth depth' : Nat} (h : lenient ∨ depth = depth') :
    Agrees lenient (Evaluator.bounded fuel depth) (Evaluator.bounded fuel depth') := by
  induction depth generalizing depth' with
  | zero =>
    cases depth' with
    | zero => exact ⟨fun _ _ _ _ => .throw _, fun _ _ _ _ _ => .throw _⟩
    | succ depth' =>
      have hlenient := h.resolve_right (Nat.zero_ne_add_one depth')
      exact ⟨fun _ _ _ _ _ _ m _ _ => .inl ⟨hlenient, .inl ⟨m, rfl⟩⟩,
        fun _ _ _ _ _ _ _ m _ _ => .inl ⟨hlenient, .inl ⟨m, rfl⟩⟩⟩
  | succ depth ih =>
    cases depth' with
    | zero =>
      have hlenient := h.resolve_right (Nat.add_one_ne_zero depth)
      exact ⟨fun _ _ _ _ _ _ _ n _ => .inl ⟨hlenient, .inr ⟨n, rfl⟩⟩,
        fun _ _ _ _ _ _ _ _ n _ => .inl ⟨hlenient, .inr ⟨n, rfl⟩⟩⟩
    | succ depth' =>
      have hsub := ih (h.imp_right Nat.succ.inj)
      exact ⟨fun node _ _ _ => agree_expression hsub node,
        fun node _ _ _ hdeclared => agree_statement hsub fuel node hdeclared⟩

end Padding

/-! ### Well-scoped machines -/

/-- A machine is in a scope that was made, every scope was made after the one around it, and every
function that is bound was declared in a scope that was made. -/
structure Machine.IsWellScoped (m : Machine) : Prop where
  scope_lt : m.scope < m.store.size
  parent_lt : ∀ {id parent}, m.store.parent? id = some parent → parent < id
  isFrom : ∀ {id}, ∀ entry ∈ m.store.bindings id, entry.2.IsFrom (· < m.store.size)

namespace Machine

variable {p : Padding} {id place : ScopeId} {m n : Machine}

theorem isWellScoped_start (id : Nat) : (Machine.start id).IsWellScoped where
  scope_lt := Nat.one_pos
  parent_lt := by
    intro id parent h
    rw [start, Store.parent?_define, Store.parent?_push] at h
    split at h
    · cases h
    · cases h
  isFrom := by
    intro id entry hentry
    rcases Store.mem_bindings_define hentry with rfl | hmem
    · trivial
    · rw [Store.bindings_push] at hmem
      cases hmem

/-- A well-scoped machine without a padding. -/
theorem IsWellScoped.padsAt (h : m.IsWellScoped) :
    m.PadsAt (List.range m.store.size) m.scope m.scope m where
  store :=
    { length_eq := List.length_range
      mem_iff := List.mem_range
      bindings := by
        intro id place hplace
        obtain ⟨rfl, -⟩ := Padding.eq_of_stands_range hplace.1
        exact List.forall₂_same.mpr fun entry hentry => ⟨rfl, .of_isFrom (h.isFrom entry hentry)⟩
      around := by
        intro id place hplace
        obtain ⟨rfl, hlt⟩ := Padding.eq_of_stands_range hplace.1
        cases hparent : m.store.parent? place with
        | none => exact .none hparent hparent
        | some parent =>
          have hbelow := h.parent_lt hparent
          exact .some hparent hbelow hparent hbelow
            (Padding.isPlace_range (Nat.lt_trans hbelow hlt)).1
      pad := by
        intro id place hstands hnot
        obtain ⟨rfl, hlt⟩ := Padding.eq_of_stands_range hstands
        exact absurd (Padding.isPlace_range hlt) hnot }
  scope_eq := rfl
  place_eq := rfl
  stands := (Padding.isPlace_range h.scope_lt).1
  functions_eq := rfl
  output_eq := rfl

/-- A padded machine is well-scoped. -/
theorem PadsAt.isWellScoped (h : m.PadsAt p id place n) : n.IsWellScoped where
  scope_lt := h.store.place_lt_size h.stands_scope
  parent_lt := by
    intro place' around' hparent
    have hlt : place' < p.length := h.store.length_eq ▸ Store.lt_size_of_parent? hparent
    have hstands := List.getElem?_eq_getElem hlt
    by_cases hplace : p.IsPlace (p.get ⟨place', hlt⟩) place'
    · cases h.store.around hplace with
      | none _ hnone => cases hparent.symm.trans hnone
      | some _ _ hsome hbelow _ =>
        cases hparent.symm.trans hsome
        exact hbelow
    · obtain ⟨-, around, hbelow, hsome, -⟩ := h.store.pad hstands hplace
      cases hparent.symm.trans hsome
      exact hbelow
  isFrom := by
    intro place' entry hentry
    rw [← h.store.length_eq]
    by_cases hlt : place' < p.length
    · have hstands := List.getElem?_eq_getElem hlt
      by_cases hplace : p.IsPlace (p.get ⟨place', hlt⟩) place'
      · obtain ⟨v, hv⟩ := (h.store.bindings hplace).exists_of_mem hentry
        exact hv.isFrom
      · rw [(h.store.pad hstands hplace).1] at hentry
        cases hentry
    · rw [Store.bindings_of_size_le (h.store.length_eq ▸ Nat.le_of_not_lt hlt)] at hentry
      cases hentry

/-- What does not notice a padding keeps a machine well-scoped, however it ends. -/
theorem IsWellScoped.stateAfter {α : Type} {x : Run α} {results : Padding → α → α → Prop}
    (h : m.IsWellScoped)
    (hx : ∀ p id place, Padding.IsPlace p id place → Padding.Agree False p id place x x results) :
    (Script.stateAfter x m).IsWellScoped := by
  obtain ⟨hnot, -⟩ | ⟨r, -, hend⟩ := hx _ m.scope m.scope (Padding.isPlace_range h.scope_lt) _
    (List.prefix_refl _) m m h.padsAt
  · exact hnot.elim
  · rw [Script.stateAfter]
    generalize x m = ended at hend
    cases hend with
    | ok hstates _ => exact hstates.isWellScoped
    | error hstates _ => exact hstates.isWellScoped

end Machine

/-- Every interpreter has a well-scoped machine, whatever programs it has interpreted. -/
theorem Interpreter.isWellScoped_interpretAll (reporter : Reporter)
    (programs : List (Nat × List Node)) :
    (Interpreter.interpretAll programs (.new reporter)).machine.IsWellScoped := by
  have hstep (fuel : Nat) (program : List Node) {i : Interpreter} (hi : i.machine.IsWellScoped) :
      (Script.stateAfter (interpret fuel program) i).machine.IsWellScoped := by
    rw [machine_stateAfter_interpret]
    exact hi.stateAfter fun p id place hplace =>
      Padding.agree_executeAll (Padding.agrees_bounded fuel (.inr rfl)) (.inl hplace)
  have hall (i : Interpreter) (hi : i.machine.IsWellScoped) :
      (interpretAll programs i).machine.IsWellScoped := by
    induction programs generalizing i with
    | nil => exact hi
    | cons program programs ih => exact ih _ (hstep program.1 program.2 hi)
  exact hall _ (Machine.isWellScoped_start _)

end Script
