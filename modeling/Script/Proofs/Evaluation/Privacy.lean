import Mathlib.Logic.Relation
import Script.Proofs.Evaluation.Growing
import Script.Proofs.Evaluation.Simulation

/-!
# Scopes out of reach

From a scope one gets to the scope around it, and to the scopes in which the functions bound in it
were declared. What cannot be got to in this way from the current scope is private: a run neither
changes the bindings of such a scope nor depends on them. It can only bind functions that it has got
to, and it enters new scopes and scopes of such functions only, so a scope that is out of reach
stays out of reach, of the run and of its result.

The scopes from which the private scope is out of reach are what a simulation calls visible. It
relates a machine to the same machine with other bindings in the private scope.

## Main definitions

* `Store.Reaches` : a scope can be got to from another one.
* `Machine.rebind` : the machine with other bindings in one scope.
* `Machine.IsConfined` : nothing leads out of the visible scopes.
* `Run.KeepsPrivate` : a run that leaves a scope alone.

## Main results

* `keepsPrivate_of_not_reaches` : a run leaves alone what is out of its reach.
-/

namespace Script

/-! ### Reach -/

namespace Store

/-- The scope around a scope. -/
def parent? {α : Type} (s : Store α) (id : ScopeId) : Option ScopeId :=
  s.scopes[id]?.bind Scope.parent

/-- A scope leads to the scope around it and to the scopes of the functions bound in it. -/
inductive Links (s : Store Value) : ScopeId → ScopeId → Prop
  | outwards {id parent : ScopeId} (h : s.parent? id = some parent) : Links s id parent
  | function {id : ScopeId} {name : String} {f : Closure}
      (h : (s.bindings id).get? name = some (.function f)) : Links s id f.scope

/-- A scope can be got to from another one. -/
def Reaches (s : Store Value) : ScopeId → ScopeId → Prop :=
  Relation.ReflTransGen s.Links

/-- Nothing leads out of the visible scopes. -/
def IsClosed (visible : ScopeId → Prop) (s : Store Value) : Prop :=
  ∀ id target, visible id → s.Links id target → visible target

theorem IsClosed.of_reaches {visible : ScopeId → Prop} {s : Store Value} (hs : s.IsClosed visible)
    {id target : ScopeId} (hid : visible id) (h : s.Reaches id target) : visible target := by
  induction h with
  | refl => exact hid
  | tail _ hlink ih => exact hs _ _ ih hlink

/-- The scopes from which a scope is out of reach are closed. -/
theorem isClosed_not_reaches (s : Store Value) (secret : ScopeId) :
    s.IsClosed fun id => ¬ s.Reaches id secret :=
  fun _ _ hid hlink hreaches => hid (hreaches.head hlink)

/-- Nothing leads out of a place that has no scope yet. -/
theorem not_links_of_size_le {s : Store Value} {id target : ScopeId} (hid : s.size ≤ id) :
    ¬ s.Links id target := by
  have hnone : s.scopes[id]? = none := Array.getElem?_eq_none hid
  intro hlink
  cases hlink with
  | outwards h => simp [parent?, hnone] at h
  | function h => simp [bindings, hnone, Dictionary.get?] at h

variable {α : Type}

theorem parent?_push (s : Store α) (parent : Option ScopeId) (id : ScopeId) :
    (s.push parent).parent? id = if id = s.size then parent else s.parent? id := by
  rw [parent?, push, Array.getElem?_push]
  split
  · next h => exact (if_pos h).symm
  · next h => exact (if_neg h).symm

theorem parent?_define (s : Store α) (target : ScopeId) (name : String) (value : α)
    (id : ScopeId) : (s.define target name value).parent? id = s.parent? id := by
  rw [parent?, define, Array.getElem?_modify, parent?]
  split
  · cases s.scopes[id]? <;> rfl
  · rfl

theorem get?_bindings_define (s : Store α) {target id : ScopeId} {name other : String}
    {value found : α} (h : ((s.define target name value).bindings id).get? other = some found) :
    found = value ∧ id = target ∨ (s.bindings id).get? other = some found := by
  rw [bindings_define] at h
  split at h
  · next hand =>
    by_cases hname : other = name
    · subst hname
      rw [Dictionary.get?_put_self] at h
      exact .inl ⟨(Option.some.inj h).symm, hand.1.symm⟩
    · rw [Dictionary.get?_put_of_ne _ _ hname] at h
      exact .inr h
  · exact .inr h

/-! ### Other bindings in one scope -/

/-- The store with other bindings in one scope. -/
def rebind (s : Store α) (id : ScopeId) (d : Dictionary α) : Store α :=
  ⟨s.scopes.modify id fun scope => { scope with bindings := d }⟩

variable (s : Store α) {secret : ScopeId} (d : Dictionary α)

@[simp] theorem size_rebind : (s.rebind secret d).size = s.size :=
  Array.size_modify

theorem getElem?_rebind_of_ne {id : ScopeId} (h : secret ≠ id) :
    (s.rebind secret d).scopes[id]? = s.scopes[id]? := by
  rw [rebind, Array.getElem?_modify, if_neg h]

theorem bindings_rebind_of_ne {id : ScopeId} (h : secret ≠ id) :
    (s.rebind secret d).bindings id = s.bindings id := by
  rw [bindings, getElem?_rebind_of_ne s d h, bindings]

theorem bindings_rebind_self (h : secret < s.size) : (s.rebind secret d).bindings secret = d := by
  rw [bindings, rebind, Array.getElem?_modify, if_pos rfl, Array.getElem?_eq_getElem h]
  rfl

theorem rebind_bindings : s.rebind secret (s.bindings secret) = s := by
  refine congrArg Store.mk (Array.ext_getElem? fun i => ?_)
  rw [Array.getElem?_modify]
  split
  · next h =>
    subst h
    rw [bindings]
    cases s.scopes[secret]? <;> rfl
  · rfl

theorem push_rebind (h : secret < s.size) (parent : Option ScopeId) :
    (s.rebind secret d).push parent = (s.push parent).rebind secret d := by
  refine congrArg Store.mk (Array.ext_getElem? fun i => ?_)
  simp only [rebind, push, Array.getElem?_push, Array.getElem?_modify, Array.size_modify]
  by_cases hi : i = s.scopes.size
  · have hne : secret ≠ i := hi ▸ Nat.ne_of_lt h
    rw [if_pos hi, if_neg hne, if_pos hi]
  · rw [if_neg hi, if_neg hi]

theorem define_rebind {target : ScopeId} (h : secret ≠ target) (name : String) (value : α) :
    (s.rebind secret d).define target name value =
      (s.define target name value).rebind secret d := by
  refine congrArg Store.mk (Array.ext_getElem? fun i => ?_)
  simp only [rebind, define, Array.getElem?_modify]
  by_cases htarget : target = i
  · have hne : secret ≠ i := htarget ▸ h
    rw [if_neg hne, if_neg hne]
  · rw [if_neg htarget, if_neg htarget]

end Store

/-! ### Confined machines -/

namespace Store

variable {visible : ScopeId → Prop} {s : Store Value} {secret : ScopeId}

theorem IsClosed.push (hs : s.IsClosed visible) {parent : ScopeId} (hparent : visible parent) :
    (s.push (some parent)).IsClosed visible := by
  intro id target hid hlink
  cases hlink with
  | outwards h =>
    rw [parent?_push] at h
    split at h
    · cases h
      exact hparent
    · exact hs _ _ hid (.outwards h)
  | function h =>
    rw [bindings_push] at h
    exact hs _ _ hid (.function h)

theorem IsClosed.define (hs : s.IsClosed visible) {value : Value} (hvalue : value.IsFrom visible)
    (target : ScopeId) (name : String) : (s.define target name value).IsClosed visible := by
  intro id _ hid hlink
  cases hlink with
  | outwards h =>
    rw [parent?_define] at h
    exact hs _ _ hid (.outwards h)
  | function h =>
    rcases get?_bindings_define s h with ⟨rfl, -⟩ | hold
    · exact hvalue
    · exact hs _ _ hid (.function hold)

/-- A name is found in a visible scope, whatever the invisible scope binds. -/
theorem IsClosed.resolve? (hs : s.IsClosed visible) (hsecret : ¬ visible secret)
    (d : Dictionary Value) {id : ScopeId} (hid : visible id) (name : String) :
    (s.rebind secret d).resolve? id name = s.resolve? id name ∧
      ∀ target, s.resolve? id name = some target → visible target := by
  have hscope {id : ScopeId} (hid : visible id) :
      (s.rebind secret d).scopes[id]? = s.scopes[id]? :=
    s.getElem?_rebind_of_ne d fun heq => hsecret (heq ▸ hid)
  fun_induction Store.resolve? s id name with
  | case1 id hnone =>
    rw [Store.resolve?, hscope hid, hnone]
    refine ⟨rfl, fun target h => ?_⟩
    cases h
  | case2 id scope hsome hbinds =>
    rw [Store.resolve?, hscope hid, hsome]
    refine ⟨if_pos hbinds, fun target h => ?_⟩
    cases h
    exact hid
  | case3 id scope hsome hbinds hparent =>
    rw [Store.resolve?, hscope hid, hsome]
    simp only [hparent]
    refine ⟨if_neg hbinds, fun target h => ?_⟩
    cases h
  | case4 id scope hsome hbinds parent hparent hlt ih =>
    have hvisible : visible parent := by
      refine hs _ _ hid (.outwards ?_)
      rw [parent?, hsome, Option.bind_some, hparent]
    rw [Store.resolve?, hscope hid, hsome]
    simp only [hparent, if_neg hbinds, if_pos hlt]
    exact ih hvisible
  | case5 id scope hsome hbinds parent hparent hlt =>
    rw [Store.resolve?, hscope hid, hsome]
    simp only [hparent, if_neg hbinds, if_neg hlt]
    refine ⟨trivial, fun target h => ?_⟩
    cases h

end Store

namespace Machine

/-- The machine with other bindings in one scope. -/
def rebind (m : Machine) (id : ScopeId) (d : Dictionary Value) : Machine :=
  { m with store := m.store.rebind id d }

/-- A machine is in a visible scope, the scopes that it will make are visible, and nothing leads out
of the visible scopes. -/
structure IsConfined (visible : ScopeId → Prop) (m : Machine) : Prop where
  scope : visible m.scope
  fresh : ∀ id, m.store.size ≤ id → visible id
  isClosed : m.store.IsClosed visible

/-- An invisible scope exists. -/
theorem IsConfined.lt_size {visible : ScopeId → Prop} {m : Machine} (hm : m.IsConfined visible)
    {secret : ScopeId} (hsecret : ¬ visible secret) : secret < m.store.size :=
  Nat.lt_of_not_le fun hle => hsecret (hm.fresh secret hle)

end Machine

/-! ### The simulation -/

theorem Halt.relocate_stay (halt : Halt) : halt.relocate .stay = halt := by
  cases halt <;> rfl

/-- A confined machine runs in the same way with other bindings in a scope that is not visible. -/
def Simulation.rebinding (visible : ScopeId → Prop) {secret : ScopeId} (hsecret : ¬ visible secret)
    (d : Dictionary Value) : Simulation where
  relocation := .stay
  Visible := visible
  Related m n := n = m.rebind secret d ∧ m.IsConfined visible
  scope_eq := by
    rintro m _ ⟨rfl, -⟩
    rfl
  visible_scope := fun hmn => hmn.2.scope
  enter := by
    rintro m _ id ⟨rfl, hm⟩ hid
    exact ⟨rfl, hid, hm.fresh, hm.isClosed⟩
  print := by
    rintro m _ line ⟨rfl, hm⟩
    exact ⟨rfl, hm.scope, hm.fresh, hm.isClosed⟩
  makeFunction := by
    rintro m _ ⟨rfl, hm⟩
    exact ⟨rfl, rfl, hm.scope, hm.fresh, hm.isClosed⟩
  makeScope := by
    rintro m _ parent ⟨rfl, hm⟩ hparent
    refine ⟨m.store.size_rebind d, hm.fresh _ (Nat.le_refl _), ?_, hm.scope, ?_,
      hm.isClosed.push hparent⟩
    · simp only [Machine.rebind, m.store.push_rebind d (hm.lt_size hsecret)]
    · intro id hid
      rw [Store.size_push] at hid
      exact hm.fresh id (Nat.le_of_succ_le hid)
  define := by
    rintro m _ name value ⟨rfl, hm⟩ hvalue
    have hne : secret ≠ m.scope := fun heq => hsecret (heq ▸ hm.scope)
    refine ⟨?_, hm.scope, fun id hid => hm.fresh id ?_, hm.isClosed.define hvalue m.scope name⟩
    · simp only [Machine.rebind, Value.relocate_stay, m.store.define_rebind d hne]
    · rwa [Store.size_define] at hid
  assign := by
    rintro m _ name value ⟨rfl, hm⟩ hvalue
    obtain ⟨hresolve, hvisible⟩ := hm.isClosed.resolve? hsecret d hm.scope name
    simp only [Machine.rebind, Store.assign, hresolve, Value.relocate_stay]
    cases htarget : m.store.resolve? m.scope name with
    | none => exact ⟨rfl, rfl, hm.scope, hm.fresh, hm.isClosed⟩
    | some target =>
      have hne : secret ≠ target := fun heq => hsecret (heq ▸ hvisible target htarget)
      refine ⟨rfl, ?_, hm.scope, fun id hid => hm.fresh id ?_, hm.isClosed.define hvalue _ _⟩
      · simp only [m.store.define_rebind d hne]
      · rwa [Store.size_define] at hid
  get? := by
    rintro m _ name ⟨rfl, hm⟩
    obtain ⟨hresolve, hvisible⟩ := hm.isClosed.resolve? hsecret d hm.scope name
    simp only [Machine.rebind, Store.get?, hresolve]
    cases htarget : m.store.resolve? m.scope name with
    | none => exact ⟨rfl, fun _ h => nomatch h⟩
    | some target =>
      have hne : secret ≠ target := fun heq => hsecret (heq ▸ hvisible target htarget)
      have hstay : Value.relocate .stay = id := funext Value.relocate_stay
      simp only [Option.bind_eq_bind, Option.bind_some, m.store.bindings_rebind_of_ne d hne]
      refine ⟨by rw [hstay, Option.map_id, id], fun value hvalue => ?_⟩
      cases value with
      | constant c => trivial
      | function f => exact hm.isClosed _ _ (hvisible target htarget) (.function hvalue)

@[simp] theorem Simulation.relocation_rebinding {visible : ScopeId → Prop} {secret : ScopeId}
    (hsecret : ¬ visible secret) (d : Dictionary Value) :
    (Simulation.rebinding visible hsecret d).relocation = .stay := rfl

theorem Returning.relocate_stay (returning : Returning) : returning.relocate .stay = returning := by
  rw [relocate, Value.relocate_stay, Relocation.stay_apply]

/-! ### Private scopes -/

/-- The end of a run with other bindings in one scope. -/
def rebindEnd {α : Type} (id : ScopeId) (d : Dictionary Value) :
    EStateM.Result Halt Machine α → EStateM.Result Halt Machine α
  | .ok a m => .ok a (m.rebind id d)
  | .error halt m => .error halt (m.rebind id d)

/-- A run of an action on a machine leaves a scope alone; `value?` is the value in its result. -/
structure Run.KeepsPrivate {α : Type} (x : Run α) (value? : α → Option Value) (m : Machine)
    (secret : ScopeId) : Prop where
  /-- The scope has the bindings that it had before. -/
  bindings_eq : (stateAfter x m).store.bindings secret = m.store.bindings secret
  /-- With other bindings in the scope, the run ends in the same way, with the same result or halt,
  and leaves the same machine but for these bindings. -/
  rebind : ∀ d, x (m.rebind secret d) = rebindEnd secret d (x m)
  /-- The scope is out of reach from where the run was started. -/
  not_reaches : ¬ (stateAfter x m).store.Reaches m.scope secret
  /-- The scope is out of reach from the value. -/
  not_reaches_value : ∀ a m', x m = .ok a m' → ∀ f, value? a = some (.function f) →
    ¬ m'.store.Reaches f.scope secret

/-- All scopes from which a scope is out of reach are visible. -/
theorem Machine.isConfined_not_reaches {m : Machine} {secret : ScopeId}
    (hexists : secret < m.store.size) (hprivate : ¬ m.store.Reaches m.scope secret) :
    m.IsConfined fun id => ¬ m.store.Reaches id secret where
  scope := hprivate
  fresh := by
    intro id hid hreaches
    rcases hreaches.cases_head with rfl | ⟨target, hlink, -⟩
    · exact absurd hexists (Nat.not_lt_of_le hid)
    · exact Store.not_links_of_size_le hid hlink
  isClosed := m.store.isClosed_not_reaches secret

/-- A run that agrees with itself, whatever is bound in a scope that it does not see, leaves this
scope alone. -/
theorem Run.keepsPrivate_of_agree {α : Type} {x : Run α} {value? : α → Option Value} {m : Machine}
    {secret : ScopeId} {visible : ScopeId → Prop} (hsecret : ¬ visible secret)
    (hm : m.IsConfined visible)
    (hx : ∀ d, (Simulation.rebinding visible hsecret d).Agree x x fun a b =>
      b = a ∧ ∀ v ∈ value? a, v.IsFrom visible) : x.KeepsPrivate value? m secret := by
  have hends (d : Dictionary Value) : x (m.rebind secret d) = rebindEnd secret d (x m) ∧
      (stateAfter x m).IsConfined visible ∧
      ∀ a m', x m = .ok a m' → ∀ v ∈ value? a, v.IsFrom visible := by
    have hend := hx d m (m.rebind secret d) ⟨rfl, hm⟩
    rw [stateAfter]
    generalize x m = end₁ at hend ⊢
    generalize x (m.rebind secret d) = end₂ at hend ⊢
    cases hend with
    | ok hstates hresults =>
      obtain ⟨rfl, hm'⟩ := hstates
      obtain ⟨rfl, hvalue⟩ := hresults
      refine ⟨rfl, hm', fun a m' h => ?_⟩
      cases h
      exact hvalue
    | @error halt halt' _ _ hstates hhalts =>
      obtain ⟨rfl, hm'⟩ := hstates
      have hhalt : halt' = halt := hhalts.trans halt.relocate_stay
      refine ⟨by rw [hhalt, rebindEnd], hm', fun a m' h => ?_⟩
      cases h
  -- The bindings are kept because the run also agrees with itself on the bindings that are there.
  obtain ⟨hown, hafter, hvalue⟩ := hends (m.store.bindings secret)
  have hbindings : stateAfter x m = (stateAfter x m).rebind secret (m.store.bindings secret) := by
    have hstart : m.rebind secret (m.store.bindings secret) = m := by
      rw [Machine.rebind, Store.rebind_bindings]
    rw [hstart] at hown
    rw [stateAfter]
    generalize x m = end₁ at hown ⊢
    cases end₁ with
    | ok a m' => exact (EStateM.Result.ok.inj hown).2
    | error halt m' => exact (EStateM.Result.error.inj hown).2
  refine ⟨?_, fun d => (hends d).1, fun hreaches => ?_, fun a m' hrun f hf hreaches => ?_⟩
  · rw [hbindings]
    exact Store.bindings_rebind_self _ _ (hafter.lt_size hsecret)
  · exact hsecret (hafter.isClosed.of_reaches hm.scope hreaches)
  · have hclosed : m'.store.IsClosed visible := by
      rw [stateAfter, hrun] at hafter
      exact hafter.isClosed
    exact hsecret (hclosed.of_reaches (hvalue a m' hrun _ hf) hreaches)

/-- A run leaves every scope alone that exists and is out of reach when the run is started, whatever
is evaluated or executed and however that ends. -/
theorem keepsPrivate_of_not_reaches {m : Machine} {secret : ScopeId}
    (hexists : secret < m.store.size) (hprivate : ¬ m.store.Reaches m.scope secret)
    (fuel depth : Nat) (node : Node) :
    Run.KeepsPrivate ((Evaluator.bounded fuel depth).evaluate node) some m secret ∧
      Run.KeepsPrivate ((Evaluator.bounded fuel depth).execute node) (Option.map Returning.value)
        m secret := by
  let visible (id : ScopeId) : Prop := ¬ m.store.Reaches id secret
  have hconfined : m.IsConfined visible := Machine.isConfined_not_reaches hexists hprivate
  have hsecret : ¬ visible secret := fun h => h .refl
  have hsub (d : Dictionary Value) :=
    (Simulation.rebinding visible hsecret d).agrees_bounded fuel depth
  refine ⟨Run.keepsPrivate_of_agree hsecret hconfined fun d => ?_,
    Run.keepsPrivate_of_agree hsecret hconfined fun d => ?_⟩
  · have hagree := (hsub d).evaluate node
    rw [Simulation.relocation_rebinding, Node.relocate_stay] at hagree
    refine hagree.mono ?_
    rintro v _ ⟨rfl, hv⟩
    refine ⟨v.relocate_stay, fun w hw => ?_⟩
    cases hw
    exact hv
  · have hagree := (hsub d).execute node
    rw [Simulation.relocation_rebinding, Node.relocate_stay] at hagree
    refine hagree.mono ?_
    rintro returning _ ⟨rfl, hreturning⟩
    refine ⟨?_, fun w hw => ?_⟩
    · cases returning with
      | none => rfl
      | some returning => exact congrArg some returning.relocate_stay
    · obtain ⟨r, hr, rfl⟩ := Option.map_eq_some_iff.mp hw
      exact hreturning r hr

/-- An identifier in the first line of a text. -/
private def word (text : String) : Token :=
  ⟨.identifier, text, .null, 1, text.length, text.length⟩

/-- A machine with a function `count` that counts the `n` of the scope in which it was declared.
Another scope has an `n` too, and nothing leads there. -/
def Machine.counting : Machine where
  store := ⟨#[
    ⟨[("print", .print 0), ("count", .function ⟨0, word "count", [],
      [.discard (.stepAfter (word "n") ⟨.plusPlus, "++", .null, 1, 3, 2⟩)], 2⟩)], none⟩,
    ⟨[("n", .text "private")], some 0⟩,
    ⟨[("n", .number 0)], some 0⟩]⟩
  scope := 0
  functions := 1
  output := ""

theorem Machine.not_reaches_counting : ¬ counting.store.Reaches counting.scope 1 := by
  have hclosed : counting.store.IsClosed (· ≠ 1) := by
    intro (id : Nat) target (hid : id ≠ 1) hlink
    have hlt : id < 3 := Nat.lt_of_not_le fun hle => Store.not_links_of_size_le hle hlink
    obtain rfl | rfl : id = 0 ∨ id = 2 := by omega
    · cases hlink with
      | outwards h => cases h
      | function h =>
        -- the only function is the second of the bindings
        cases Dictionary.mem_of_get? h with
        | tail _ h =>
          cases h with
          | head => decide
          | tail _ h => cases h
    · cases hlink with
      | outwards h =>
        cases h
        decide
      | function h =>
        cases Dictionary.mem_of_get? h with
        | tail _ h => cases h
  exact fun hreaches => hclosed.of_reaches (by decide) hreaches rfl

/-- Calling `count` leaves the `n` alone that is out of its reach. -/
theorem keepsPrivate_counting :
    1 < Machine.counting.store.size ∧
    ¬ Machine.counting.store.Reaches Machine.counting.scope 1 ∧
    Run.KeepsPrivate (evaluate 1 (.call (.reference (word "count")) (word ")") [])) some
      Machine.counting 1 :=
  ⟨by decide, Machine.not_reaches_counting,
    (keepsPrivate_of_not_reaches (by decide) Machine.not_reaches_counting 1 nestingLimit _).1⟩

end Script
