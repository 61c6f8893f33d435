import Script.Proofs.Evaluation.Outwards
import Script.Proofs.Evaluation.Watching

/-!
# The tree of scopes

Wherever a run is, the scopes of its machine form a tree with the global scope as its root. A scope
is made in the current one or in that of a function, both of which are there already, and binding
and changing names leaves the scopes around a scope as they are. So the links of the tree are only
added to: every machine that a run goes through has the links that were there at the beginning, and
its own links are there at the end.

A function may be held by the run before it is bound anywhere, so its scope has to be known to be
there as long as it is held. Scopes are never removed, and it is enough to know how many there are.

## Main definitions

* `Machine.IsRooted` : a machine whose scopes form a tree with the global scope as its root.
* `Machine.LeadsTo` : the machine later in a run.
* `Run.KeepsTree` : an action on rooted machines, and the same action under a watch.

## Main results

* `Evaluator.keepsTree_bounded` : evaluation keeps the tree of scopes, at every depth.
* `Evaluator.leadsTo_executeAll` : statements go through rooted machines with the same links.
-/

namespace Script

/-! ### Rooted machines -/

/-- The scopes of one store are scopes of another one, and lie in the same scopes there. -/
structure Store.KeepsLinks {α : Type} (s t : Store α) : Prop where
  size_le : s.size ≤ t.size
  parent?_eq : ∀ id < s.size, t.parent? id = s.parent? id

/-- A well-scoped machine in which only the global scope lies in no other one. -/
structure Machine.IsRooted (m : Machine) : Prop extends m.IsWellScoped where
  root : ∀ id < m.store.size, m.store.parent? id = none → id = globalScope

/-- A machine, and a machine later in the same run: it is rooted, and no link has changed. -/
structure Machine.LeadsTo (m m' : Machine) : Prop where
  isRooted : m'.IsRooted
  keepsLinks : m.store.KeepsLinks m'.store

namespace Store.KeepsLinks

variable {α : Type} {s t u : Store α}

theorem refl (s : Store α) : s.KeepsLinks s :=
  ⟨Nat.le_refl _, fun _ _ => rfl⟩

theorem trans (hst : s.KeepsLinks t) (htu : t.KeepsLinks u) : s.KeepsLinks u where
  size_le := Nat.le_trans hst.size_le htu.size_le
  parent?_eq := fun id hid =>
    (htu.parent?_eq id (Nat.lt_of_lt_of_le hid hst.size_le)).trans (hst.parent?_eq id hid)

theorem push (s : Store α) (parent : Option ScopeId) : s.KeepsLinks (s.push parent) where
  size_le := by
    rw [size_push]
    exact Nat.le_succ _
  parent?_eq := by
    intro id hid
    rw [parent?_push, if_neg (Nat.ne_of_lt hid)]

theorem define (s : Store α) (target : ScopeId) (name : String) (value : α) :
    s.KeepsLinks (s.define target name value) where
  size_le := Nat.le_of_eq (size_define ..).symm
  parent?_eq := fun _ _ => parent?_define ..

end Store.KeepsLinks

/-- A value that is no function, or a function that was declared in one of the first `n` scopes. -/
abbrev Value.IsAmong (n : Nat) (v : Value) : Prop :=
  v.IsFrom (· < n)

/-- What a statement gives that returns was declared in one of the first `n` scopes. -/
abbrev Returning.IsAmong (n : Nat) (returning : Option Returning) : Prop :=
  ∀ r ∈ returning, r.value.IsAmong n

theorem Value.IsAmong.mono {n n' : Nat} (hle : n ≤ n') {v : Value} (h : v.IsAmong n) :
    v.IsAmong n' := by
  cases v with
  | constant c => trivial
  | function f => exact Nat.lt_of_lt_of_le h hle

namespace Machine

variable {m m' m'' : Machine}

theorem isRooted_start (id : Nat) : (Machine.start id).IsRooted where
  toIsWellScoped := isWellScoped_start id
  root := fun _ hid _ => Nat.lt_one_iff.mp hid

theorem IsRooted.isForest (hm : m.IsRooted) : m.store.IsForest :=
  fun _ _ hparent => hm.parent_lt hparent

namespace LeadsTo

theorem refl (hm : m.IsRooted) : m.LeadsTo m :=
  ⟨hm, .refl _⟩

theorem trans (h : m.LeadsTo m') (h' : m'.LeadsTo m'') : m.LeadsTo m'' :=
  ⟨h'.isRooted, h.keepsLinks.trans h'.keepsLinks⟩

/-- The store is what counts, as long as the machine is in one of its scopes. -/
theorem of_store_eq (hm : m.IsRooted) (hstore : m'.store = m.store)
    (hscope : m'.scope < m.store.size) : m.LeadsTo m' := by
  obtain ⟨store, scope, functions, output⟩ := m'
  subst hstore
  exact ⟨⟨⟨hscope, hm.parent_lt, hm.isFrom⟩, hm.root⟩, .refl _⟩

theorem push (hm : m.IsRooted) {parent : ScopeId} (hparent : parent < m.store.size) :
    m.LeadsTo { m with store := m.store.push (some parent) } where
  keepsLinks := .push _ _
  isRooted :=
    { scope_lt := Nat.lt_of_lt_of_le hm.scope_lt (Store.KeepsLinks.push m.store _).size_le
      parent_lt := by
        intro id around haround
        rw [Store.parent?_push] at haround
        by_cases hid : id = m.store.size
        · rw [if_pos hid] at haround
          cases haround
          exact hid ▸ hparent
        · rw [if_neg hid] at haround
          exact hm.parent_lt haround
      isFrom := by
        intro id entry hentry
        rw [Store.bindings_push] at hentry
        exact Value.IsAmong.mono (Store.KeepsLinks.push m.store _).size_le (hm.isFrom entry hentry)
      root := by
        intro id hid hnone
        rw [Store.parent?_push] at hnone
        by_cases heq : id = m.store.size
        · rw [if_pos heq] at hnone
          cases hnone
        · rw [if_neg heq] at hnone
          rw [Store.size_push] at hid
          exact hm.root id (Nat.lt_of_le_of_ne (Nat.le_of_lt_succ hid) heq) hnone }

theorem define (hm : m.IsRooted) (target : ScopeId) (name : String) {value : Value}
    (hvalue : value.IsAmong m.store.size) :
    m.LeadsTo { m with store := m.store.define target name value } where
  keepsLinks := .define ..
  isRooted :=
    { scope_lt := by
        rw [Store.size_define]
        exact hm.scope_lt
      parent_lt := by
        intro id parent hparent
        rw [Store.parent?_define] at hparent
        exact hm.parent_lt hparent
      isFrom := by
        intro id entry hentry
        rw [Store.size_define]
        rcases Store.mem_bindings_define hentry with rfl | hmem
        · exact hvalue
        · exact hm.isFrom entry hmem
      root := by
        intro id hid hnone
        rw [Store.size_define] at hid
        rw [Store.parent?_define] at hnone
        exact hm.root id hid hnone }

end LeadsTo

end Machine

/-! ### Actions on rooted machines -/

/-- What an action `x` does on a machine, and what `y`, which is `x` under a watch for the machine
`visited`, does there. -/
structure Run.KeepsTreeOn {α : Type} (visited : Machine) (x y : Run α) (post : Nat → α → Prop)
    (m : Machine) : Prop where
  leadsTo : m.LeadsTo (stateAfter x m)
  /-- What `post` says of the result depends on how many scopes there are at the end. -/
  post : ∀ a m', x m = .ok a m' → post m'.store.size a
  /-- Where the watch makes a difference, the machine lies between the beginning and the end. -/
  between : y m ≠ x m → m.LeadsTo visited ∧ visited.LeadsTo (stateAfter x m)

/-- An action on rooted machines with at least `n` scopes, and the same action under a watch. -/
def Run.KeepsTree {α : Type} (visited : Machine) (n : Nat) (x y : Run α) (post : Nat → α → Prop) :
    Prop :=
  ∀ m : Machine, m.IsRooted → n ≤ m.store.size → KeepsTreeOn visited x y post m

namespace Run

variable {α β : Type} {visited : Machine} {n : Nat} {x y : Run α} {post : Nat → α → Prop}
  {post' : Nat → β → Prop}

/-- An action that is the same under every watch. -/
theorem KeepsTree.of_leadsTo (h : ∀ m : Machine, m.IsRooted → n ≤ m.store.size →
    m.LeadsTo (stateAfter x m) ∧ ∀ a m', x m = .ok a m' → post m'.store.size a) :
    KeepsTree visited n x x post := by
  intro m hm hn
  obtain ⟨hleads, hpost⟩ := h m hm hn
  exact ⟨hleads, hpost, fun hne => absurd rfl hne⟩

theorem keepsTree_pure {a : α} (h : ∀ n', n ≤ n' → post n' a) :
    KeepsTree visited n (pure a) (pure a) post := by
  refine .of_leadsTo fun m hm hn => ⟨.refl hm, fun a m' hrun => ?_⟩
  cases hrun
  exact h _ hn

theorem keepsTree_throw (halt : Halt) : KeepsTree visited n (throw halt) (throw halt) post :=
  .of_leadsTo fun _ hm _ => ⟨.refl hm, fun _ _ hrun => nomatch hrun⟩

theorem KeepsTree.bind {f g : α → Run β} (hx : KeepsTree visited n x y post)
    (hf : ∀ n' a, n ≤ n' → post n' a → KeepsTree visited n' (f a) (g a) post') :
    KeepsTree visited n (x >>= f) (y >>= g) post' := by
  intro m hm hn
  obtain ⟨hleads, hpost, hbetween⟩ := hx m hm hn
  cases hrun : x m with
  | error halt m₁ =>
    have hwhole : (x >>= f) m = .error halt m₁ := by simp only [Bind.bind, EStateM.bind, hrun]
    have hafter : stateAfter (x >>= f) m = stateAfter x m := by
      rw [stateAfter, stateAfter, hwhole, hrun]
    rw [← hafter] at hleads hbetween
    refine ⟨hleads, fun b m' h => ?_, fun hne => hbetween fun hsame => hne ?_⟩
    · cases hwhole.symm.trans h
    · rw [hwhole]
      simp only [Bind.bind, EStateM.bind, hsame, hrun]
  | ok a m₁ =>
    have hwhole : (x >>= f) m = f a m₁ := by simp only [Bind.bind, EStateM.bind, hrun]
    have hafter : stateAfter (x >>= f) m = stateAfter (f a) m₁ := by
      rw [stateAfter, stateAfter, hwhole]
    have hfirst : stateAfter x m = m₁ := by rw [stateAfter, hrun]
    rw [hfirst] at hleads hbetween
    have hle : n ≤ m₁.store.size := Nat.le_trans hn hleads.keepsLinks.size_le
    obtain ⟨hleads', hpost', hbetween'⟩ :=
      hf m₁.store.size a hle (hpost a m₁ hrun) m₁ hleads.isRooted (Nat.le_refl _)
    refine ⟨hafter ▸ hleads.trans hleads', fun b m' h => hpost' b m' (hwhole.symm.trans h), ?_⟩
    intro hne
    rw [hafter]
    -- the watch makes a difference in the first part, or else in the second one
    by_cases hsame : y m = x m
    · have hne' : g a m₁ ≠ f a m₁ := by
        intro heq
        rw [hwhole, ← heq] at hne
        simp only [Bind.bind, EStateM.bind, hsame, hrun, ne_eq, not_true_eq_false] at hne
      exact (hbetween' hne').imp_left hleads.trans
    · exact (hbetween hsame).imp_right (·.trans hleads')

theorem KeepsTree.map {f : α → β} (hx : KeepsTree visited n x y post)
    (hf : ∀ n' a, post n' a → ∀ n'', n' ≤ n'' → post' n'' (f a)) :
    KeepsTree visited n (f <$> x) (f <$> y) post' := by
  rw [map_eq_pure_bind, map_eq_pure_bind]
  exact hx.bind fun n' a _ ha => keepsTree_pure (hf n' a ha)

/-- Under a watch the machine that is watched for may be that of the beginning or of the end. -/
theorem KeepsTree.watched {watch : Machine → Bool} (hx : KeepsTree visited n x y post)
    (hwatch : ∀ m, watch m = true → m = visited) (alarm : Halt) :
    KeepsTree visited n x (y.watched watch alarm) post := by
  intro m hm hn
  obtain ⟨hleads, hpost, hbetween⟩ := hx m hm hn
  refine ⟨hleads, hpost, fun hne => ?_⟩
  by_cases hsame : y m = x m
  · have hafter : stateAfter y m = stateAfter x m := by rw [stateAfter, stateAfter, hsame]
    cases hbegin : watch m with
    | true =>
      obtain rfl := hwatch m hbegin
      exact ⟨.refl hm, hleads⟩
    | false =>
      cases hend : watch (stateAfter x m) with
      | true =>
        obtain rfl := hwatch _ hend
        exact ⟨hleads, .refl hleads.isRooted⟩
      | false =>
        rw [← hafter] at hend
        exact absurd ((watched_eq hbegin hend).trans hsame) hne
  · exact hbetween hsame

/-! ### Basic actions -/

/-- Nothing comes after a fault. -/
theorem keepsTree_fail_bind (cause : RuntimeFault.Cause) (token : Token) (f g : α → Run β) :
    KeepsTree visited n (fail cause token >>= f) (fail cause token >>= g) post' :=
  fun _ hm _ => ⟨.refl hm, (fun _ _ hrun => nomatch hrun), fun hne => absurd rfl hne⟩

theorem keepsTree_value {v : Value} (hv : v.IsAmong n) :
    KeepsTree visited n (pure v) (pure v) Value.IsAmong :=
  keepsTree_pure fun _ hle => hv.mono hle

theorem keepsTree_returns {returning : Option Returning} (h : Returning.IsAmong n returning) :
    KeepsTree visited n (pure returning) (pure returning) Returning.IsAmong :=
  keepsTree_pure fun _ hle r hr => (h r hr).mono hle

theorem keepsTree_none : KeepsTree visited n (pure none) (pure none) Returning.IsAmong :=
  keepsTree_returns fun _ h => nomatch h

theorem keepsTree_get : KeepsTree visited n get get fun n' (m : Machine) => m.scope < n' := by
  refine .of_leadsTo fun m hm _ => ⟨.refl hm, fun a m' hrun => ?_⟩
  cases hrun
  exact hm.scope_lt

theorem keepsTree_ofExcept {result : Except Halt Value}
    (h : ∀ value, result = .ok value → ∃ c, value = .constant c) :
    KeepsTree visited n (ofExcept result) (ofExcept result) Value.IsAmong := by
  cases result with
  | ok value =>
    obtain ⟨c, rfl⟩ := h value rfl
    exact keepsTree_value trivial
  | error halt => exact keepsTree_throw halt

theorem lookUp_of_get? {m : Machine} {name : Token} {value : Value}
    (h : m.store.get? m.scope name.text = some value) : lookUp name m = .ok value m := by
  have hget : (get : Run Machine) m = .ok m m := rfl
  simp only [lookUp, Bind.bind, EStateM.bind, hget, h]
  rfl

theorem keepsTree_lookUp (name : Token) :
    KeepsTree visited n (lookUp name) (lookUp name) Value.IsAmong := by
  refine .of_leadsTo fun m hm _ => ?_
  cases hvalue : m.store.get? m.scope name.text with
  | none =>
    rw [stateAfter, (undefined_of_get?_eq_none hvalue).1]
    refine ⟨.refl hm, fun a m' h => ?_⟩
    cases h
  | some value =>
    rw [stateAfter, lookUp_of_get? hvalue]
    refine ⟨.refl hm, fun a m' h => ?_⟩
    cases h
    obtain ⟨id, hmem⟩ := Store.mem_bindings_of_get? hvalue
    exact hm.isFrom _ hmem

theorem keepsTree_define (name : String) {value : Value} (hvalue : value.IsAmong n) :
    KeepsTree visited n (define name value) (define name value) fun _ _ => True :=
  .of_leadsTo fun m hm hn => ⟨.define hm m.scope name (hvalue.mono hn), fun _ _ _ => trivial⟩

theorem keepsTree_assign (name : Token) {value : Value} (hvalue : value.IsAmong n) :
    KeepsTree visited n (assign name value) (assign name value) fun _ _ => True := by
  refine .of_leadsTo fun m hm hn => ⟨?_, fun _ _ _ => trivial⟩
  rcases m.store.assign_cases m.scope name.text value with hassign | ⟨target, hassign⟩
  · simp only [stateAfter, assign, hassign]
    exact .refl hm
  · simp only [stateAfter, assign, hassign]
    exact .define hm target name.text (hvalue.mono hn)

theorem keepsTree_makeScope {parent : ScopeId} (hparent : parent < n) :
    KeepsTree visited n (makeScope parent) (makeScope parent) fun n' id => id < n' := by
  refine .of_leadsTo fun m hm hn => ⟨.push hm (Nat.lt_of_lt_of_le hparent hn), fun a m' hrun => ?_⟩
  cases hrun
  rw [Store.size_push]
  exact Nat.lt_succ_self _

theorem keepsTree_makeFunction (name : Token) (params : List Token) (body : List Node) :
    KeepsTree visited n (makeFunction name params body) (makeFunction name params body)
      Value.IsAmong := by
  refine .of_leadsTo fun m hm _ => ⟨.of_store_eq hm rfl hm.scope_lt, fun a m' hrun => ?_⟩
  cases hrun
  exact hm.scope_lt

theorem keepsTree_printLine (line : String) :
    KeepsTree visited n (printLine line) (printLine line) fun _ _ => True :=
  .of_leadsTo fun _ hm _ => ⟨.of_store_eq hm rfl hm.scope_lt, fun _ _ _ => trivial⟩

theorem stateAfter_within (id : ScopeId) (x : Run α) (m : Machine) :
    stateAfter (within id x) m = { stateAfter x { m with scope := id } with scope := m.scope } := by
  simp only [stateAfter, within]
  cases x { m with scope := id } <;> rfl

/-- Work may be done in another scope that is there. -/
theorem KeepsTree.within {id : ScopeId} (hid : id < n) (hx : KeepsTree visited n x y post) :
    KeepsTree visited n (within id x) (within id y) post := by
  intro m hm hn
  let inner : Machine := { m with scope := id }
  have henter : m.LeadsTo inner := .of_store_eq hm rfl (Nat.lt_of_lt_of_le hid hn)
  obtain ⟨hleads, hpost, hbetween⟩ := hx inner henter.isRooted hn
  have hleave : (stateAfter x inner).LeadsTo (stateAfter (Run.within id x) m) := by
    rw [stateAfter_within]
    exact .of_store_eq hleads.isRooted rfl
      (Nat.lt_of_lt_of_le hm.scope_lt hleads.keepsLinks.size_le)
  refine ⟨henter.trans (hleads.trans hleave), fun a m' hrun => ?_, fun hne => ?_⟩
  · simp only [Run.within] at hrun
    cases hinner : x inner with
    | ok b m₁ =>
      rw [hinner] at hrun
      cases hrun
      exact hpost _ m₁ hinner
    | error halt m₁ =>
      rw [hinner] at hrun
      cases hrun
  · have hne' : y inner ≠ x inner := by
      intro hsame
      simp only [Run.within] at hne
      exact hne (by rw [hsame])
    obtain ⟨hfirst, hsecond⟩ := hbetween hne'
    exact ⟨henter.trans hfirst, hsecond.trans hleave⟩

end Run

/-! ### Evaluation -/

open Run

/-- The parts of a node keep the tree of scopes; `sub'` is `sub` under a watch. -/
structure Evaluator.KeepsTree (visited : Machine) (sub sub' : Evaluator) : Prop where
  evaluate : ∀ n node,
    Run.KeepsTree visited n (sub.evaluate node) (sub'.evaluate node) Value.IsAmong
  execute : ∀ n node,
    Run.KeepsTree visited n (sub.execute node) (sub'.execute node) Returning.IsAmong

namespace Evaluator

variable {visited : Machine} {n : Nat} {sub sub' : Evaluator}

theorem keepsTree_evaluateAll (hsub : KeepsTree visited sub sub') (nodes : List Node) :
    Run.KeepsTree visited n (nodes.mapM sub.evaluate) (nodes.mapM sub'.evaluate)
      fun n' values => ∀ v ∈ values, v.IsAmong n' := by
  induction nodes generalizing n with
  | nil => exact keepsTree_pure fun _ _ _ hv => nomatch hv
  | cons node nodes ih =>
    rw [List.mapM_cons, List.mapM_cons]
    refine (hsub.evaluate n node).bind fun n₁ v _ hv => ih.bind fun n₂ vs hle hvs => ?_
    refine keepsTree_pure fun n₃ hle' => List.forall_mem_cons.mpr ⟨?_, fun w hw => ?_⟩
    · exact hv.mono (Nat.le_trans hle hle')
    · exact (hvs w hw).mono hle'

theorem keepsTree_executeAll (hsub : KeepsTree visited sub sub') (statements : List Node) :
    Run.KeepsTree visited n (sub.executeAll statements) (sub'.executeAll statements)
      Returning.IsAmong := by
  induction statements generalizing n with
  | nil => exact keepsTree_none
  | cons statement statements ih =>
    refine (hsub.execute n statement).bind fun n' returning _ hreturning => ?_
    cases returning with
    | none => exact ih
    | some returning => exact keepsTree_returns hreturning

theorem keepsTree_defineAll {bindings : List (String × Value)}
    (hbindings : ∀ entry ∈ bindings, entry.2.IsAmong n) :
    Run.KeepsTree visited n (bindings.forM fun entry => define entry.1 entry.2)
      (bindings.forM fun entry => define entry.1 entry.2) fun _ _ => True := by
  induction bindings generalizing n with
  | nil => exact keepsTree_pure fun _ _ => trivial
  | cons entry bindings ih =>
    rw [List.forall_mem_cons] at hbindings
    refine (keepsTree_define entry.1 hbindings.1).bind fun n' _ hle _ => ih fun other hother => ?_
    exact (hbindings.2 other hother).mono hle

theorem keepsTree_executeInside (hsub : KeepsTree visited sub sub') {parent : ScopeId}
    (hparent : parent < n) {bindings : List (String × Value)}
    (hbindings : ∀ entry ∈ bindings, entry.2.IsAmong n) (statements : List Node) :
    Run.KeepsTree visited n (sub.executeInside parent bindings statements)
      (sub'.executeInside parent bindings statements) Returning.IsAmong := by
  refine (keepsTree_makeScope hparent).bind fun n' scope hle hscope => .within hscope ?_
  have hentries : ∀ entry ∈ bindings, entry.2.IsAmong n' :=
    fun entry hentry => (hbindings entry hentry).mono hle
  exact (keepsTree_defineAll hentries).bind fun _ _ _ _ => keepsTree_executeAll hsub statements

theorem keepsTree_repeatWhile {condition condition' : Run Bool}
    {body body' : Run (Option Returning)}
    (hcondition : ∀ n, Run.KeepsTree visited n condition condition' fun _ _ => True)
    (hbody : ∀ n, Run.KeepsTree visited n body body' Returning.IsAmong) (fuel : Nat) :
    Run.KeepsTree visited n (repeatWhile condition body fuel) (repeatWhile condition' body' fuel)
      Returning.IsAmong := by
  induction fuel generalizing n with
  | zero => exact keepsTree_throw _
  | succ fuel ih =>
    refine (hcondition n).bind fun n₁ holds _ _ => ?_
    cases holds with
    | false => exact keepsTree_none
    | true =>
      refine (hbody n₁).bind fun n₂ returning _ hreturning => ?_
      cases returning with
      | none => exact ih
      | some returning => exact keepsTree_returns hreturning

/-- A function runs in a new scope inside the one that it was declared in. -/
theorem keepsTree_call (hsub : KeepsTree visited sub sub') {callee : Value}
    (hcallee : callee.IsAmong n) (paren : Token) {args : List Value}
    (hargs : ∀ arg ∈ args, arg.IsAmong n) :
    Run.KeepsTree visited n (sub.call callee paren args) (sub'.call callee paren args)
      Value.IsAmong := by
  cases callee with
  | function f =>
    have hbindings : ∀ entry ∈ (f.params.map Token.text).zip args, entry.2.IsAmong n :=
      fun entry hentry => hargs _ (List.of_mem_zip hentry).2
    simp only [call]
    split
    · exact keepsTree_fail_bind _ paren _ _
    · refine (keepsTree_executeInside hsub hcallee hbindings f.body).bind
        fun n' returning _ hreturning => keepsTree_value ?_
      cases returning with
      | none => trivial
      | some returning => exact hreturning returning rfl
  | constant c =>
    cases c with
    | print id =>
      simp only [call, calling_print]
      split
      · exact keepsTree_throw _
      · exact (keepsTree_printLine _).bind fun _ _ _ _ =>
          keepsTree_value (v := .null) trivial
    | _ => exact keepsTree_throw _

theorem keepsTree_step (name operator : Token) :
    Run.KeepsTree visited n (step name operator) (step name operator)
      fun n' values => values.1.IsAmong n' ∧ values.2.IsAmong n' := by
  refine (keepsTree_lookUp name).bind fun n₁ old _ hold => ?_
  refine (keepsTree_ofExcept fun _ => Value.constant_of_stepped).bind fun n₂ new hle₂ hnew => ?_
  refine (keepsTree_assign name hnew).bind fun n₃ _ hle₃ _ => keepsTree_pure fun n₄ hle₄ => ?_
  have hle : n₂ ≤ n₄ := Nat.le_trans hle₃ hle₄
  exact ⟨hold.mono (Nat.le_trans hle₂ hle), hnew.mono hle⟩

theorem keepsTree_expression (hsub : KeepsTree visited sub sub') (node : Node) :
    Run.KeepsTree visited n (sub.expression node) (sub'.expression node) Value.IsAmong := by
  cases node with
  | literal value => exact keepsTree_value trivial
  | reference name => exact keepsTree_lookUp name
  | assignment name value =>
    refine (hsub.evaluate n value).bind fun n' v _ hv => ?_
    exact (keepsTree_assign name hv).bind fun _ _ hle _ => keepsTree_value (hv.mono hle)
  | binary left operator right =>
    refine (hsub.evaluate n left).bind fun n' v _ _ => (hsub.evaluate n' right).bind ?_
    exact fun _ _ _ _ => keepsTree_ofExcept fun _ => Value.constant_of_binary
  | logical left operator right =>
    refine (hsub.evaluate n left).bind fun n' v _ hv => ?_
    split
    · exact keepsTree_value hv
    · exact hsub.evaluate n' right
  | unary operator right =>
    refine (hsub.evaluate n right).bind fun _ _ _ _ => ?_
    exact keepsTree_ofExcept fun _ => Value.constant_of_unary
  | ternary condition thenBranch elseBranch =>
    refine (hsub.evaluate n condition).bind fun n' v _ _ => ?_
    split
    · exact hsub.evaluate n' thenBranch
    · exact hsub.evaluate n' elseBranch
  | grouping inner => exact hsub.evaluate n inner
  | call callee paren args =>
    refine (hsub.evaluate n callee).bind fun n₁ v _ hv => ?_
    refine (keepsTree_evaluateAll hsub args).bind fun n₂ values hle hvalues => ?_
    exact keepsTree_call hsub (hv.mono hle) paren hvalues
  | stepAfter name operator =>
    exact (keepsTree_step name operator).bind fun _ _ _ h => keepsTree_value h.1
  | stepBefore name operator =>
    exact (keepsTree_step name operator).bind fun _ _ _ h => keepsTree_value h.2
  | _ => exact keepsTree_throw _

theorem keepsTree_statement (hsub : KeepsTree visited sub sub') (fuel : Nat) (node : Node) :
    Run.KeepsTree visited n (sub.statement fuel node) (sub'.statement fuel node)
      Returning.IsAmong := by
  cases node with
  | discard expression => exact (hsub.evaluate n expression).bind fun _ _ _ _ => keepsTree_none
  | declaration name initial =>
    have hdefine {n : Nat} {v : Value} (hv : v.IsAmong n) :
        Run.KeepsTree visited n (define name.text v >>= fun _ => pure none)
          (define name.text v >>= fun _ => pure none) Returning.IsAmong :=
      (keepsTree_define name.text hv).bind fun _ _ _ _ => keepsTree_none
    cases initial with
    | none => exact hdefine (v := .null) trivial
    | some initial => exact (hsub.evaluate n initial).bind fun _ _ _ hv => hdefine hv
  | block statements =>
    refine keepsTree_get.bind fun n' m _ hscope => ?_
    exact keepsTree_executeInside hsub hscope (List.forall_mem_nil _) statements
  | branch condition thenBranch elseBranch =>
    refine (hsub.evaluate n condition).bind fun n' v _ _ => ?_
    split
    · exact hsub.execute n' thenBranch
    · cases elseBranch with
      | none => exact keepsTree_none
      | some elseBranch => exact hsub.execute n' elseBranch
  | loop condition body =>
    refine keepsTree_repeatWhile (fun n => ?_) (fun n => hsub.execute n body) fuel
    exact (hsub.evaluate n condition).map fun _ _ _ _ _ => trivial
  | function name params body =>
    refine (keepsTree_makeFunction name params body).bind fun _ v _ hv => ?_
    exact (keepsTree_define name.text hv).bind fun _ _ _ _ => keepsTree_none
  | result keyword value =>
    have hreturn {n : Nat} {v : Value} (hv : v.IsAmong n) :
        Run.KeepsTree visited n (pure (some ⟨keyword, v⟩)) (pure (some ⟨keyword, v⟩))
          Returning.IsAmong := by
      refine keepsTree_returns fun r hr => ?_
      cases hr
      exact hv
    cases value with
    | none => exact hreturn (v := .null) trivial
    | some value => exact (hsub.evaluate n value).bind fun _ _ _ hv => hreturn hv
  | _ => exact keepsTree_throw _

/-- Evaluation keeps the tree of scopes, at every depth. -/
theorem keepsTree_bounded {watch : Machine → Bool} (hwatch : ∀ m, watch m = true → m = visited)
    (alarm : Halt) (fuel depth : Nat) :
    KeepsTree visited (bounded fuel depth) (watched watch alarm fuel depth) := by
  induction depth with
  | zero =>
    exact ⟨fun _ _ => (keepsTree_throw _).watched hwatch alarm,
      fun _ _ => (keepsTree_throw _).watched hwatch alarm⟩
  | succ depth ih =>
    exact ⟨fun _ node => (keepsTree_expression ih node).watched hwatch alarm,
      fun _ node => (keepsTree_statement ih fuel node).watched hwatch alarm⟩

/-- Statements lead from a rooted machine to a rooted one, and what they visit lies in between. -/
theorem leadsTo_executeAll {m : Machine} (hm : m.IsRooted) (fuel depth : Nat)
    (statements : List Node) :
    m.LeadsTo (stateAfter ((bounded fuel depth).executeAll statements) m) ∧
      ∀ visited, Visits fuel depth (·.executeAll statements) m visited →
        m.LeadsTo visited ∧
          visited.LeadsTo (stateAfter ((bounded fuel depth).executeAll statements) m) := by
  have hrun {visited : Machine} {watch : Machine → Bool}
      (hwatch : ∀ n, watch n = true → n = visited) (alarm : Halt) :=
    keepsTree_executeAll (keepsTree_bounded hwatch alarm fuel depth) statements m hm
      (Nat.zero_le _)
  refine ⟨?_, fun visited hvisits => ?_⟩
  · -- a watch for nothing is as good as any other
    have hnothing : ∀ n : Machine, (fun _ : Machine => false) n = true → n = m := nofun
    exact (hrun hnothing .unfinished).leadsTo
  · obtain ⟨watch, alarm, hwatch, hne⟩ := hvisits.exists_ne
    exact (hrun hwatch alarm).between hne

end Evaluator

end Script
