import Script.Proofs.Evaluation.Rooting

/-!
# The scopes of an interpreter

An interpreter goes through many machines: the one it is made with, those that its programs go
through, and those that they leave behind, whatever became of them. All of these machines have the
same tree of scopes, as far as it was made by then. Its root is the global scope, the machine is in
one of its scopes, and every function that is bound anywhere was declared in one of them. So every
walk outwards comes to an end.

## Main definitions

* `Interpreter.Passes` : the machines that an interpreter goes through.

## Main results

* `scopes_form_tree` : the scopes of an interpreter form a tree whose links never change.
-/

namespace Script

namespace Interpreter

/-- The machines that an interpreter goes through when it is given a sequence of programs, each with
the repetitions that its loops are given. Interpreting a program is running its statements. -/
inductive Passes : List (Nat × List Node) → Interpreter → Machine → Prop
  /-- The machine before the first program, or after the last one. -/
  | here (programs : List (Nat × List Node)) (i : Interpreter) : Passes programs i i.machine
  /-- A machine that the first program goes through. -/
  | during {fuel : Nat} {program : List Node} {i : Interpreter} {m : Machine}
      (h : Evaluator.Visits fuel nestingLimit (·.executeAll program) i.machine m)
      (programs : List (Nat × List Node)) : Passes ((fuel, program) :: programs) i m
  /-- A machine that comes after the first program. -/
  | later {fuel : Nat} {program : List Node} {programs : List (Nat × List Node)} {i : Interpreter}
      {m : Machine} (h : Passes programs (stateAfter (interpret fuel program) i) m) :
      Passes ((fuel, program) :: programs) i m

variable {i : Interpreter} {m : Machine} {programs : List (Nat × List Node)}

theorem leadsTo_interpret (hi : i.machine.IsRooted) (fuel : Nat) (program : List Node) :
    i.machine.LeadsTo (stateAfter (interpret fuel program) i).machine := by
  rw [machine_stateAfter_interpret]
  exact (Evaluator.leadsTo_executeAll hi fuel nestingLimit program).1

theorem leadsTo_interpretAll (hi : i.machine.IsRooted) (programs : List (Nat × List Node)) :
    i.machine.LeadsTo (interpretAll programs i).machine := by
  induction programs generalizing i with
  | nil => exact .refl hi
  | cons program programs ih =>
    have hfirst := leadsTo_interpret hi program.1 program.2
    exact hfirst.trans (ih hfirst.isRooted)

/-- Every machine that an interpreter goes through is rooted, and has links that are there in the
end. -/
theorem Passes.leadsTo (h : Passes programs i m) (hi : i.machine.IsRooted) :
    i.machine.LeadsTo m ∧ m.LeadsTo (interpretAll programs i).machine := by
  induction h with
  | here programs i => exact ⟨.refl hi, leadsTo_interpretAll hi programs⟩
  | @during fuel program i m hvisits programs =>
    obtain ⟨hbefore, hafter⟩ :=
      (Evaluator.leadsTo_executeAll hi fuel nestingLimit program).2 m hvisits
    rw [← machine_stateAfter_interpret] at hafter
    exact ⟨hbefore, hafter.trans (leadsTo_interpretAll hafter.isRooted programs)⟩
  | @later fuel program programs i m _ ih =>
    have hfirst := leadsTo_interpret hi fuel program
    exact (ih hfirst.isRooted).imp_left hfirst.trans

end Interpreter

/-- Take any machine that an interpreter goes through, from the time when it is made, whatever
programs it interprets and however that ends.

The scopes of the machine form a tree with the global scope as its root. The current scope is one of
its scopes, and so is the scope of every function that is bound anywhere. From every scope, reading
a name, changing it and asking whether it is bound go along the way outwards and end with it. Any
two of these machines agree on the scope around a scope that both of them have. -/
theorem scopes_form_tree (reporter : Reporter) (programs : List (Nat × List Node)) :
    (∀ m : Machine, Interpreter.Passes programs (.new reporter) m →
      m.store.IsTree Machine.globalScope ∧ m.scope < m.store.size ∧
      (∀ id name f, (name, Value.function f) ∈ m.store.bindings id → f.scope < m.store.size) ∧
      ∀ id way name, m.store.Way id way → m.store.WalksAlong id name way) ∧
    ∀ m m' : Machine, Interpreter.Passes programs (.new reporter) m →
      Interpreter.Passes programs (.new reporter) m' →
      ∀ id < m.store.size, id < m'.store.size → m'.store.parent? id = m.store.parent? id := by
  have hstart : (Interpreter.new reporter).machine.IsRooted := Machine.isRooted_start _
  refine ⟨fun m hm => ?_, fun m m' hm hm' id hid hid' => ?_⟩
  · have hrooted : m.IsRooted := (hm.leadsTo hstart).1.isRooted
    have hforest : m.store.IsForest := hrooted.isForest
    exact ⟨hforest.isTree hrooted.root, hrooted.scope_lt, fun _ _ _ hf => hrooted.isFrom _ hf,
      fun _ _ name hway => hforest.walksAlong hway name⟩
  · have hend := (hm.leadsTo hstart).2.keepsLinks.parent?_eq id hid
    have hend' := (hm'.leadsTo hstart).2.keepsLinks.parent?_eq id hid'
    exact hend'.symm.trans hend

/-- The function of the program `{ fun f() { f; } f(); }`, which is declared in the block. -/
def Closure.ofBlock : Closure :=
  let f : Token := ⟨.identifier, "f", .null, 1, 7, 1⟩
  ⟨0, f, [], [.discard (.reference f)], 1⟩

/-- The statements of this program. -/
def callingInBlock : List Node :=
  let f := Closure.ofBlock
  [.block [.function f.name f.params f.body,
    .discard (.call (.reference f.name) ⟨.rightParen, ")", .null, 1, 21, 1⟩ [])]]

/-- The machine of a fresh interpreter when the function is declared. -/
def Machine.declaredInBlock : Machine where
  store := ⟨#[⟨[("print", .print 0)], none⟩, ⟨[("f", .function .ofBlock)], some 0⟩]⟩
  scope := 1
  functions := 1
  output := ""

/-- The machine in the body of the function when it is called. -/
def Machine.calledInBlock : Machine :=
  { declaredInBlock with store := declaredInBlock.store.push (some 1), scope := 2 }

/-- The program comes to this machine: before the call, work begins and ends in other scopes. -/
theorem Interpreter.passes_calledInBlock (reporter : Reporter) :
    Passes [(0, callingInBlock)] (.new reporter) .calledInBlock := by
  have hother {watch : Machine → Bool} (hwatch : ∀ n, watch n = true → n = .calledInBlock)
      {n : Machine} (hscope : n.scope ≠ 2) : watch n = false := by
    refine Bool.eq_false_iff.mpr fun h => hscope ?_
    rw [hwatch n h]
    rfl
  let f : Closure := .ofBlock
  let start : Machine := .start 0
  let inside : Machine := { start with store := start.store.push (some 0), scope := 1 }
  have hstatement (sub : Evaluator) :
      sub.statement 0 (.function f.name f.params f.body) inside = .ok none .declaredInBlock := rfl
  have hdeclare (watch : Machine → Bool) (alarm : Halt)
      (hwatch : ∀ n, watch n = true → n = .calledInBlock) :
      (Evaluator.watched watch alarm 0 999).execute (.function f.name f.params f.body) inside =
        .ok none .declaredInBlock :=
    Run.watched_of_ok (hstatement (Evaluator.watched watch alarm 0 998))
      (hother hwatch (by decide)) (hother hwatch (by decide))
  have hlookUp : Run.lookUp f.name .declaredInBlock = .ok (.function f) .declaredInBlock :=
    Run.lookUp_of_get? (Store.get?_of_resolve? (Store.resolve?_of_binds rfl))
  have hcallee (watch : Machine → Bool) (alarm : Halt)
      (hwatch : ∀ n, watch n = true → n = .calledInBlock) :
      (Evaluator.watched watch alarm 0 997).evaluate (.reference f.name) .declaredInBlock =
        .ok (.function f) .declaredInBlock :=
    Run.watched_of_ok hlookUp (hother hwatch (by decide)) (hother hwatch (by decide))
  refine .during (.executeAll_cons (.execute ?_) []) []
  refine .bind_of_ok (fun _ _ _ => rfl) (.executeInside rfl (.bind_of_ok hdeclare ?_))
  refine .executeAll_cons (.execute (.bind (.evaluate ?_) _)) []
  refine .bind_of_ok hcallee (.bind_of_ok (fun _ _ _ => rfl) (.bind (.executeInside rfl ?_) _))
  exact .executeAll_cons (Evaluator.visits_execute_begin ..) []

/-- In the body of a function that is declared in a block, the way outwards leads from the scope of
the call through that of the block to the global scope, where `print` is found. -/
theorem scopes_form_tree_calledInBlock :
    let reporter : Reporter := .new .plain false
    let m : Machine := .calledInBlock
    Interpreter.Passes [(0, callingInBlock)] (.new reporter) m ∧
      m.store.IsTree Machine.globalScope ∧ m.scope < m.store.size ∧
      Closure.ofBlock.scope < m.store.size ∧ m.store.Way m.scope [2, 1, 0] ∧
      m.store.WalksAlong m.scope "print" [2, 1, 0] ∧
      m.store.parent? 0 = (Interpreter.new reporter).machine.store.parent? 0 := by
  intro reporter m
  have hstart : Interpreter.Passes [(0, callingInBlock)] (.new reporter)
      (Interpreter.new reporter).machine := .here _ _
  have hpasses : Interpreter.Passes [(0, callingInBlock)] (.new reporter) m :=
    Interpreter.passes_calledInBlock reporter
  have hway : m.store.Way m.scope [2, 1, 0] := .outwards rfl (.outwards rfl (.last rfl))
  obtain ⟨hmachines, hlinks⟩ := scopes_form_tree reporter [(0, callingInBlock)]
  obtain ⟨htree, hscope, hfunctions, hwalks⟩ := hmachines m hpasses
  exact ⟨hpasses, htree, hscope, hfunctions 1 "f" .ofBlock List.mem_cons_self, hway,
    hwalks _ _ "print" hway, hlinks _ m hstart hpasses 0 (by decide) (by decide)⟩

end Script
