import Script.Proofs.Evaluation.Growing

/-!
# Machines that a run goes through

A run begins and ends work on many nodes, and each time the machine is in some state. To say which
machines these are, the run is put under a watch: where work on a node begins or ends on a machine
that is watched for, the run halts with an alarm. A run visits a machine if a watch for nothing but
this machine raises every alarm. A run that does not come to the machine goes on as it does without
the watch, and then there is at most one way in which it halts.

## Main definitions

* `Evaluator.watched` : the evaluator under a watch.
* `Evaluator.Visits` : the machines that a run goes through.

## Main results

* `Evaluator.Visits.exists_ne` : a watch for a machine that is visited makes a difference.
* `Evaluator.visits_execute_begin` : work on a statement visits the machine that it is begun on.
* `Evaluator.Visits.executeInside` : what statements visit in a new scope is visited from outside.
-/

namespace Script

/-- The action under a watch: where it begins or ends on a machine that is watched for, it halts
with the alarm. -/
def Run.watched {α : Type} (watch : Machine → Bool) (alarm : Halt) (x : Run α) : Run α := fun m =>
  if watch m then .error alarm m
  else
    match x m with
    | .ok a m => if watch m then .error alarm m else .ok a m
    | .error halt m => if watch m then .error alarm m else .error halt m

namespace Run

variable {α : Type} {watch : Machine → Bool} {alarm : Halt} {x : Run α} {m : Machine}

/-- A watch that sees neither the beginning nor the end makes no difference. -/
theorem watched_eq (hbegin : watch m = false) (hend : watch (stateAfter x m) = false) :
    x.watched watch alarm m = x m := by
  rw [stateAfter] at hend
  rw [watched, hbegin]
  cases hrun : x m with
  | ok a m' =>
    rw [hrun] at hend
    simp [hend]
  | error halt m' =>
    rw [hrun] at hend
    simp [hend]

theorem watched_of_ok {a : α} {m' : Machine} (hrun : x m = .ok a m') (hbegin : watch m = false)
    (hend : watch m' = false) : x.watched watch alarm m = .ok a m' := by
  simp [watched, hbegin, hrun, hend]

/-- An action that raises the alarm does so under a watch as well. -/
theorem watched_raises (h : ∃ m', x m = .error alarm m') :
    ∃ m', x.watched watch alarm m = .error alarm m' := by
  obtain ⟨m', hrun⟩ := h
  cases hbegin : watch m with
  | true => exact ⟨m, by simp [watched, hbegin]⟩
  | false => exact ⟨m', by simp [watched, hbegin, hrun]⟩

end Run

namespace Evaluator

/-- The evaluator that is under a watch wherever it begins or ends work on a node. -/
def watched (watch : Machine → Bool) (alarm : Halt) (fuel : Nat) : Nat → Evaluator
  | 0 => ⟨fun _ => Run.watched watch alarm (Run.giveUp .tooDeep),
      fun _ => Run.watched watch alarm (Run.giveUp .tooDeep)⟩
  | depth + 1 =>
    ⟨fun node => Run.watched watch alarm ((watched watch alarm fuel depth).expression node),
      fun node => Run.watched watch alarm ((watched watch alarm fuel depth).statement fuel node)⟩

/-- Some work that is begun on the machine `m` goes through the machine `visited`: a watch for
nothing else raises every alarm. -/
def Visits {α : Type} (fuel depth : Nat) (work : Evaluator → Run α) (m visited : Machine) : Prop :=
  ∃ watch : Machine → Bool, (∀ n, watch n = true → n = visited) ∧
    ∀ alarm, ∃ m', work (watched watch alarm fuel depth) m = .error alarm m'

variable {α β : Type} {fuel depth : Nat} {m visited : Machine}

/-- Without the watch the run halts in at most one way, so the watch makes a difference. -/
theorem Visits.exists_ne {work : Evaluator → Run α} (h : Visits fuel depth work m visited) :
    ∃ watch alarm, (∀ n, watch n = true → n = visited) ∧
      work (watched watch alarm fuel depth) m ≠ work (bounded fuel depth) m := by
  obtain ⟨watch, hwatch, hraises⟩ := h
  obtain ⟨m₁, h₁⟩ := hraises .unfinished
  obtain ⟨m₂, h₂⟩ := hraises (.breakdown .tooDeep)
  by_cases hsame : work (watched watch .unfinished fuel depth) m = work (bounded fuel depth) m
  · refine ⟨watch, .breakdown .tooDeep, hwatch, ?_⟩
    rw [← hsame, h₁, h₂]
    exact nofun
  · exact ⟨watch, .unfinished, hwatch, hsame⟩

/-- Work on a statement visits the machine that it is begun on. -/
theorem visits_execute_begin (fuel depth : Nat) (node : Node) (m : Machine) :
    Visits fuel depth (·.execute node) m m := by
  classical
  refine ⟨fun n => decide (n = m), fun n => of_decide_eq_true, fun alarm => ⟨m, ?_⟩⟩
  cases depth <;> simp [watched, Run.watched]

/-- Work on a statement visits what work on its parts visits. -/
theorem Visits.execute {node : Node} (h : Visits fuel depth (·.statement fuel node) m visited) :
    Visits fuel (depth + 1) (·.execute node) m visited := by
  obtain ⟨watch, hwatch, hraises⟩ := h
  exact ⟨watch, hwatch, fun alarm => Run.watched_raises (hraises alarm)⟩

/-- Work on an expression visits what work on its parts visits. -/
theorem Visits.evaluate {node : Node} (h : Visits fuel depth (·.expression node) m visited) :
    Visits fuel (depth + 1) (·.evaluate node) m visited := by
  obtain ⟨watch, hwatch, hraises⟩ := h
  exact ⟨watch, hwatch, fun alarm => Run.watched_raises (hraises alarm)⟩

/-- What the first part of some work visits is visited by the whole. -/
theorem Visits.bind {work : Evaluator → Run α} (h : Visits fuel depth work m visited)
    (next : Evaluator → α → Run β) :
    Visits fuel depth (fun sub => work sub >>= next sub) m visited := by
  obtain ⟨watch, hwatch, hraises⟩ := h
  refine ⟨watch, hwatch, fun alarm => ?_⟩
  obtain ⟨m', hrun⟩ := hraises alarm
  exact ⟨m', by simp only [Bind.bind, EStateM.bind, hrun]⟩

/-- What the second part visits is visited by the whole if no watch for it stops the first part. -/
theorem Visits.bind_of_ok {work : Evaluator → Run α} {next : Evaluator → α → Run β} {a : α}
    {m' : Machine}
    (hwork : ∀ watch alarm, (∀ n, watch n = true → n = visited) →
      work (watched watch alarm fuel depth) m = .ok a m')
    (h : Visits fuel depth (fun sub => next sub a) m' visited) :
    Visits fuel depth (fun sub => work sub >>= next sub) m visited := by
  obtain ⟨watch, hwatch, hraises⟩ := h
  refine ⟨watch, hwatch, fun alarm => ?_⟩
  obtain ⟨m'', hrun⟩ := hraises alarm
  exact ⟨m'', by simp only [Bind.bind, EStateM.bind, hwork watch alarm hwatch, hrun]⟩

/-- What is visited from another scope. -/
theorem Visits.within {work : Evaluator → Run α} {id : ScopeId}
    (h : Visits fuel depth work { m with scope := id } visited) :
    Visits fuel depth (fun sub => Run.within id (work sub)) m visited := by
  obtain ⟨watch, hwatch, hraises⟩ := h
  refine ⟨watch, hwatch, fun alarm => ?_⟩
  obtain ⟨m', hrun⟩ := hraises alarm
  exact ⟨{ m' with scope := m.scope }, by simp only [Run.within, hrun]⟩

theorem Visits.executeAll_cons {statement : Node}
    (h : Visits fuel depth (·.execute statement) m visited) (statements : List Node) :
    Visits fuel depth (·.executeAll (statement :: statements)) m visited :=
  h.bind _

/-- What statements visit in a new scope, once names are bound there. -/
theorem Visits.executeInside {parent : ScopeId} {bindings : List (String × Value)}
    {statements : List Node} {inner : Machine}
    (hinner : (bindings.forM fun entry => Run.define entry.1 entry.2)
      { m with store := m.store.push (some parent), scope := m.store.size } = .ok () inner)
    (h : Visits fuel depth (·.executeAll statements) inner visited) :
    Visits fuel depth (·.executeInside parent bindings statements) m visited :=
  .bind_of_ok (fun _ _ _ => rfl) (.within (.bind_of_ok (fun _ _ _ => hinner) h))

end Evaluator

end Script
