import Script.Proofs.Session.Layout

/-!
# Running does not look at what was printed

A machine writes to its output and never reads it. So two machines that differ in what they have
printed, and run programs that differ in the places of their tokens, end in the same way, print the
same text from now on, and have the same global names with values that a user cannot tell apart.

## Main definitions

* `Machine.LooksLike` : machines that a user cannot tell apart by what they have printed since.
* `RunsAlike` : runs that a user cannot tell apart.

## Main results

* `Evaluator.executeAll_runsAlike` : running programs on machines with different outputs.
-/

namespace Script

/-- Two machines that have printed the same text since their outputs were `before₁` and `before₂`,
and whose global names have values that a user cannot tell apart. -/
def Machine.LooksLike (before₁ before₂ : String) (m₁ m₂ : Machine) : Prop :=
  ∃ text, m₁.output = before₁ ++ text ∧ m₂.output = before₂ ++ text ∧
    m₁.globals.mapValues Value.outline = m₂.globals.mapValues Value.outline

/-- Two runs that have ended in the same way, but for the places of tokens, on machines that a user
cannot tell apart. -/
def RunsAlike (r : Relocation) (before₁ before₂ : String) :
    EStateM.Result Halt Machine (Option Returning) →
      EStateM.Result Halt Machine (Option Returning) → Prop :=
  EndAlike (Machine.LooksLike before₁ before₂) (fun h₁ h₂ => h₁.relocate r = h₂.relocate r)
    (fun a₁ a₂ => a₁.map (Returning.relocate r) = a₂.map (Returning.relocate r))

/-- The machine with another output. -/
def Machine.withOutput (m : Machine) (output : String) : Machine :=
  { m with output }

/-- A machine that has printed a text before runs trees as a machine that has not runs the moved
trees. -/
def Simulation.reprinting (r : Relocation) (before : String) : Simulation where
  relocation := r
  Visible _ := True
  Related m n := ∃ text, m.output = before ++ text ∧ n = (m.relocate r).withOutput text
  scope_eq := by
    rintro m _ ⟨text, -, rfl⟩
    rfl
  visible_scope _ := trivial
  enter := by
    rintro m _ id ⟨text, houtput, rfl⟩ -
    exact ⟨text, houtput, rfl⟩
  print := by
    rintro m _ line ⟨text, houtput, rfl⟩
    refine ⟨text ++ line, ?_, ?_⟩
    · rw [houtput, String.append_assoc]
    · simp only [Machine.withOutput, Machine.relocate]
  makeFunction := by
    rintro m _ ⟨text, houtput, rfl⟩
    exact ⟨rfl, text, houtput, rfl⟩
  makeScope := by
    rintro m _ parent ⟨text, houtput, rfl⟩ -
    refine ⟨m.store.size_map _, trivial, text, houtput, ?_⟩
    simp only [Machine.withOutput, Machine.relocate, Store.map_push]
  define := by
    rintro m _ name value ⟨text, houtput, rfl⟩ -
    refine ⟨text, houtput, ?_⟩
    simp only [Machine.withOutput, Machine.relocate, Store.map_define]
  assign := by
    rintro m _ name value ⟨text, houtput, rfl⟩ -
    simp only [Machine.withOutput, Machine.relocate, Store.assign_map, true_and]
    exact ⟨text, houtput, rfl⟩
  get? := by
    rintro m _ name ⟨text, houtput, rfl⟩
    refine ⟨Store.get?_map .., fun value _ => ?_⟩
    cases value <;> trivial

namespace Evaluator

/-- Programs that differ in the places of their tokens only, run on machines that differ in what was
printed, end in the same way. -/
theorem executeAll_runsAlike {r : Relocation} {statements₁ statements₂ : List Node}
    (h : statements₁.map (Node.relocate r) = statements₂.map (Node.relocate r)) (fuel depth : Nat)
    (m : Machine) (before₁ before₂ : String) :
    RunsAlike r before₁ before₂ ((bounded fuel depth).executeAll statements₁ (m.withOutput before₁))
      ((bounded fuel depth).executeAll statements₂ (m.withOutput before₂)) := by
  have hrelated (before : String) : (Simulation.reprinting r before).Related (m.withOutput before)
      ((m.relocate r).withOutput "") :=
    ⟨"", String.append_empty.symm, rfl⟩
  have hend (before : String) (statements : List Node) := Simulation.agree_executeAll
    ((Simulation.reprinting r before).agrees_bounded fuel depth) statements _ _ (hrelated before)
  have hend₁ := hend before₁ statements₁
  have hend₂ := hend before₂ statements₂
  change EndAlike _ _ _ _ ((bounded fuel depth).executeAll (statements₁.map (Node.relocate r)) _)
    at hend₁
  change EndAlike _ _ _ _ ((bounded fuel depth).executeAll (statements₂.map (Node.relocate r)) _)
    at hend₂
  rw [h] at hend₁
  have hlooks {m₁ m₂ n : Machine}
      (h₁ : ∃ text, m₁.output = before₁ ++ text ∧ n = (m₁.relocate r).withOutput text)
      (h₂ : ∃ text, m₂.output = before₂ ++ text ∧ n = (m₂.relocate r).withOutput text) :
      Machine.LooksLike before₁ before₂ m₁ m₂ := by
    obtain ⟨text, houtput₁, rfl⟩ := h₁
    obtain ⟨text₂, houtput₂, hsame⟩ := h₂
    obtain rfl : text = text₂ := congrArg Machine.output hsame
    have hglobals := congrArg (fun n => n.globals.mapValues Value.outline) hsame
    refine ⟨text, houtput₁, houtput₂, ?_⟩
    rw [← m₁.outline_globals_relocate r, ← m₂.outline_globals_relocate r]
    exact hglobals
  generalize (bounded fuel depth).executeAll (statements₂.map (Node.relocate r))
    ((m.relocate r).withOutput "") = result at hend₁ hend₂
  generalize (bounded fuel depth).executeAll statements₁ (m.withOutput before₁) = end₁ at hend₁ ⊢
  generalize (bounded fuel depth).executeAll statements₂ (m.withOutput before₂) = end₂ at hend₂ ⊢
  cases hend₁ with
  | ok hstates₁ hresults₁ =>
    cases hend₂ with
    | ok hstates₂ hresults₂ =>
      exact .ok (hlooks hstates₁ hstates₂) (hresults₁.1.symm.trans hresults₂.1)
  | error hstates₁ hhalts₁ =>
    cases hend₂ with
    | error hstates₂ hhalts₂ =>
      exact .error (hlooks hstates₁ hstates₂) (hhalts₁.symm.trans hhalts₂)

/-- A program leaves the same machine whatever was printed before, but for what is printed then. -/
theorem stateAfter_executeAll_withOutput (fuel depth : Nat) (statements : List Node) (m : Machine)
    (output : String) :
    ∃ output', stateAfter ((bounded fuel depth).executeAll statements) (m.withOutput output) =
      (stateAfter ((bounded fuel depth).executeAll statements) m).withOutput output' := by
  have hstay : statements.map (Node.relocate .stay) = statements := by
    rw [← Node.relocateAll_eq_map, Node.relocateAll_stay]
  have hagree (before : String) := Simulation.agree_executeAll
    ((Simulation.reprinting .stay before).agrees_bounded fuel depth) statements
    (m.withOutput before) (m.withOutput "")
    ⟨"", String.append_empty.symm, by rw [Machine.relocate_stay]; rfl⟩
  have hsilent (before : String) : ∃ text,
      stateAfter ((bounded fuel depth).executeAll statements) (m.withOutput "") =
        (stateAfter ((bounded fuel depth).executeAll statements)
          (m.withOutput before)).withOutput text := by
    have hend := hagree before
    change EndAlike _ _ _ _
      ((bounded fuel depth).executeAll (statements.map (Node.relocate .stay)) _) at hend
    rw [hstay] at hend
    obtain ⟨text, -, hsame⟩ := hend.stateAfter
    rw [Machine.relocate_stay] at hsame
    exact ⟨text, hsame⟩
  obtain ⟨text, hbefore⟩ := hsilent output
  obtain ⟨text', hself⟩ := hsilent m.output
  have hsame : m.withOutput m.output = m := rfl
  rw [hbefore, hsame] at hself
  refine
    ⟨(stateAfter ((bounded fuel depth).executeAll statements) (m.withOutput output)).output, ?_⟩
  have hboth := congrArg (Machine.withOutput ·
    (stateAfter ((bounded fuel depth).executeAll statements) (m.withOutput output)).output) hself
  exact hboth

end Evaluator

end Script
