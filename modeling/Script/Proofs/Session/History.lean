import Script.Proofs.Agreement
import Script.Proofs.Evaluation.Growing
import Script.Proofs.Session.Adding
import Script.Proofs.Session.Printing

/-!
# The history of a session

What was added to a session and what its interpreter was given is not to be seen in the session
itself, so it is written down here in a ledger beside it. Keeping the ledger changes nothing: a
session with a ledger does what it does without one. In return the ledger says at every moment what
has become of a program that was added. It was given to the interpreter, or it waits in the queue,
and all programs that wait were added after all that were given.

## Main definitions

* `Ledger` : a session, what was added to it, and what its interpreter was given.
* `Ledger.Task` : what a session can be asked to do.
* `Ledger.perform` : a session with a ledger does what it is asked to do.
* `Ledger.Replays` : the machine is the one that the programs of the ledger leave.

## Main results

* `Ledger.session_foldl_perform` : a ledger changes nothing.
* `Ledger.added_eq_started_append_queue` : what has become of the programs that were added.
-/

namespace Script

/-- The program of a source text, if it has one. -/
def program? (source : String) : Option (List Node) := do
  let tokens ← (lex source).toOption
  (parse tokens).toOption

theorem program?_eq_some {source : String} {program : List Node} (h : IsParsed source program) :
    program? source = some program := by
  obtain ⟨tokens, hlex, hparse⟩ := h
  simp [program?, hlex, hparse, Except.toOption]

theorem Session.after_eq_stateAfter (work : SessionM Unit) (s : Session) :
    s.after work = stateAfter work s := by
  rw [after, stateAfter]
  cases work s <;> rfl

/-- A session, with the programs that were added to it and those that its interpreter was given. -/
structure Ledger where
  session : Session
  added : List Chunk
  started : List Chunk

/-- A step of a session that keeps a ledger. -/
abbrev LedgerM := EStateM Escape Ledger

namespace Ledger

/-- The ledger of a session, in which only what waits in the queue is written down. -/
def opened (s : Session) : Ledger :=
  ⟨s, s.queue, []⟩

/-- A step of the session of which nothing is written down. -/
def lift {α : Type} (work : SessionM α) : LedgerM α := fun l =>
  match work l.session with
  | .ok a session => .ok a { l with session }
  | .error escape session => .error escape { l with session }

/-- Adds a source text, and writes its program down unless adding it fails. -/
def add (source : String) (line : Int) : LedgerM Unit := do
  lift (Session.add source line)
  modify fun l =>
    { l with added := l.added ++ ((program? source).map (Chunk.mk source line)).toList }

/-- Gives a program to the interpreter, and writes it down before that starts. -/
def interpret (fuel : Nat) (chunk : Chunk) : LedgerM Bool := do
  modify fun l => { l with started := l.started ++ [chunk] }
  lift (Session.interpret fuel chunk.program)

/-- Runs the first program of the queue as `Session.runNext` does. -/
def runNext (fuel : Nat) : LedgerM Unit := do
  let path := (← get).session.options.path
  match (← get).session.queue with
  | [] => return
  | chunk :: rest =>
    lift (modify fun s => { s with queue := rest })
    lift (modify (Session.mapReporter (·.register path chunk.source chunk.line)))
    let ok ← interpret fuel chunk
    if !ok && (← get).session.interpreter.reporter.fatal then throw (.exit (some 1))
    lift (modify (Session.mapReporter (·.forget path)))

/-- Runs programs of the queue, as many as a number says. -/
def runTimes (fuel : Nat) : Nat → LedgerM Unit
  | 0 => return
  | n + 1 => do
    runNext fuel
    runTimes fuel n

/-- Runs all programs of the queue. -/
def run (fuel : Nat) : LedgerM Unit := do
  runTimes fuel (← get).session.queue.length

/-- Work whose escapes the reporter deals with. -/
def guarded (work : LedgerM Unit) : LedgerM Unit := fun l =>
  match work l with
  | .ok () l => .ok () l
  | .error escape l =>
    match Reporter.guard escape l.session.interpreter.reporter with
    | .ok () reporter => .ok () { l with session := l.session.mapReporter fun _ => reporter }
    | .error escape reporter =>
      .error escape { l with session := l.session.mapReporter fun _ => reporter }

/-- What a session can be asked to do. Running the first program is a part of running all. -/
inductive Task where
  | add (source : String) (line : Int)
  | next (fuel : Nat)
  | run (fuel : Nat)

/-- A session does what it is asked to do. -/
def Task.work : Task → SessionM Unit
  | .add source line => Session.add source line
  | .next fuel => Session.runNext fuel
  | .run fuel => Session.run fuel

/-- A session with a ledger does what it is asked to do. -/
def Task.noted : Task → LedgerM Unit
  | .add source line => Ledger.add source line
  | .next fuel => Ledger.runNext fuel
  | .run fuel => Ledger.run fuel

/-- The session that a task leaves, be it guarded or not. -/
def Task.perform (s : Session) (step : Bool × Task) : Session :=
  stateAfter (if step.1 then Session.guarded step.2.work else step.2.work) s

/-- The session and the ledger that a task leaves, be it guarded or not. -/
def perform (l : Ledger) (step : Bool × Task) : Ledger :=
  stateAfter (if step.1 then guarded step.2.noted else step.2.noted) l

/-! ### A ledger changes nothing -/

/-- A step with a ledger does to the session what the step without one does. -/
abbrev Erases {α : Type} (x : LedgerM α) (y : SessionM α) : Prop :=
  Agree (fun l s => l.session = s) (· = ·) x y (· = ·)

theorem erases_lift {α : Type} (work : SessionM α) : Erases (lift work) work := by
  rintro l s rfl
  rw [lift]
  cases work l.session with
  | ok a s' => exact .ok rfl rfl
  | error escape s' => exact .error rfl rfl

/-- Writing in the ledger does nothing to the session. -/
theorem Erases.note {α : Type} {x : LedgerM α} {y : SessionM α} {f : Ledger → Ledger}
    (hf : ∀ l, (f l).session = l.session) (h : Erases x y) :
    Erases (modify f >>= fun _ => x) y := by
  rintro l s rfl
  exact h (f l) l.session (hf l)

theorem erases_add (source : String) (line : Int) :
    Erases (add source line) (Session.add source line) := by
  rintro l s rfl
  have hend := erases_lift (Session.add source line) l l.session rfl
  rw [add]
  change EndAlike _ _ _ (EStateM.bind _ _ l) _
  rw [EStateM.bind]
  generalize lift (Session.add source line) l = end₁ at hend ⊢
  generalize Session.add source line l.session = end₂ at hend ⊢
  cases hend with
  | ok hsession _ => exact .ok hsession rfl
  | error hsession hescape => exact .error hsession hescape

theorem erases_runNext (fuel : Nat) : Erases (runNext fuel) (Session.runNext fuel) := by
  refine Agree.get.bind ?_
  rintro l _ rfl
  refine Agree.get.bind ?_
  rintro l' _ rfl
  dsimp only
  cases l'.session.queue with
  | nil => exact .pure rfl
  | cons chunk rest =>
    refine (erases_lift _).bind fun _ _ _ => (erases_lift _).bind fun _ _ _ => ?_
    have hinterpret : Erases (interpret fuel chunk) (Session.interpret fuel chunk.program) :=
      .note (fun _ => rfl) (erases_lift _)
    refine hinterpret.bind ?_
    rintro ok _ rfl
    refine Agree.get.bind ?_
    rintro l'' _ rfl
    split
    · exact fun _ _ hsession => .error hsession rfl
    · exact erases_lift _

theorem erases_runTimes (fuel n : Nat) : Erases (runTimes fuel n) (Session.runTimes fuel n) := by
  induction n with
  | zero => exact .pure rfl
  | succ n ih => exact (erases_runNext fuel).bind fun _ _ _ => ih

theorem erases_run (fuel : Nat) : Erases (run fuel) (Session.run fuel) := by
  refine Agree.get.bind ?_
  rintro l _ rfl
  exact erases_runTimes fuel _

theorem erases_noted (task : Task) : Erases task.noted task.work := by
  cases task with
  | add source line => exact erases_add source line
  | next fuel => exact erases_runNext fuel
  | run fuel => exact erases_run fuel

theorem Erases.guarded {x : LedgerM Unit} {y : SessionM Unit} (h : Erases x y) :
    Erases (guarded x) (Session.guarded y) := by
  rintro l s rfl
  have hend := h l l.session rfl
  rw [Ledger.guarded, Session.guarded]
  generalize x l = end₁ at hend ⊢
  generalize y l.session = end₂ at hend ⊢
  cases hend with
  | ok hsession hunit => exact .ok hsession rfl
  | @error escape _ l' s' hsession hescape =>
    subst hsession hescape
    dsimp only
    cases Reporter.guard escape l'.session.interpreter.reporter with
    | ok _ reporter => exact .ok rfl rfl
    | error escape' reporter => exact .error rfl rfl

theorem Erases.session_stateAfter {α : Type} {x : LedgerM α} {y : SessionM α} (h : Erases x y)
    (l : Ledger) : (stateAfter x l).session = stateAfter y l.session :=
  (h l l.session rfl).stateAfter

theorem session_perform (l : Ledger) (step : Bool × Task) :
    (l.perform step).session = Task.perform l.session step := by
  rw [perform, Task.perform]
  split
  · exact (erases_noted step.2).guarded.session_stateAfter l
  · exact (erases_noted step.2).session_stateAfter l

/-- A session with a ledger does what it does without one. -/
theorem session_foldl_perform (steps : List (Bool × Task)) (l : Ledger) :
    (steps.foldl perform l).session = steps.foldl Task.perform l.session := by
  induction steps generalizing l with
  | nil => rfl
  | cons step steps ih => rw [List.foldl_cons, List.foldl_cons, ih, session_perform]

/-! ### What all steps keep -/

section

variable {inv : Ledger → Prop} {x : LedgerM Unit} {l : Ledger}

/-- Work that keeps an invariant of a ledger, however it ends. -/
abbrev Maintains (inv : Ledger → Prop) (x : LedgerM Unit) : Prop :=
  Keeps inv (fun _ => True) x fun _ => True

theorem maintains_runTimes (hnext : ∀ fuel, Maintains inv (runNext fuel)) (fuel n : Nat) :
    Maintains inv (runTimes fuel n) := by
  induction n with
  | zero => exact .pure trivial
  | succ n ih => exact (hnext fuel).bind fun _ _ => ih

theorem maintains_noted (hadd : ∀ source line, Maintains inv (add source line))
    (hnext : ∀ fuel, Maintains inv (runNext fuel)) (task : Task) : Maintains inv task.noted := by
  cases task with
  | add source line => exact hadd source line
  | next fuel => exact hnext fuel
  | run fuel => exact Keeps.get.bind fun _ _ => maintains_runTimes hnext fuel _

/-- Dealing with an escape changes the reporter only. -/
theorem Maintains.guarded
    (hreporter : ∀ l r, inv l → inv { l with session := l.session.mapReporter fun _ => r })
    (hx : Maintains inv x) : Maintains inv (guarded x) := by
  intro l hl
  have hend := hx l hl
  rw [Ledger.guarded]
  cases hresult : x l with
  | ok _ l' =>
    rw [hresult] at hend
    exact hend
  | error escape l' =>
    rw [hresult] at hend
    dsimp only
    cases Reporter.guard escape l'.session.interpreter.reporter with
    | ok _ reporter => exact ⟨hreporter l' reporter hend.1, trivial⟩
    | error escape' reporter => exact ⟨hreporter l' reporter hend.1, trivial⟩

theorem Maintains.stateAfter (hx : Maintains inv x) (hl : inv l) : inv (stateAfter x l) := by
  have hend := hx l hl
  rw [Script.stateAfter]
  cases hresult : x l with
  | ok _ l' =>
    rw [hresult] at hend
    exact hend.1
  | error escape l' =>
    rw [hresult] at hend
    exact hend.1

theorem keeps_of_stateAfter {α : Type} {x : LedgerM α}
    (h : ∀ l, inv l → inv (Script.stateAfter x l)) :
    Keeps inv (fun _ => True) x fun _ => True := by
  intro l hl
  have hafter := h l hl
  rw [Script.stateAfter] at hafter
  cases hresult : x l <;> rw [hresult] at hafter <;> exact ⟨hafter, trivial⟩

theorem stateAfter_lift {α : Type} (work : SessionM α) (l : Ledger) :
    Script.stateAfter (lift work) l = { l with session := Script.stateAfter work l.session } := by
  rw [Script.stateAfter, lift, Script.stateAfter]
  cases work l.session <;> rfl

/-- What adding a text, running a program and dealing with an escape keep, all tasks keep. -/
theorem inv_foldl_perform (hadd : ∀ source line, Maintains inv (add source line))
    (hnext : ∀ fuel, Maintains inv (runNext fuel))
    (hreporter : ∀ l r, inv l → inv { l with session := l.session.mapReporter fun _ => r })
    (hl : inv l) (steps : List (Bool × Task)) : inv (steps.foldl perform l) := by
  induction steps generalizing l with
  | nil => exact hl
  | cons step steps ih =>
    refine ih ?_
    have hnoted := maintains_noted hadd hnext step.2
    rw [perform]
    split
    · exact (hnoted.guarded hreporter).stateAfter hl
    · exact hnoted.stateAfter hl

end

/-! ### What the ledger says -/

/-- What was added was given to the interpreter, or waits in the queue. -/
def IsBalanced (l : Ledger) : Prop :=
  l.added = l.started ++ l.session.queue

theorem isBalanced_opened (s : Session) : (opened s).IsBalanced :=
  rfl

theorem balances_add (source : String) (line : Int) : Maintains IsBalanced (add source line) := by
  intro l hl
  simp only [add, lift, Bind.bind, EStateM.bind]
  obtain ⟨listing, -, ⟨program, hparsed, -, hadd⟩ | ⟨escape, -, -, hadd⟩⟩ :=
    Session.add_cases source line l.session
  · rw [hadd]
    refine ⟨?_, trivial⟩
    simp only [IsBalanced, program?_eq_some hparsed, Option.map_some, Option.toList_some]
    rw [hl, List.append_assoc]
    rfl
  · rw [hadd]
    exact ⟨hl, trivial⟩

/-- Work of the session that leaves the queue alone keeps a ledger balanced. -/
theorem balances_lift {α : Type} {work : SessionM α}
    (hwork : ∀ s, (stateAfter work s).queue = s.queue) :
    Keeps IsBalanced (fun _ => True) (lift work) fun _ => True := by
  refine keeps_of_stateAfter fun l hl => ?_
  rw [stateAfter_lift, IsBalanced, hwork, hl]

theorem queue_stateAfter_interpret (fuel : Nat) (program : List Node) (s : Session) :
    (stateAfter (Session.interpret fuel program) s).queue = s.queue := by
  rw [stateAfter, Session.interpret]
  cases Interpreter.interpret fuel program s.interpreter <;> rfl

/-- What follows when a program has left the queue and was written down. -/
def runStarted (fuel : Nat) (path : String) (program : List Node) : LedgerM Unit := do
  let ok ← lift (Session.interpret fuel program)
  if !ok && (← get).session.interpreter.reporter.fatal then throw (.exit (some 1))
  lift (modify (Session.mapReporter (·.forget path)))

/-- The ledger of a session that has just started a program. -/
def starting (l : Ledger) (chunk : Chunk) (rest : List Chunk) : Ledger where
  session := ⟨l.session.options, l.session.interpreterFor chunk, rest⟩
  added := l.added
  started := l.started ++ [chunk]

theorem runNext_cons {l : Ledger} {chunk : Chunk} {rest : List Chunk}
    (hqueue : l.session.queue = chunk :: rest) (fuel : Nat) :
    runNext fuel l =
      runStarted fuel l.session.options.path chunk.program (l.starting chunk rest) := by
  obtain ⟨⟨options, i, queue⟩, added, started⟩ := l
  obtain rfl : queue = chunk :: rest := hqueue
  rfl

theorem balances_runStarted (fuel : Nat) (path : String) (program : List Node) :
    Maintains IsBalanced (runStarted fuel path program) := by
  refine (balances_lift (queue_stateAfter_interpret fuel program)).bind fun ok _ => ?_
  refine Keeps.get.bind fun _ _ => ?_
  exact .ite_bind (.throw trivial) (balances_lift fun _ => rfl)

theorem balances_runNext (fuel : Nat) : Maintains IsBalanced (runNext fuel) := by
  intro l hl
  cases hqueue : l.session.queue with
  | nil =>
    have hnil : runNext fuel l = .ok () l := by
      obtain ⟨⟨options, i, queue⟩, added, started⟩ := l
      obtain rfl : queue = [] := hqueue
      rfl
    rw [hnil]
    exact ⟨hl, trivial⟩
  | cons chunk rest =>
    rw [runNext_cons hqueue]
    refine balances_runStarted fuel _ _ _ ?_
    rw [IsBalanced, hqueue] at hl
    rw [IsBalanced, starting, hl, List.append_assoc, List.singleton_append]

/-! ### Adding and running -/

/-- Adding a source text, guarded or not, leaves the machine as it is but for what it has printed,
and leaves the queue as it is if it escapes. -/
theorem machine_of_becomes_add {source : String} {line : Int} {s s' : Session}
    (h : Session.Becomes (Session.add source line) s s') :
    (∃ listing, s'.interpreter.machine = (s.printed listing).interpreter.machine) ∧
      ∀ escape s'', Session.add source line s = .error escape s'' → s'.queue = s.queue := by
  obtain ⟨listing, -, ⟨program, -, -, hadd⟩ | ⟨escape, -, -, hadd⟩⟩ :=
    Session.add_cases source line s
  · refine ⟨⟨listing, ?_⟩, fun escape s'' hescape => ?_⟩
    · rcases h with rfl | rfl
      · rw [Session.after, hadd]
        rfl
      · rw [Session.after, Session.guarded, hadd]
        rfl
    · cases hadd.symm.trans hescape
  · have hafter : ∃ r, s' = (s.workingOn source line listing).mapReporter fun _ => r := by
      rcases h with rfl | rfl
      · exact ⟨_, by rw [Session.after, hadd]; rfl⟩
      · rw [Session.after, Session.guarded, hadd]
        dsimp only
        cases Reporter.guard escape
            (s.workingOn source line listing).interpreter.reporter with
        | ok _ reporter => exact ⟨reporter, rfl⟩
        | error escape' reporter => exact ⟨reporter, rfl⟩
    obtain ⟨r, rfl⟩ := hafter
    exact ⟨⟨listing, rfl⟩, fun _ _ _ => rfl⟩

/-- Running that returns has emptied the queue. -/
theorem queue_of_run {fuel : Nat} {s s' : Session} (h : Session.run fuel s = .ok () s') :
    s'.queue = [] := by
  induction hqueue : s.queue generalizing s with
  | nil =>
    rw [Session.run_nil hqueue] at h
    cases h
    exact hqueue
  | cons chunk rest ih =>
    rw [Session.run_cons hqueue] at h
    simp only [Bind.bind, EStateM.bind] at h
    cases hnext : Session.runNext fuel s with
    | ok _ s₁ =>
      rw [hnext] at h
      exact ih h (Session.queue_of_runNext hqueue hnext)
    | error escape s₁ =>
      rw [hnext] at h
      cases h

/-! ### What was started was interpreted -/

variable {i : Interpreter} {l : Ledger}

/-- The machine of the session is the one that interpreting the programs that were started leaves,
one after the other and each of them once, but for what was printed. -/
def Replays (i : Interpreter) (l : Ledger) : Prop :=
  ∃ runs : List (Nat × List Node), runs.map Prod.snd = l.started.map Chunk.program ∧
    ∃ output, l.session.interpreter.machine =
      (Interpreter.interpretAll runs i).machine.withOutput output

theorem replays_opened (s : Session) : (opened s).Replays s.interpreter :=
  ⟨[], rfl, s.interpreter.machine.output, rfl⟩

/-- Work of the session that changes nothing in the machine but what was printed. -/
theorem replays_lift {α : Type} {work : SessionM α}
    (hwork : ∀ s, ∃ output,
      (stateAfter work s).interpreter.machine = s.interpreter.machine.withOutput output) :
    Keeps (Replays i) (fun _ => True) (lift work) fun _ => True := by
  refine keeps_of_stateAfter fun l hl => ?_
  obtain ⟨runs, hruns, output, hmachine⟩ := hl
  obtain ⟨output', hafter⟩ := hwork l.session
  rw [stateAfter_lift]
  refine ⟨runs, hruns, output', ?_⟩
  rw [hafter, hmachine]
  rfl

theorem machine_stateAfter_interpret (fuel : Nat) (program : List Node) (s : Session) :
    (stateAfter (Session.interpret fuel program) s).interpreter.machine =
      (stateAfter (Interpreter.interpret fuel program) s.interpreter).machine := by
  rw [stateAfter, Session.interpret, stateAfter]
  cases Interpreter.interpret fuel program s.interpreter <;> rfl

/-- The program that is written down is the one that the interpreter is given. What was printed
before, listings as well, does not matter to it. -/
theorem replays_interpret (fuel : Nat) (chunk : Chunk) :
    Keeps (Replays i) (fun _ => True) (interpret fuel chunk) fun _ => True := by
  refine keeps_of_stateAfter fun l hl => ?_
  obtain ⟨runs, hruns, output, hmachine⟩ := hl
  have hafter : stateAfter (interpret fuel chunk) l =
      stateAfter (lift (Session.interpret fuel chunk.program))
        { l with started := l.started ++ [chunk] } := rfl
  obtain ⟨output', hprinted⟩ := Evaluator.stateAfter_executeAll_withOutput fuel nestingLimit
    chunk.program (Interpreter.interpretAll runs i).machine output
  have hlast : Interpreter.interpretAll (runs ++ [(fuel, chunk.program)]) i =
      stateAfter (Interpreter.interpret fuel chunk.program) (Interpreter.interpretAll runs i) :=
    List.foldl_concat ..
  rw [hafter, stateAfter_lift]
  refine ⟨runs ++ [(fuel, chunk.program)], ?_, output', ?_⟩
  · rw [List.map_append, List.map_append, hruns]
    rfl
  · rw [machine_stateAfter_interpret, Interpreter.machine_stateAfter_interpret, hmachine, hprinted,
      hlast, Interpreter.machine_stateAfter_interpret]

theorem replays_runNext (fuel : Nat) : Maintains (Replays i) (runNext fuel) := by
  have hkept (f : Session → Session)
      (hf : ∀ s, (f s).interpreter.machine = s.interpreter.machine) :
      Keeps (Replays i) (fun _ => True) (lift (modify f)) fun _ => True :=
    replays_lift fun s => ⟨s.interpreter.machine.output, hf s⟩
  refine Keeps.get.bind fun _ _ => Keeps.get.bind fun l _ => ?_
  dsimp only
  cases l.session.queue with
  | nil => exact .pure trivial
  | cons chunk rest =>
    refine (hkept _ fun _ => by rfl).bind fun _ _ => (hkept _ fun _ => by rfl).bind fun _ _ => ?_
    refine (replays_interpret fuel chunk).bind fun ok _ => Keeps.get.bind fun _ _ => ?_
    exact .ite_bind (.throw trivial) (hkept _ fun _ => rfl)

theorem replays_add (source : String) (line : Int) : Maintains (Replays i) (add source line) := by
  refine (replays_lift fun s => ?_).bind fun _ _ => .modify fun _ hl => hl
  obtain ⟨⟨listing, hmachine⟩, -⟩ := machine_of_becomes_add (.inl rfl : Session.Becomes
    (Session.add source line) s (s.after (Session.add source line)))
  rw [Session.after_eq_stateAfter] at hmachine
  exact ⟨s.interpreter.machine.output ++ listing, hmachine⟩

/-- Take any session, and let it add source texts, run the first program of its queue, or run all of
them, in any order, guarded or not, and whatever becomes of it. The ledger that is kept meanwhile
changes nothing, and the programs that were added are, in their order, those that the interpreter
was given and then those in the queue. The machine is the one that a run of the programs that the
interpreter was given leaves, each of them once and in their order, but for what was printed.

Adding a source text, guarded or not, changes neither the scopes of the machine nor the scope that
it is in, and leaves the queue as it is if it escapes. And the queue is empty whenever running it
returns. -/
theorem added_eq_started_append_queue (s : Session) (steps : List (Bool × Task)) :
    (steps.foldl perform (opened s)).session = steps.foldl Task.perform s ∧
    (steps.foldl perform (opened s)).added =
      (steps.foldl perform (opened s)).started ++ (steps.foldl Task.perform s).queue ∧
    (∃ runs : List (Nat × List Node),
      runs.map Prod.snd = (steps.foldl perform (opened s)).started.map Chunk.program ∧
      ∃ output, (steps.foldl Task.perform s).interpreter.machine =
        (Interpreter.interpretAll runs s.interpreter).machine.withOutput output) ∧
    (∀ source line s', Session.Becomes (Session.add source line) (steps.foldl Task.perform s) s' →
      s'.interpreter.machine.store = (steps.foldl Task.perform s).interpreter.machine.store ∧
      s'.interpreter.machine.scope = (steps.foldl Task.perform s).interpreter.machine.scope ∧
      ∀ escape s'', Session.add source line (steps.foldl Task.perform s) = .error escape s'' →
        s'.queue = (steps.foldl Task.perform s).queue) ∧
    ∀ fuel s', Session.run fuel (steps.foldl Task.perform s) = .ok () s' → s'.queue = [] := by
  have hsession := session_foldl_perform steps (opened s)
  have hbalanced := inv_foldl_perform balances_add balances_runNext (fun _ _ hl => hl)
    (isBalanced_opened s) steps
  have hreplays := inv_foldl_perform replays_add replays_runNext (fun _ _ hl => hl)
    (replays_opened s) steps
  rw [IsBalanced, hsession] at hbalanced
  rw [Replays, hsession] at hreplays
  refine ⟨hsession, hbalanced, hreplays, fun source line s' hadd => ?_,
    fun fuel s' => queue_of_run⟩
  obtain ⟨⟨listing, hmachine⟩, hqueue⟩ := machine_of_becomes_add hadd
  rw [hmachine]
  exact ⟨rfl, rfl, hqueue⟩

/-- A session that works on a file, and is left at the first fault. -/
def fileSession : Session :=
  .new (.new .plain true) ⟨"f", false, false, false⟩

/-- Adding a text, trying to add one without a program, running, and adding another text. -/
def failingSteps : List (Bool × Task) :=
  [(false, .add "x;" 1), (true, .add "y y;" 2), (false, .run 1), (false, .add "print(1);" 3)]

/-- A run is left at a fault between the additions of two texts. What it has started counts as given
to the interpreter, and the session has the machine that this one program leaves. -/
theorem added_eq_started_append_queue_failing :
    let ledger := failingSteps.foldl perform (opened fileSession)
    let session := failingSteps.foldl Task.perform fileSession
    haltOf? (Session.run 1) ((failingSteps.take 2).foldl Task.perform fileSession) =
        some (.exit (some 1)) ∧
      ledger.started.map Chunk.source = ["x;"] ∧ session.queue.map Chunk.source = ["print(1);"] ∧
      ledger.added.map Chunk.source = ["x;", "print(1);"] ∧
      ∃ fuel program output, ledger.started.map Chunk.program = [program] ∧
        session.interpreter.machine = (stateAfter (Interpreter.interpret fuel program)
          fileSession.interpreter).machine.withOutput output := by
  intro ledger session
  obtain ⟨-, hadded, ⟨runs, hruns, output, hmachine⟩, -⟩ :=
    added_eq_started_append_queue fileSession failingSteps
  have hstarted : (failingSteps.foldl perform (opened fileSession)).started.map Chunk.source =
      ["x;"] := by decide +kernel
  have hqueue : (failingSteps.foldl Task.perform fileSession).queue.map Chunk.source =
      ["print(1);"] := by decide +kernel
  refine ⟨by decide +kernel, hstarted, hqueue, ?_, ?_⟩
  · rw [hadded, List.map_append, hstarted, hqueue]
    rfl
  · obtain ⟨chunk, hchunk⟩ : ∃ chunk, ledger.started = [chunk] :=
      List.length_eq_one_iff.mp ((List.length_map _).symm.trans (congrArg List.length hstarted))
    have hprograms : ledger.started.map Chunk.program = [chunk.program] := by rw [hchunk]; rfl
    obtain ⟨run, rfl⟩ : ∃ run, runs = [run] :=
      List.length_eq_one_iff.mp
        ((List.length_map _).symm.trans (congrArg List.length (hruns.trans hprograms)))
    have hrun : run.2 = chunk.program := (List.cons.inj (hruns.trans hprograms)).1
    exact ⟨run.1, run.2, output, hrun ▸ hprograms, hmachine⟩

end Ledger

end Script
