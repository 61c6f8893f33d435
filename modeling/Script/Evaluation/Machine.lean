import Script.Value.Operators

/-!
# The machine

A machine is what a running program can change: the scopes, the scope it is in, and what it has
printed. A run that fails leaves the machine as it was when it failed, except that scopes it has
entered are left again.
-/

namespace Script

/-- The state of a running program. -/
structure Machine where
  store : Store Value
  scope : ScopeId
  functions : Nat
  output : String

/-- The scope that all others lie in. -/
def Machine.globalScope : ScopeId := 0

/-- A machine at the start: the global scope binds `print`, which has the number `id`. -/
def Machine.start (id : Nat) : Machine where
  store := (Store.empty.push none).define Machine.globalScope "print" (.print id)
  scope := Machine.globalScope
  functions := 0
  output := ""

/-- The global bindings. -/
def Machine.globals (m : Machine) : Dictionary Value :=
  m.store.bindings Machine.globalScope

/-- An action of a running program. -/
abbrev Run := EStateM Halt Machine

namespace Run

/-- Fails with a fault at a token. -/
def fail {α : Type} (cause : RuntimeFault.Cause) (token : Token) : Run α :=
  throw (.fault ⟨cause, token⟩)

/-- Gives up. -/
def giveUp {α : Type} (b : Breakdown) : Run α :=
  throw (.breakdown b)

/-- A computation that does not touch the machine. -/
def ofExcept {α : Type} (result : Except Halt α) : Run α :=
  match result with
  | .ok a => pure a
  | .error halt => throw halt

/-- Binds a name in the current scope. -/
def define (name : String) (value : Value) : Run Unit :=
  modify fun m => { m with store := m.store.define m.scope name value }

/-- The value of the name at a token. -/
def lookUp (name : Token) : Run Value := do
  let m ← get
  match m.store.get? m.scope name.text with
  | some value => return value
  | none => fail .undefined name

/-- Changes the value of the name at a token. -/
def assign (name : Token) (value : Value) : Run Unit := fun m =>
  let (store, found) := m.store.assign m.scope name.text value
  let m := { m with store }
  if found then .ok () m else .error (.fault ⟨.undefined, name⟩) m

/-- Makes a scope inside another one. -/
def makeScope (parent : ScopeId) : Run ScopeId := fun m =>
  .ok m.store.size { m with store := m.store.push (some parent) }

/-- Runs an action in a scope and returns to the current scope, also if the action fails. -/
def within {α : Type} (scope : ScopeId) (action : Run α) : Run α := fun m =>
  let previous := m.scope
  match action { m with scope := scope } with
  | .ok a m => .ok a { m with scope := previous }
  | .error halt m => .error halt { m with scope := previous }

/-- Makes a function that is declared in the current scope. -/
def makeFunction (name : Token) (params : List Token) (body : List Node) : Run Value := fun m =>
  .ok (.function ⟨m.functions, name, params, body, m.scope⟩)
    { m with functions := m.functions + 1 }

/-- Prints a line. -/
def printLine (line : String) : Run Unit :=
  modify fun m => { m with output := m.output ++ line ++ "\n" }

/-- What the built-in function that prints does. It refuses to print nothing. -/
def print (args : List Value) : Run Value := do
  if args.isEmpty then giveUp .nothingToPrint
  printLine (" ".intercalate (args.map Value.display))
  return .null

/-- Runs a built-in function in the call with the given closing parenthesis. -/
def calling {α : Type} (paren : Token) (action : Run α) : Run α := fun m =>
  match action m with
  | .ok a m => .ok a m
  | .error halt m => .error (halt.outside paren) m

/-- A call with nothing to print is at fault. -/
theorem calling_print (paren : Token) (args : List Value) :
    calling paren (print args) =
      if args.isEmpty then fail .nothingToPrint paren
      else do
        printLine (" ".intercalate (args.map Value.display))
        return .null := by
  rw [print]
  split
  · rfl
  · rfl

end Run

end Script
