import Script.Breakdown
import Script.Dictionary

/-!
# Scopes

A scope binds names, and a name that it does not bind is looked up in the scope around it. Several
scopes may lie in one scope, and all of them see what changes there, so scopes are kept in a store
and known by their place in it. A scope is made after the scope around it, which is why a walk
outwards ends.

## Main definitions

* `Store.resolve?` : the nearest scope that binds a name.
* `Store.get?`, `Store.assign` : reading and changing a binding.
* `Store.contains` : whether a name is bound, found by a walk of bounded depth.
-/

namespace Script

/-- The place of a scope in its store. -/
abbrev ScopeId := Nat

/-- Bindings, and the scope around them if there is one. -/
structure Scope (α : Type) where
  bindings : Dictionary α
  parent : Option ScopeId

/-- All scopes that were ever made. -/
structure Store (α : Type) where
  scopes : Array (Scope α)

namespace Store

variable {α : Type}

/-- No scopes. -/
def empty : Store α :=
  ⟨#[]⟩

/-- Makes a scope without bindings, whose place is the size of the store. -/
def push (s : Store α) (parent : Option ScopeId) : Store α :=
  ⟨s.scopes.push ⟨[], parent⟩⟩

/-- The place of the next scope. -/
def size (s : Store α) : Nat :=
  s.scopes.size

/-- Binds a name in a scope, whatever the scopes around it bind. -/
def define (s : Store α) (id : ScopeId) (name : String) (value : α) : Store α :=
  ⟨s.scopes.modify id fun scope => { scope with bindings := scope.bindings.put name value }⟩

/-- The bindings of a scope. -/
def bindings (s : Store α) (id : ScopeId) : Dictionary α :=
  (s.scopes[id]?.map Scope.bindings).getD []

/-- The nearest scope, from a scope outwards, that binds a name. -/
def resolve? (s : Store α) (id : ScopeId) (name : String) : Option ScopeId :=
  match s.scopes[id]? with
  | none => none
  | some scope =>
    if scope.bindings.binds name then some id
    else
      match scope.parent with
      | none => none
      | some parent => if parent < id then resolve? s parent name else none
termination_by id

/-- The value of a name in the nearest scope that binds it. -/
def get? (s : Store α) (id : ScopeId) (name : String) : Option α := do
  (s.bindings (← s.resolve? id name)).get? name

/-- Changes the value of a name in the nearest scope that binds it, and says whether there is one.
No scope gets a new binding. -/
def assign (s : Store α) (id : ScopeId) (name : String) (value : α) : Store α × Bool :=
  match s.resolve? id name with
  | some target => (s.define target name value, true)
  | none => (s, false)

/-- Whether a scope or one around it binds a name, if the walk outwards stays within a depth. -/
def contains (s : Store α) (name : String) : Nat → ScopeId → Except Breakdown Bool
  | 0, _ => .error .tooDeep
  | depth + 1, id =>
    match s.scopes[id]? with
    | none => .ok false
    | some scope =>
      if scope.bindings.binds name then .ok true
      else
        match scope.parent with
        | none => .ok false
        | some parent => contains s name depth parent

end Store

end Script
