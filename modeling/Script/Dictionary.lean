/-!
# Dictionaries

A dictionary binds names to values. Names keep the order in which they were first bound; binding a
name again replaces its value in place.
-/

namespace Script

/-- Names with their values, in the order of their first binding. -/
abbrev Dictionary (α : Type) := List (String × α)

namespace Dictionary

variable {α : Type}

/-- The dictionary in which a name has a new value. -/
def put (d : Dictionary α) (name : String) (value : α) : Dictionary α :=
  match d with
  | [] => [(name, value)]
  | (other, old) :: rest =>
    if other = name then (name, value) :: rest else (other, old) :: put rest name value

/-- The value of a name. -/
def get? (d : Dictionary α) (name : String) : Option α :=
  match d with
  | [] => none
  | (other, value) :: rest => if other = name then some value else get? rest name

/-- Whether a name is bound. -/
def binds (d : Dictionary α) (name : String) : Bool :=
  (get? d name).isSome

/-- The names, in their order. -/
def names (d : Dictionary α) : List String :=
  d.map Prod.fst

@[simp] theorem get?_put_self (d : Dictionary α) (name : String) (value : α) :
    get? (put d name value) name = some value := by
  induction d with
  | nil => simp [put, get?]
  | cons entry rest ih =>
    simp only [put]
    split
    · simp [get?]
    · next h => simp [get?, h, ih]

theorem get?_put_of_ne (d : Dictionary α) {name other : String} (value : α) (h : other ≠ name) :
    get? (put d name value) other = get? d other := by
  induction d with
  | nil => simp [put, get?, Ne.symm h]
  | cons entry rest ih =>
    simp only [put]
    split
    · next heq => simp [get?, heq, Ne.symm h]
    · simp [get?, ih]

end Dictionary

end Script
