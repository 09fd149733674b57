/-!
# Ordered fields

A mapping from names to values that remembers the order in which its names
arrived. Setting a name that is present keeps its position; a new name goes to
the end. `swapRemove` is the one operation that reorders: the last entry takes
the place of the removed one.

`insertSorted` keeps a mapping in the order of its names instead.
-/

namespace GatewayStack

/-- Entries of a mapping, in order. -/
abbrev Fields (α : Type) := List (String × α)

namespace Fields

variable {α β : Type}

def keys (fields : Fields α) : List String := fields.map Prod.fst

def values (fields : Fields α) : List α := fields.map Prod.snd

def get? : Fields α → String → Option α
  | [], _ => none
  | (k, v) :: rest, name => if k = name then some v else get? rest name

def contains (fields : Fields α) (name : String) :
    Bool := (get? fields name).isSome

/-- Sets the value under a name, in place when the name is present and at the
end when it is not. -/
def set : Fields α → String → α → Fields α
  | [], name, value => [(name, value)]
  | (k, v) :: rest, name, value =>
    if k = name then (k, value) :: rest else (k, v) :: set rest name value

/-- Sets every entry of the second mapping in the first, in order. -/
def setAll (fields : Fields α) : Fields α → Fields α
  | [] => fields
  | (k, v) :: rest => setAll (set fields k v) rest

/-- The mapping that entries build one after the other. -/
def ofEntries (entries : List (String × α)) : Fields α := setAll [] entries

/-- The same names with other values. -/
def mapValues (f : α → β) (fields : Fields α) : Fields β :=
  fields.map fun (k, v) => (k, f v)

/-- Takes a name out; the last entry moves into its place. -/
def swapRemove : Fields α → String → Fields α
  | [], _ => []
  | (k, v) :: rest, name =>
    if k = name then
      match rest.getLast? with
      | some last => last :: rest.dropLast
      | none => []
    else (k, v) :: swapRemove rest name

/-- Sets the value under a name, keeping the names in increasing order. -/
def insertSorted : Fields α → String → α → Fields α
  | [], name, value => [(name, value)]
  | (k, v) :: rest, name, value =>
    if k = name then (k, value) :: rest
    else if name < k then (name, value) :: (k, v) :: rest
    else (k, v) :: insertSorted rest name value

/-- The same entries with their names in increasing order. -/
def sorted (fields : Fields α) : Fields α :=
  fields.foldl (fun acc (k, v) => insertSorted acc k v) []

def Distinct (fields : Fields α) : Prop := (keys fields).Nodup

@[simp] theorem get?_nil (name : String) :
    get? ([] : Fields α) name = none := rfl

@[simp] theorem keys_nil : keys ([] : Fields α) = [] := rfl

@[simp] theorem keys_cons (entry : String × α) (fields : Fields α) :
    keys (entry :: fields) = entry.1 :: keys fields := rfl

theorem get?_set_self (fields : Fields α) (name : String) (value : α) :
    get? (set fields name value) name = some value := by
  induction fields with
  | nil => simp [set, get?]
  | cons entry rest ih =>
    by_cases h : entry.1 = name <;> simp [set, get?, h, ih]

theorem get?_set_of_ne (fields : Fields α) {name other : String} (value : α)
    (h : name ≠ other) : get? (set fields name value) other
    = get? fields other := by
  induction fields with
  | nil => simp [set, get?, h]
  | cons entry rest ih =>
    obtain ⟨k, v⟩ := entry
    by_cases hk : k = name
    · subst hk; simp [set, get?, h]
    · by_cases ho : k = other
      · subst ho; simp [set, get?, hk]
      · simp [set, get?, hk, ho, ih]

/-- Setting a name keeps the names in place and appends a new one. -/
theorem keys_set (fields : Fields α) (name : String) (value : α) :
    keys (set fields name value)
      = if name ∈ keys fields then keys fields else keys fields ++ [name] := by
  induction fields with
  | nil => simp [set]
  | cons entry rest ih =>
    by_cases h : entry.1 = name
    · simp [set, h]
    · have h' : ¬ name = entry.1 := fun e => h e.symm
      by_cases hm : name ∈ keys rest <;> simp [set, h, h', ih, hm]

end Fields

end GatewayStack
