import GatewayStack.Json.Fields
import GatewayStack.Number.Shortest

/-!
# JSON values

The dynamic values that descriptors, configuration and templates are made of.
Objects keep the order of their fields. Equality is decidable and tells two
objects apart when only the order of their fields differs.
-/

namespace GatewayStack

/-- A JSON number: an integer of at most 64 bits, or a floating-point number. -/
inductive Number where
  | int (z : Int)
  | real (x : Binary64)
  deriving DecidableEq, Repr

namespace Number

/-- The number when it is a non-negative integer of at most 64 bits. -/
def natural? : Number → Option Nat
  | .int z => if 0 ≤ z ∧ z < Nat.pow 2 64 then some z.toNat else none
  | .real _ => none

def text : Number → String
  | .int z => toString z
  | .real x => x.text

end Number

inductive Json where
  | null
  | bool (b : Bool)
  | num (n : Number)
  | str (s : String)
  | arr (items : List Json)
  | obj (fields : List (String × Json))
  deriving Repr, Inhabited

namespace Json

instance : Coe String Json := ⟨.str⟩

instance : Coe Bool Json := ⟨.bool⟩

def nat (n : Nat) : Json := .num (.int n)

def strings (items : List String) : Json := .arr (items.map .str)

def empty : Json := .obj []

def isNull : Json → Bool
  | .null => true
  | _ => false

def string? : Json → Option String
  | .str s => some s
  | _ => none

def bool? : Json → Option Bool
  | .bool b => some b
  | _ => none

def fields? : Json → Option (Fields Json)
  | .obj fields => some fields
  | _ => none

def items? : Json → Option (List Json)
  | .arr items => some items
  | _ => none

def field? (value : Json) (name : String) : Option Json :=
  value.fields?.bind fun fields => Fields.get? fields name

mutual

/-- Equality of values, decided part by part. -/
def same : Json → Json → Bool
  | .null, .null => true
  | .bool a, .bool b => decide (a = b)
  | .num a, .num b => decide (a = b)
  | .str a, .str b => decide (a = b)
  | .arr as, .arr bs => sameItems as bs
  | .obj as, .obj bs => sameFields as bs
  | _, _ => false

/-- Equality of arrays. -/
def sameItems : List Json → List Json → Bool
  | [], [] => true
  | a :: as, b :: bs => same a b && sameItems as bs
  | _, _ => false

/-- Equality of objects, with the order of their fields. -/
def sameFields : List (String × Json) → List (String × Json) → Bool
  | [], [] => true
  | (j, a) :: as, (k, b) :: bs => decide (j = k) && same a b && sameFields as bs
  | _, _ => false

end

mutual

theorem eq_of_same : ∀ {a b : Json}, same a b = true → a = b
  | .null, b, h => by cases b <;> simp_all [same]
  | .bool _, b, h => by cases b <;> simp_all [same]
  | .num _, b, h => by cases b <;> simp_all [same]
  | .str _, b, h => by cases b <;> simp_all [same]
  | .arr as, b, h => by
    cases b with
    | arr bs => rw [same] at h; rw [eq_of_sameItems h]
    | _ => simp [same] at h
  | .obj as, b, h => by
    cases b with
    | obj bs => rw [same] at h; rw [eq_of_sameFields h]
    | _ => simp [same] at h

theorem eq_of_sameItems : ∀ {as bs : List Json},
    sameItems as bs = true → as = bs
  | [], bs, h => by cases bs <;> simp_all [sameItems]
  | a :: as, bs, h => by
    cases bs with
    | nil => simp [sameItems] at h
    | cons b bs =>
      rw [sameItems, Bool.and_eq_true] at h
      rw [eq_of_same h.1, eq_of_sameItems h.2]

theorem eq_of_sameFields :
    ∀ {as bs : List (String × Json)}, sameFields as bs = true → as = bs
  | [], bs, h => by cases bs <;> simp_all [sameFields]
  | (j, a) :: as, bs, h => by
    cases bs with
    | nil => simp [sameFields] at h
    | cons entry bs =>
      obtain ⟨k, b⟩ := entry
      rw [sameFields, Bool.and_eq_true, Bool.and_eq_true] at h
      rw [of_decide_eq_true h.1.1, eq_of_same h.1.2, eq_of_sameFields h.2]

end

mutual

theorem same_refl : ∀ a : Json, same a a = true
  | .null => rfl
  | .bool _ => by simp [same]
  | .num _ => by simp [same]
  | .str _ => by simp [same]
  | .arr as => by rw [same]; exact sameItems_refl as
  | .obj as => by rw [same]; exact sameFields_refl as

theorem sameItems_refl : ∀ as : List Json, sameItems as as = true
  | [] => rfl
  | a :: as => by rw [sameItems, same_refl a, sameItems_refl as]; rfl

theorem sameFields_refl : ∀ as : List (String × Json), sameFields as as = true
  | [] => rfl
  | (_, a) :: as => by rw [sameFields, same_refl a, sameFields_refl as]; simp

end

theorem same_iff {a b : Json} : same a b = true ↔ a = b :=
  ⟨eq_of_same, fun h => h ▸ same_refl a⟩

instance : DecidableEq Json := fun _ _ => decidable_of_iff _ same_iff

end Json

end GatewayStack
