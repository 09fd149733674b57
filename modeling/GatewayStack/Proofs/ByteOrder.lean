import Mathlib.Data.List.Basic
import Mathlib.Data.String.Basic

/-!
# The order of texts is that of their bytes

Texts are compared character by character, by the number of the character. A map
that sorts its keys by their bytes has them in the same order: UTF-8 writes the
character with the smaller number so that its bytes differ from those of the
larger one, and the first byte in which they differ is the smaller one. It does
not matter how many bytes either of them takes.
-/

namespace GatewayStack.ByteOrder

/-- The bytes of a text. -/
def bytes (text : String) : List UInt8 := text.toUTF8.data.toList

theorem bytes_eq (text : String) :
    bytes text = text.toList.flatMap String.utf8EncodeChar := by
  have h : text.toUTF8 = text.toList.utf8Encode := by
    rw [← String.toByteArray_ofList, String.ofList_toList]
    rfl
  rw [bytes, h, List.utf8Encode, List.toList_data_toByteArray]

/-- At the first place where two lists of bytes differ, the first has
the smaller one. -/
inductive Precedes : List UInt8 → List UInt8 → Prop where
  | head {a b : UInt8} (as bs : List UInt8) (h : a < b) :
    Precedes (a :: as) (b :: bs)
  | tail (a : UInt8) {as bs : List UInt8} (h : Precedes as bs) :
    Precedes (a :: as) (a :: bs)

namespace Precedes

variable {m n : Nat} {as bs : List UInt8}

/-- What follows does not matter. -/
theorem append_lt (h : Precedes as bs) (cs ds : List UInt8) :
    as ++ cs < bs ++ ds := by
  induction h with
  | head as bs h => exact List.cons_lt_cons_iff.mpr (Or.inl h)
  | tail a h ih => exact List.cons_lt_cons_iff.mpr (Or.inr ⟨rfl, ih⟩)

theorem of_lt (as bs : List UInt8) (h : m < n) (hn : n < 256) :
    Precedes (UInt8.ofNat m :: as) (UInt8.ofNat n :: bs) := by
  refine .head as bs (UInt8.lt_iff_toNat_lt.mpr ?_)
  rwa [UInt8.toNat_ofNat_of_lt' (Nat.lt_trans h hn),
    UInt8.toNat_ofNat_of_lt' hn]

theorem of_le (hle : m ≤ n) (hn : n < 256) (h : m = n → Precedes as bs) :
    Precedes (UInt8.ofNat m :: as) (UInt8.ofNat n :: bs) := by
  rcases Nat.eq_or_lt_of_le hle with rfl | hlt
  · exact .tail _ (h rfl)
  · exact of_lt as bs hlt hn

end Precedes

theorem toNat_lt (c : Char) : c.val.toNat < 1114112 := by
  have hvalid := c.valid
  simp only [UInt32.isValidChar, Nat.isValidChar] at hvalid
  omega

/-- Of two characters the smaller one has the smaller bytes. The cases are how
many bytes the one and the other take: with fewer the first byte is smaller
already, with as many they are the digits of the two numbers. -/
theorem precedes_of_lt {c d : Char} (h : c < d) :
    Precedes (String.utf8EncodeChar c) (String.utf8EncodeChar d) := by
  have hlt : c.val.toNat < d.val.toNat := Char.lt_def.mp h
  have hbound := toNat_lt d
  unfold String.utf8EncodeChar
  generalize c.val.toNat = m at *
  generalize d.val.toNat = n at *
  dsimp only
  split_ifs
  -- one byte, against one to four of them
  · exact .of_lt _ _ hlt (by omega)
  · exact .of_lt _ _ (by omega) (by omega)
  · exact .of_lt _ _ (by omega) (by omega)
  · exact .of_lt _ _ (by omega) (by omega)
  -- two bytes
  · omega
  · refine .of_le (by omega) (by omega) fun hfirst => ?_
    exact .of_lt _ _ (by omega) (by omega)
  · exact .of_lt _ _ (by omega) (by omega)
  · exact .of_lt _ _ (by omega) (by omega)
  -- three bytes
  · omega
  · omega
  · refine .of_le (by omega) (by omega) fun hfirst => ?_
    refine .of_le (by omega) (by omega) fun hsecond => ?_
    exact .of_lt _ _ (by omega) (by omega)
  · exact .of_lt _ _ (by omega) (by omega)
  -- four bytes
  · omega
  · omega
  · omega
  · refine .of_le (by omega) (by omega) fun hfirst => ?_
    refine .of_le (by omega) (by omega) fun hsecond => ?_
    refine .of_le (by omega) (by omega) fun hthird => ?_
    exact .of_lt _ _ (by omega) (by omega)

theorem utf8EncodeChar_ne_nil (c : Char) : String.utf8EncodeChar c ≠ [] := by
  unfold String.utf8EncodeChar
  dsimp only
  split_ifs <;> exact List.cons_ne_nil _ _

theorem bytes_lt_of_lt {s t : String} (h : s < t) : bytes s < bytes t := by
  rw [bytes_eq, bytes_eq]
  have hchars := String.lt_iff_toList_lt.mp h
  generalize s.toList = cs at *
  generalize t.toList = ds at *
  induction hchars with
  | @nil d ds =>
      rw [List.flatMap_cons, List.flatMap_nil]
      obtain ⟨first, rest, hfirst⟩ :=
        List.exists_cons_of_ne_nil (utf8EncodeChar_ne_nil d)
      rw [hfirst]
      exact List.nil_lt_cons _ _
  | rel hlt => exact (precedes_of_lt hlt).append_lt _ _
  | cons h ih => exact List.append_left_lt ih

theorem lt_iff_bytes_lt {s t : String} : s < t ↔ bytes s < bytes t := by
  refine ⟨bytes_lt_of_lt, fun h => ?_⟩
  rcases lt_trichotomy s t with hlt | rfl | hgt
  · exact hlt
  · exact absurd h (List.lt_irrefl _)
  · exact absurd h (List.lt_asymm (bytes_lt_of_lt hgt))

end GatewayStack.ByteOrder
