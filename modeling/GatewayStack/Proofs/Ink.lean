import GatewayStack.Json.Parser
import Mathlib.Data.List.TakeWhile

/-!
# How much text a value takes

Every value that is read uses up at least as much ink as the value weighs, where
blanks are without ink and a character that has to be escaped between quotes
weighs two (`weight_le_of_parseChars`). So much can be said of any text, however
little it looks like what was meant.

The reader is followed once: what it takes for a part of a value is a front
piece of the text, and the part weighs no more than the ink of that piece.
-/

open GatewayStack.Json.Parser

namespace GatewayStack.Json

/-- A character that stands for itself between quotes. -/
def PlainChar (c : Char) : Prop := c ≠ '"' ∧ c ≠ '\\' ∧ 32 ≤ c.toNat

instance (c : Char) : Decidable (PlainChar c) :=
  inferInstanceAs (Decidable (_ ∧ _ ∧ _))

/-- A text of such characters. -/
def PlainText (s : String) : Prop := ∀ c ∈ s.toList, PlainChar c

instance (s : String) : Decidable (PlainText s) :=
  List.decidableBAll PlainChar s.toList

/-! ## Ink and weight -/

/-- How much ink a text has: the number of its characters that are not blank. -/
def ink (text : List Char) : Nat := text.countP fun c => !isBlank c

/-- The least ink that a character takes between quotes. -/
def charWeight (c : Char) : Nat := if PlainChar c then ink [c] else 2

/-- The same for a whole text. -/
def textWeight : List Char → Nat
  | [] => 0
  | c :: rest => charWeight c + textWeight rest

mutual

/-- The least ink that a value takes, as far as it matters here: of the values
that are neither strings nor made of other ones nothing is asked. -/
def weight : Json → Nat
  | .null | .bool _ | .num _ => 0
  | .str s => textWeight s.toList + 2
  | .arr items => itemsWeight items + 1
  | .obj fields => fieldsWeight fields + 1

def itemsWeight : List Json → Nat
  | [] => 0
  | item :: rest => weight item + 1 + itemsWeight rest

def fieldsWeight : List (String × Json) → Nat
  | [] => 0
  | (name, value) :: rest =>
    textWeight name.toList + 3 + weight value + 1 + fieldsWeight rest

end

theorem ink_append (a b : List Char) : ink (a ++ b) = ink a + ink b :=
  List.countP_append

theorem ink_cons (c : Char) (text : List Char) :
    ink (c :: text) = ink [c] + ink text :=
  ink_append [c] text

theorem ink_blank {text : List Char} (h : ∀ c ∈ text, isBlank c = true) :
    ink text = 0 := by
  refine List.countP_eq_zero.mpr fun c hc => ?_
  simp [h c hc]

theorem ink_le_of_suffix {a b : List Char} (h : a <:+ b) : ink a ≤ ink b :=
  h.sublist.countP_le

theorem ink_skipBlanks (text : List Char) :
    ink (skipBlanks text) = ink text := by
  have hsplit :=
    congrArg ink (List.takeWhile_append_dropWhile (p := isBlank) (l := text))
  rw [ink_append, ink_blank fun c hc => List.mem_takeWhile_imp hc,
    Nat.zero_add] at hsplit
  exact hsplit

theorem ink_le_charWeight (c : Char) : ink [c] ≤ charWeight c := by
  unfold charWeight
  split
  · exact Nat.le_refl _
  · exact (List.countP_le_length).trans (by simp)

theorem charWeight_le (c : Char) : charWeight c ≤ 2 := by
  unfold charWeight
  split
  · exact (List.countP_le_length).trans (by simp)
  · exact Nat.le_refl _

theorem ink_le_textWeight (text : List Char) : ink text ≤ textWeight text := by
  induction text with
  | nil => exact Nat.le_refl _
  | cons c rest ih =>
      rw [ink_cons, textWeight]
      exact Nat.add_le_add (ink_le_charWeight c) ih

/-- A text that weighs no more than its ink has nothing to escape. -/
theorem plain_of_textWeight_le {text : List Char}
    (h : textWeight text ≤ ink text) :
    ∀ c ∈ text, PlainChar c := by
  induction text with
  | nil => exact fun c hc => absurd hc List.not_mem_nil
  | cons c rest ih =>
      rw [ink_cons, textWeight] at h
      have hone := ink_le_charWeight c
      have hrest := ink_le_textWeight rest
      refine List.forall_mem_cons.mpr ⟨?_, ih (by omega)⟩
      by_contra special
      have heavy : charWeight c = 2 := if_neg special
      have light : ink [c] ≤ 1 := List.countP_le_length
      omega

/-! ## What the reader uses up -/

namespace Parser

variable {text rest : List Char}

theorem word_suffix {ws : List Char} (h : word ws text = some rest) :
    rest <:+ text := by
  induction ws generalizing text with
  | nil => exact Option.some.inj h ▸ List.suffix_rfl
  | cons w ws ih =>
      cases text with
      | nil => cases h
      | cons c cs =>
          rw [word] at h
          split at h
          · exact (ih h).trans (List.suffix_cons c cs)
          · cases h

theorem hex4_suffix {n : Nat} (h : hex4 text = some (n, rest)) :
    rest <:+ text := by
  unfold hex4 at h
  split at h
  · obtain ⟨_, -, h⟩ := Option.bind_eq_some_iff.mp h
    obtain ⟨_, -, h⟩ := Option.bind_eq_some_iff.mp h
    obtain ⟨_, -, h⟩ := Option.bind_eq_some_iff.mp h
    obtain ⟨_, -, h⟩ := Option.bind_eq_some_iff.mp h
    obtain ⟨-, rfl⟩ := Prod.mk.inj (Option.some.inj h)
    exact ⟨[_, _, _, _], rfl⟩
  · cases h

theorem unicodeEscape_suffix {c : Char}
    (h : unicodeEscape text = some (c, rest)) : rest <:+ text := by
  unfold unicodeEscape at h
  split at h
  · cases h
  · next unit after hunit =>
      have hafter := hex4_suffix hunit
      split at h
      · split at h
        · next pair =>
            split at h
            · next low last hlow =>
                split at h
                · obtain ⟨-, rfl⟩ := Prod.mk.inj (Option.some.inj h)
                  exact (hex4_suffix hlow).trans
                    ((List.suffix_append ['\\', 'u'] pair).trans hafter)
                · cases h
            · cases h
        · cases h
      · split at h
        · cases h
        · obtain ⟨-, rfl⟩ := Prod.mk.inj (Option.some.inj h)
          exact hafter

/-- An escape takes a mark besides its backslash. -/
theorem ink_escape {c : Char} (h : escape text = some (c, rest)) :
    ink rest + 1 ≤ ink text := by
  unfold escape at h
  split at h
  case h_9 after =>
    have hafter := ink_le_of_suffix (unicodeEscape_suffix h)
    rw [ink_cons]
    have mark : ink ['u'] = 1 := by decide
    omega
  case h_10 => cases h
  all_goals
    obtain ⟨-, rfl⟩ := Prod.mk.inj (Option.some.inj h)
    rw [ink_cons, Nat.add_comm]
    exact Nat.add_le_add_right (by decide) _

/-- The characters of a string and the quote behind them. -/
theorem ink_stringChars {fuel : Nat} {chars : List Char}
    (h : stringChars fuel text = some (chars, rest)) :
    textWeight chars + 1 + ink rest ≤ ink text := by
  induction fuel generalizing text chars with
  | zero => cases h
  | succ fuel ih =>
      cases text with
      | nil => cases h
      | cons c after =>
          rw [stringChars] at h
          rw [ink_cons]
          split at h
          · next hquote =>
              obtain ⟨rfl, rfl⟩ := Prod.mk.inj (Option.some.inj h)
              rw [hquote]
              exact Nat.le_refl _
          · next hquote =>
              split at h
              · next hslash =>
                  split at h
                  · next e last hescape =>
                      obtain ⟨⟨more, last'⟩, hmore, heq⟩ :=
                        Option.map_eq_some_iff.mp h
                      obtain ⟨rfl, rfl⟩ := Prod.mk.inj heq
                      -- The backslash and the mark behind it pay for a
                      -- weight of two.
                      have hused := ink_escape hescape
                      have hrest := ih hmore
                      have hweight := charWeight_le e
                      have slash : ink ['\\'] = 1 := by decide
                      rw [hslash, textWeight, slash]
                      omega
                  · cases h
              · next hslash =>
                  split at h
                  · cases h
                  · next hcontrol =>
                      obtain ⟨⟨more, last⟩, hmore, heq⟩ :=
                        Option.map_eq_some_iff.mp h
                      obtain ⟨rfl, rfl⟩ := Prod.mk.inj heq
                      have hrest := ih hmore
                      -- What gets here stands for itself.
                      have hweight : charWeight c = ink [c] :=
                        if_pos ⟨hquote, hslash, Nat.not_lt.mp hcontrol⟩
                      rw [textWeight, hweight]
                      omega

theorem ink_string {fuel : Nat} {s : String}
    (h : string fuel text = some (s, rest)) :
    textWeight s.toList + 1 + ink rest ≤ ink text := by
  obtain ⟨⟨chars, last⟩, hchars, heq⟩ := Option.map_eq_some_iff.mp h
  obtain ⟨rfl, rfl⟩ := Prod.mk.inj heq
  rw [String.toList_ofList]
  exact ink_stringChars hchars

theorem digits_suffix {found : List Nat} (h : digits text = (found, rest)) :
    rest <:+ text := by
  obtain ⟨-, rfl⟩ := Prod.mk.inj h
  exact List.dropWhile_suffix _

theorem fraction_suffix {found : Option (List Nat)}
    (h : fraction text = some (found, rest)) : rest <:+ text := by
  unfold fraction at h
  split at h
  · next after =>
      split at h
      · cases h
      · next hdigits =>
          obtain ⟨-, rfl⟩ := Prod.mk.inj (Option.some.inj h)
          exact (digits_suffix hdigits).trans (List.suffix_cons '.' after)
  · obtain ⟨-, rfl⟩ := Prod.mk.inj (Option.some.inj h)
    exact List.suffix_rfl

theorem power_suffix {found : Option Int}
    (h : power text = some (found, rest)) : rest <:+ text := by
  unfold power at h
  split at h
  · next c after =>
      split at h
      · split at h
        next negative last hsign =>
          have hlast : last <:+ c :: after := by
            split at hsign <;> obtain ⟨-, rfl⟩ := Prod.mk.inj hsign
            · exact List.suffix_append [c, '+'] _
            · exact List.suffix_append [c, '-'] _
            · exact List.suffix_cons c _
          split at h
          · cases h
          · next hdigits =>
              obtain ⟨-, rfl⟩ := Prod.mk.inj (Option.some.inj h)
              exact (digits_suffix hdigits).trans hlast
      · obtain ⟨-, rfl⟩ := Prod.mk.inj (Option.some.inj h)
        exact List.suffix_rfl
  · obtain ⟨-, rfl⟩ := Prod.mk.inj (Option.some.inj h)
    exact List.suffix_rfl

theorem unsigned_suffix {negative : Bool} {n : Number}
    (h : unsigned negative text = some (n, rest)) : rest <:+ text := by
  unfold unsigned at h
  split at h
  · cases h
  · next hwhole =>
      split at h
      · cases h
      · split at h
        · cases h
        · next hfraction =>
            split at h
            · cases h
            · next hpower =>
                have hrest := (power_suffix hpower).trans
                  ((fraction_suffix hfraction).trans (digits_suffix hwhole))
                split at h <;>
                  obtain ⟨_, -, heq⟩ := Option.map_eq_some_iff.mp h <;>
                  obtain ⟨-, rfl⟩ := Prod.mk.inj heq <;>
                  exact hrest

theorem number_suffix {n : Number} (h : number text = some (n, rest)) :
    rest <:+ text := by
  unfold number at h
  split at h
  · next after => exact (unsigned_suffix h).trans (List.suffix_cons '-' after)
  · exact unsigned_suffix h

end Parser

theorem fieldsWeight_set (fields : Fields Json) (name : String) (value : Json) :
    fieldsWeight (Fields.set fields name value)
      ≤ fieldsWeight fields + (textWeight name.toList + 3 +
        weight value + 1) := by
  induction fields with
  | nil => simp [Fields.set, fieldsWeight]
  | cons entry rest ih =>
      obtain ⟨k, v⟩ := entry
      rw [Fields.set]
      split
      · next heq =>
          rw [heq, fieldsWeight, fieldsWeight]
          omega
      · rw [fieldsWeight, fieldsWeight]
        omega

/-- What is left of repeated names weighs no more than all of them. -/
theorem fieldsWeight_setAll (fields entries : Fields Json) :
    fieldsWeight (Fields.setAll fields entries) ≤ fieldsWeight fields +
      fieldsWeight entries := by
  induction entries generalizing fields with
  | nil => exact Nat.le_refl _
  | cons entry rest ih =>
      obtain ⟨k, v⟩ := entry
      rw [Fields.setAll, fieldsWeight]
      have hset := fieldsWeight_set fields k v
      have hrest := ih (Fields.set fields k v)
      omega

namespace Parser

variable {fuel depth : Nat} {text rest : List Char}

/-- A text that begins, after blanks, with a visible mark has the ink of the
mark and of what is behind it. -/
theorem ink_of_skipBlanks {c : Char} {after : List Char}
    (h : skipBlanks text = c :: after) (visible : isBlank c = false) :
    ink text = 1 + ink after := by
  rw [← ink_skipBlanks, h, ink_cons]
  simp [ink, visible]

theorem ink_value_succ
    (hitems : ∀ depth text items rest, Parser.items fuel depth text
      = some (items, rest) →
      itemsWeight items + ink rest ≤ ink text)
    (hmembers : ∀ depth text entries rest,
      members fuel depth text = some (entries, rest) →
      fieldsWeight entries + ink rest ≤ ink text) {v : Json}
    (h : value (fuel + 1) depth text = some (v, rest)) :
    weight v + ink rest ≤ ink text := by
  have skipped : ∀ {last : List Char}, last <:+ skipBlanks text →
      ink last ≤ ink text := by
    intro last hlast
    exact (ink_le_of_suffix hlast).trans_eq (ink_skipBlanks text)
  rw [value] at h
  split at h
  case h_1 => cases h
  case h_2 after hskip =>
    obtain ⟨⟨s, last⟩, hstring, heq⟩ := Option.map_eq_some_iff.mp h
    obtain ⟨rfl, rfl⟩ := Prod.mk.inj heq
    have hink := ink_string hstring
    rw [ink_of_skipBlanks hskip (by decide), weight]
    omega
  case h_3 after hskip =>
    rw [ink_of_skipBlanks hskip (by decide)]
    split at h
    · cases h
    · split at h
      · next hclose =>
          obtain ⟨rfl, rfl⟩ := Prod.mk.inj (Option.some.inj h)
          rw [ink_of_skipBlanks hclose (by decide), weight, itemsWeight]
          omega
      · obtain ⟨⟨found, last⟩, hfound, heq⟩ := Option.map_eq_some_iff.mp h
        obtain ⟨rfl, rfl⟩ := Prod.mk.inj heq
        have hink := hitems _ _ _ _ hfound
        rw [ink_skipBlanks] at hink
        rw [weight]
        omega
  case h_4 after hskip =>
    rw [ink_of_skipBlanks hskip (by decide)]
    split at h
    · cases h
    · split at h
      · next hclose =>
          obtain ⟨rfl, rfl⟩ := Prod.mk.inj (Option.some.inj h)
          rw [ink_of_skipBlanks hclose (by decide), weight, fieldsWeight]
          omega
      · obtain ⟨⟨found, last⟩, hfound, heq⟩ := Option.map_eq_some_iff.mp h
        obtain ⟨rfl, rfl⟩ := Prod.mk.inj heq
        have hink := hmembers _ _ _ _ hfound
        -- A repeated name is read like any other one, and only then dropped.
        have hset := fieldsWeight_setAll [] found
        rw [ink_skipBlanks] at hink
        rw [fieldsWeight] at hset
        rw [weight, Fields.ofEntries]
        omega
  case h_5 after hskip | h_6 after hskip | h_7 after hskip =>
    obtain ⟨last, hword, heq⟩ := Option.map_eq_some_iff.mp h
    obtain ⟨rfl, rfl⟩ := Prod.mk.inj heq
    rw [weight, Nat.zero_add]
    exact skipped (hskip ▸ (word_suffix hword).trans (List.suffix_cons _ _))
  case h_8 =>
    obtain ⟨⟨n, last⟩, hnumber, heq⟩ := Option.map_eq_some_iff.mp h
    obtain ⟨rfl, rfl⟩ := Prod.mk.inj heq
    rw [weight, Nat.zero_add]
    exact skipped (number_suffix hnumber)

theorem ink_items_succ
    (hvalue : ∀ depth text v rest, value fuel depth text = some (v, rest) →
      weight v + ink rest ≤ ink text)
    (hitems : ∀ depth text items rest, Parser.items fuel depth text
      = some (items, rest) →
      itemsWeight items + ink rest ≤ ink text) {items : List Json}
    (h : Parser.items (fuel + 1) depth text = some (items, rest)) :
    itemsWeight items + ink rest ≤ ink text := by
  rw [Parser.items] at h
  split at h
  · cases h
  · next item after hitem =>
      have hfirst := hvalue _ _ _ _ hitem
      split at h
      · next hclose =>
          obtain ⟨rfl, rfl⟩ := Prod.mk.inj (Option.some.inj h)
          rw [ink_of_skipBlanks hclose (by decide)] at hfirst
          rw [itemsWeight, itemsWeight]
          omega
      · next hcomma =>
          obtain ⟨⟨more, last⟩, hmore, heq⟩ := Option.map_eq_some_iff.mp h
          obtain ⟨rfl, rfl⟩ := Prod.mk.inj heq
          have hrest := hitems _ _ _ _ hmore
          rw [ink_of_skipBlanks hcomma (by decide)] at hfirst
          rw [itemsWeight]
          omega
      · cases h

theorem ink_members_succ
    (hvalue : ∀ depth text v rest, value fuel depth text = some (v, rest) →
      weight v + ink rest ≤ ink text)
    (hmembers : ∀ depth text entries rest,
      members fuel depth text = some (entries, rest) →
      fieldsWeight entries + ink rest ≤ ink text) {entries : List
        (String × Json)}
    (h : members (fuel + 1) depth text = some (entries, rest)) :
    fieldsWeight entries + ink rest ≤ ink text := by
  rw [members] at h
  split at h
  · next hopen =>
      rw [ink_of_skipBlanks hopen (by decide)]
      split at h
      · cases h
      · next name after hname =>
          have hstring := ink_string hname
          split at h
          · next hcolon =>
              rw [ink_of_skipBlanks hcolon (by decide)] at hstring
              split at h
              · cases h
              · next v last hv =>
                  have hfirst := hvalue _ _ _ _ hv
                  split at h
                  · next hclose =>
                      obtain ⟨rfl, rfl⟩ := Prod.mk.inj (Option.some.inj h)
                      rw [ink_of_skipBlanks hclose (by decide)] at hfirst
                      rw [fieldsWeight, fieldsWeight]
                      omega
                  · next hcomma =>
                      obtain ⟨⟨more, end'⟩, hmore, heq⟩ :=
                        Option.map_eq_some_iff.mp h
                      obtain ⟨rfl, rfl⟩ := Prod.mk.inj heq
                      have hrest := hmembers _ _ _ _ hmore
                      rw [ink_of_skipBlanks hcomma (by decide)] at hfirst
                      rw [fieldsWeight]
                      omega
                  · cases h
          · cases h
  · cases h

/-- Reading uses up the weight of what is read, at least. -/
theorem ink_read (fuel : Nat) :
    (∀ depth text v rest, value fuel depth text = some (v, rest) →
      weight v + ink rest ≤ ink text) ∧
      (∀ depth text items rest, Parser.items fuel depth text
        = some (items, rest) →
        itemsWeight items + ink rest ≤ ink text) ∧
      ∀ depth text entries rest, members fuel depth text
        = some (entries, rest) →
        fieldsWeight entries + ink rest ≤ ink text := by
  induction fuel with
  | zero =>
      refine ⟨fun depth text v rest h => ?_, fun depth text items rest h => ?_,
        fun depth text entries rest h => ?_⟩
      · rw [value] at h; cases h
      · rw [Parser.items] at h; cases h
      · rw [members] at h; cases h
  | succ fuel ih =>
      obtain ⟨hvalue, hitems, hmembers⟩ := ih
      exact ⟨fun _ _ _ _ => ink_value_succ hitems hmembers,
        fun _ _ _ _ => ink_items_succ hvalue hitems,
        fun _ _ _ _ => ink_members_succ hvalue hmembers⟩

end Parser

theorem weight_le_of_parseChars {text : List Char} {v : Json}
    (h : parseChars text = some v) : weight v ≤ ink text := by
  unfold parseChars at h
  split at h
  · next found rest hread =>
      split at h
      · obtain rfl := Option.some.inj h
        have hink := (ink_read _).1 _ _ _ _ hread
        omega
      · cases h
  · cases h

end GatewayStack.Json
