import GatewayStack.Proofs.Ink
import GatewayStack.Proofs.Reading
import Mathlib.Data.List.DropRight

/-!
# Text with strings put in as they are

A text that is put together from fixed parts and strings between quotes is the
text of a value only if the strings can stand between quotes as they are. That
is shown here to be exact: such a text is read as the value that it was meant to
be if and only if no string in it has a quote, a backslash or a control
character, and no mapping has a name twice (`parseChars_written_iff`).

That it takes no more is a matter of following the reader. That it takes no less
is not obvious, for a stray quote ends one string and starts another one
somewhere else, and what is read then could be anything. The argument is one of
size: reading uses up the weight of what is read, and the text has just enough
ink for its value when nothing in it has to be escaped.
-/

open GatewayStack.Json.Parser

namespace GatewayStack.Json

/-- A value of strings, lists and mappings in which every string and
name is plain. -/
inductive Plain : Json → Prop
  | str {s : String} (h : PlainText s) : Plain (.str s)
  | arr {items : List Json} (h : ∀ item ∈ items, Plain item) :
    Plain (.arr items)
  | obj {fields : Fields Json} (names : ∀ entry ∈ fields, PlainText entry.1)
      (h : ∀ entry ∈ fields, Plain entry.2) : Plain (.obj fields)

/-! ## Values written out with raw strings -/

/-- The string between quotes, as it is. -/
def raw (s : String) : List Char := '"' :: s.toList ++ ['"']

/-- A field with its text: blanks in front of the name, and between the colon
and the value. -/
structure Member where
  lead : List Char
  name : String
  gap : List Char
  value : Json
  text : List Char

namespace Member

def entry (member : Member) : String × Json := (member.name, member.value)

def chars (member : Member) : List Char :=
  member.lead ++ raw member.name ++ ':' :: member.gap ++ member.text

/-- The fields with commas in between, up to the closing brace. -/
def listChars : List Member → List Char
  | [] => ['\x7d']
  | [member] => member.chars ++ ['\x7d']
  | member :: next :: rest => member.chars ++ ',' :: listChars (next :: rest)

def Spaced (member : Member) : Prop :=
  (∀ c ∈ member.lead, isBlank c = true) ∧ ∀ c ∈ member.gap, isBlank c = true

/-- A field with a string as it is. -/
def string (lead : List Char) (name : String) (gap : List Char)
    (s : String) : Member :=
  ⟨lead, name, gap, .str s, raw s⟩

end Member

/-- The text is the value written out with raw strings, within so many levels of
nesting. Lists have one item, and mappings at least one field. -/
inductive Written : Nat → Json → List Char → Prop
  | str {depth : Nat} (s : String) : Written depth (.str s) (raw s)
  | arr {depth : Nat} {item : Json} {text : List Char}
      (h : Written depth item text) :
      Written (depth + 1) (.arr [item]) ('[' :: text ++ [']'])
  | obj {depth : Nat} {members : List Member} (nonempty : members ≠ [])
      (spaced : ∀ member ∈ members, member.Spaced)
      (h : ∀ member ∈ members, Written depth member.value member.text) :
      Written (depth + 1) (.obj (members.map Member.entry))
        ('\x7b' :: Member.listChars members)

/-! ## Reading what is plain -/

@[simp] theorem plain_str {s : String} : (Json.str s).Plain ↔ PlainText s := by
  refine ⟨fun h => ?_, .str⟩
  cases h with
  | str h => exact h

@[simp] theorem plain_arr {items : List Json} :
    (Json.arr items).Plain ↔ ∀ item ∈ items, item.Plain := by
  refine ⟨fun h => ?_, .arr⟩
  cases h with
  | arr h => exact h

@[simp] theorem plain_obj {fields : Fields Json} :
    (Json.obj fields).Plain ↔ ∀ entry ∈ fields, PlainText entry.1 ∧
      entry.2.Plain := by
  refine ⟨fun h => ?_, fun h =>
    .obj (fun entry he => (h entry he).1) fun entry he => (h entry he).2⟩
  cases h with
  | obj names h => exact fun entry he => ⟨names entry he, h entry he⟩

theorem Member.written_string {depth : Nat} {lead gap : List Char}
    (hlead : ∀ c ∈ lead, isBlank c = true) (hgap : ∀ c ∈ gap, isBlank c = true)
    (name s : String) :
    (string lead name gap s).Spaced ∧
      Written depth (string lead name gap s).value
        (string lead name gap s).text :=
  ⟨⟨hlead, hgap⟩, .str s⟩

/-- A mapping is written out by its members. -/
theorem Written.ofMembers {depth : Nat} (members : List Member)
    (nonempty : members ≠ []) (h : ∀ member ∈ members, member.Spaced ∧
      Written depth member.value member.text) :
    Written (depth + 1) (.obj (members.map Member.entry))
      ('\x7b' :: Member.listChars members) :=
  .obj nonempty (fun member hmem => (h member hmem).1)
    fun member hmem => (h member hmem).2

/-- The fields of a mapping of strings, with blanks behind the colons only. -/
def Member.strings (gap : List Char) (fields : Fields String) : List Member :=
  fields.map fun (name, s) => string [] name gap s

theorem Written.ofStrings {depth : Nat} {gap : List Char}
    (hgap : ∀ c ∈ gap, isBlank c = true) (fields : Fields String)
    (nonempty : fields ≠ []) :
    Written (depth + 1) (.obj (Fields.mapValues Json.str fields))
      ('\x7b' :: Member.listChars (Member.strings gap fields)) := by
  have hentries : (Member.strings gap fields).map Member.entry
      = Fields.mapValues Json.str fields :=
    List.map_map
  rw [← hentries]
  refine .ofMembers _ (List.map_eq_nil_iff.not.mpr nonempty)
    (List.forall_mem_map.mpr ?_)
  exact fun (name, s) _ => Member.written_string (by simp) hgap name s

theorem Written.head {depth : Nat} {v : Json} {text : List Char}
    (h : Written depth v text) :
    ∃ c more, text = c :: more ∧ isBlank c = false ∧ c ≠ ']' := by
  cases h with
  | str s => exact ⟨'"', _, rfl, by decide, by decide⟩
  | arr => exact ⟨'[', _, rfl, by decide, by decide⟩
  | obj => exact ⟨'\x7b', _, rfl, by decide, by decide⟩

namespace Parser

theorem blank_nil : ∀ c ∈ [], isBlank c = true := List.forall_mem_nil _

theorem blank_space : ∀ c ∈ [' '], isBlank c = true :=
  List.forall_mem_singleton.mpr rfl

theorem skipBlanks_append {blanks : List Char}
    (h : ∀ c ∈ blanks, isBlank c = true) (text : List Char) :
    skipBlanks (blanks ++ text) = skipBlanks text :=
  List.dropWhile_append_of_pos h

theorem skipBlanks_cons {c : Char} (h : isBlank c = false) (text : List Char) :
    skipBlanks (c :: text) = c :: text :=
  List.dropWhile_cons_of_neg (by simp [h])

theorem skipBlanks_skipBlanks (text : List Char) :
    skipBlanks (skipBlanks text) = skipBlanks text :=
  List.dropWhile_idempotent _ _

theorem value_skipBlanks (fuel depth : Nat) (text : List Char) :
    value fuel depth (skipBlanks text) = value fuel depth text := by
  cases fuel with
  | zero => rw [value, value]
  | succ fuel => rw [value, value, skipBlanks_skipBlanks]

theorem members_skipBlanks (fuel depth : Nat) (text : List Char) :
    members fuel depth (skipBlanks text) = members fuel depth text := by
  cases fuel with
  | zero => rw [members, members]
  | succ fuel => rw [members, members, skipBlanks_skipBlanks]

theorem stringChars_plain {fuel : Nat} {chars : List Char}
    (h : ∀ c ∈ chars, PlainChar c) (hfuel : chars.length < fuel)
    (rest : List Char) :
    stringChars fuel (chars ++ '"' :: rest) = some (chars, rest) := by
  induction chars generalizing fuel with
  | nil =>
      cases fuel with
      | zero => cases hfuel
      | succ fuel => rw [List.nil_append, stringChars, if_pos rfl]
  | cons c more ih =>
      obtain ⟨⟨quote, backslash, control⟩, hmore⟩ := List.forall_mem_cons.mp h
      cases fuel with
      | zero => cases hfuel
      | succ fuel =>
          rw [List.cons_append, stringChars, if_neg quote, if_neg backslash,
            if_neg (Nat.not_lt.mpr control),
            ih hmore (Nat.lt_of_succ_lt_succ hfuel)]
          rfl

theorem string_plain {fuel : Nat} {s : String} (h : PlainText s)
    (hfuel : s.toList.length < fuel) (rest : List Char) :
    string fuel (s.toList ++ '"' :: rest) = some (s, rest) := by
  unfold string
  rw [stringChars_plain h hfuel]
  exact congrArg (fun t => some (t, rest)) String.ofList_toList

/-- With enough steps, the value is read off the text in front of anything. -/
def Reads (depth : Nat) (v : Json) (text : List Char) : Prop :=
  ∀ fuel rest, 2 * text.length ≤ fuel →
    value fuel depth (text ++ rest) = some (v, rest)

theorem reads_raw (depth : Nat) {s : String} (h : PlainText s) :
    Reads depth (.str s) (raw s) := by
  intro fuel rest hfuel
  have hlength : (raw s).length = s.toList.length + 2 := by simp [raw]
  obtain ⟨fuel, rfl⟩ : ∃ more, fuel = more + 1 := ⟨fuel - 1, by omega⟩
  have htext : raw s ++ rest = '"' :: (s.toList ++ '"' :: rest) := by simp [raw]
  rw [htext, value, skipBlanks_cons (by decide)]
  show (string (fuel + 1) (s.toList ++ '"' :: rest)).map _ = _
  rw [string_plain h (by omega)]
  rfl

theorem value_bracket {c : Char} (blank : isBlank c = false) (hne : c ≠ ']')
    (fuel depth : Nat) (text : List Char) :
    value (fuel + 1) (depth + 1) ('[' :: c :: text)
      = (items fuel depth (c :: text)).map fun (items, rest) =>
        (.arr items, rest) := by
  rw [value, skipBlanks_cons (by decide)]
  simp only [skipBlanks_cons blank]
  split
  · next heq => exact absurd (List.cons.inj heq).1 hne
  · rfl

theorem value_brace {text : List Char} (fuel depth : Nat)
    (h : ∀ more, skipBlanks text ≠ '\x7d' :: more) :
    value (fuel + 1) (depth + 1) ('\x7b' :: text)
      = (members fuel depth text).map fun (entries, rest) =>
          (.obj (Fields.ofEntries entries), rest) := by
  rw [value, skipBlanks_cons (by decide)]
  simp only
  rw [members_skipBlanks]

theorem reads_arr {depth : Nat} {item : Json} {text : List Char}
    (written : Written depth item text) (h : Reads depth item text) :
    Reads (depth + 1) (.arr [item]) ('[' :: text ++ [']']) := by
  intro fuel rest hfuel
  obtain ⟨c, more, rfl, blank, bracket⟩ := written.head
  simp only [List.length_append, List.length_cons, List.length_nil] at hfuel
  obtain ⟨fuel, rfl⟩ : ∃ less, fuel = less + 2 := ⟨fuel - 2, by omega⟩
  have htext : '[' :: (c :: more) ++ [']'] ++ rest
      = '[' :: c :: (more ++ ']' :: rest) := by simp
  have hitem : value fuel depth (c :: (more ++ ']' :: rest))
      = some (item, ']' :: rest) :=
    h fuel _ (by simp only [List.length_cons]; omega)
  rw [htext, value_bracket blank bracket, items, hitem]
  simp only [skipBlanks_cons (c := ']') (by decide)]
  rfl

/-- What stands behind a member, up to the end of its mapping. -/
theorem members_chars {depth fuel : Nat} {member : Member}
    (plain : PlainText member.name) (spaced : member.Spaced)
    (h : Reads depth member.value member.text)
    (hfuel : 2 * member.chars.length ≤ fuel + 1) (rest : List Char) :
    members (fuel + 1) depth (member.chars ++ rest) =
      match skipBlanks rest with
      | '\x7d' :: rest => some ([member.entry], rest)
      | ',' :: rest =>
        (members fuel depth rest).map fun (more, rest) =>
          (member.entry :: more, rest)
      | _ => none := by
  obtain ⟨lead, name, gap, v, text⟩ := member
  obtain ⟨hlead, hgap⟩ := spaced
  have htext : Member.chars ⟨lead, name, gap, v, text⟩ ++ rest
      = lead ++ '"' :: (name.toList ++ '"' :: ':' ::
        (gap ++ (text ++ rest))) := by
    simp [Member.chars, raw]
  have hlength : (Member.chars ⟨lead, name, gap, v, text⟩).length
      = lead.length + (name.toList.length + 3) + gap.length + text.length := by
    simp only [Member.chars, raw, List.length_append, List.length_cons,
      List.length_nil]
    omega
  have hvalue : value fuel depth (gap ++ (text ++ rest)) = some (v, rest) := by
    rw [← value_skipBlanks, skipBlanks_append hgap, value_skipBlanks]
    exact h fuel rest (show 2 * text.length ≤ fuel by omega)
  have hname : string (fuel + 1) (name.toList ++
        '"' :: ':' :: (gap ++ (text ++ rest)))
      = some (name, ':' :: (gap ++ (text ++ rest))) :=
    string_plain plain (show name.toList.length < fuel + 1 by omega) _
  rw [htext, members, skipBlanks_append hlead, skipBlanks_cons (by decide)]
  simp only [hname, skipBlanks_cons (c := ':') (by decide), hvalue]
  rfl

theorem members_listChars {depth : Nat} {list : List Member}
    (nonempty : list ≠ []) (plain : ∀ member ∈ list, PlainText member.name)
    (spaced : ∀ member ∈ list, member.Spaced)
    (h : ∀ member ∈ list, Reads depth member.value member.text) {fuel : Nat}
    (hfuel : 2 * (Member.listChars list).length ≤ fuel) (rest : List Char) :
    members fuel depth (Member.listChars list ++ rest)
      = some (list.map Member.entry, rest) := by
  induction list generalizing fuel with
  | nil => exact absurd rfl nonempty
  | cons member more ih =>
      obtain ⟨hplain, plain⟩ := List.forall_mem_cons.mp plain
      obtain ⟨hspaced, spaced⟩ := List.forall_mem_cons.mp spaced
      obtain ⟨hreads, h⟩ := List.forall_mem_cons.mp h
      cases more with
      | nil =>
          simp only [Member.listChars, List.length_append, List.length_cons,
            List.length_nil] at hfuel
          obtain ⟨fuel, rfl⟩ : ∃ less, fuel = less + 1 := ⟨fuel - 1, by omega⟩
          rw [Member.listChars, List.append_assoc,
            members_chars hplain hspaced hreads (by omega),
            List.singleton_append, skipBlanks_cons (by decide)]
          rfl
      | cons next others =>
          simp only [Member.listChars, List.length_append,
            List.length_cons] at hfuel
          obtain ⟨fuel, rfl⟩ : ∃ less, fuel = less + 1 := ⟨fuel - 1, by omega⟩
          have hmore := ih (List.cons_ne_nil _ _) plain spaced h
            (show 2 * (Member.listChars (next :: others)).length ≤
              fuel by omega)
          rw [Member.listChars, List.append_assoc,
            members_chars hplain hspaced hreads (by omega), List.cons_append,
            skipBlanks_cons (by decide)]
          simp only [hmore]
          rfl

theorem skipBlanks_listChars {list : List Member} (nonempty : list ≠ [])
    (spaced : ∀ member ∈ list, member.Spaced) (rest : List Char) :
    ∃ more, skipBlanks (Member.listChars list ++ rest) = '"' :: more := by
  cases list with
  | nil => exact absurd rfl nonempty
  | cons member others =>
      obtain ⟨hlead, -⟩ := spaced member List.mem_cons_self
      obtain ⟨after, hafter⟩ : ∃ after,
          Member.listChars (member :: others) ++ rest
            = member.lead ++ '"' :: after := by
        cases others <;> simp [Member.listChars, Member.chars, raw]
      exact ⟨after, by rw [hafter, skipBlanks_append hlead,
        skipBlanks_cons (by decide)]⟩

/-- What is plain and repeats no name is read as it is written. -/
theorem reads_of_written {depth : Nat} {v : Json} {text : List Char}
    (h : Written depth v text) (plain : v.Plain) (tidy : v.Tidy) :
    Reads depth v text := by
  induction h with
  | str s =>
      cases plain with
      | str plain => exact reads_raw _ plain
  | arr written ih =>
      cases plain with
      | arr plain =>
          have hitem := ih (plain _ List.mem_cons_self)
            (tidy_arr.mp tidy _ List.mem_cons_self)
          exact reads_arr written hitem
  | @obj depth list nonempty spaced _ ih =>
      cases plain with
      | obj names plain =>
          intro fuel rest hfuel
          rw [List.length_cons] at hfuel
          obtain ⟨fuel, rfl⟩ : ∃ less, fuel = less + 1 := ⟨fuel - 1, by omega⟩
          have hnames := List.forall_mem_map.mp names
          have hreads : ∀ member ∈ list,
              Reads depth member.value member.text := by
            intro member hmem
            have hentry := List.mem_map_of_mem (f := Member.entry) hmem
            exact ih member hmem (plain _ hentry) (tidy.mem hentry)
          have hopen : ∀ more,
              skipBlanks (Member.listChars list ++ rest) ≠ '\x7d' :: more := by
            intro more heq
            obtain ⟨after, hafter⟩ := skipBlanks_listChars nonempty spaced rest
            rw [hafter] at heq
            cases heq
          rw [List.cons_append, value_brace _ _ hopen,
            members_listChars nonempty hnames spaced hreads (by omega)]
          show some (Json.obj (Fields.setAll [] _), rest) = _
          rw [Fields.setAll_of_distinct tidy.distinct]
          rfl

end Parser

/-! ## The ink of what is written out -/

theorem ink_raw (s : String) : ink (raw s) = ink s.toList + 2 := by
  have quote : ink ['"'] = 1 := by decide
  unfold raw
  rw [ink_append, ink_cons, quote]
  omega

theorem Member.ink_chars {member : Member} (spaced : member.Spaced) :
    ink member.chars = ink member.name.toList + 3 + ink member.text := by
  have colon : ink [':'] = 1 := by decide
  unfold Member.chars
  rw [List.append_assoc, List.append_assoc, ink_append, ink_append,
    List.cons_append, ink_cons, ink_append, ink_blank spaced.1,
    ink_blank spaced.2, ink_raw, colon]
  omega

theorem Member.ink_listChars {member : Member} {rest : List Member}
    (spaced : member.Spaced) :
    ink (listChars (member :: rest))
      = ink member.name.toList + 3 + ink member.text + 1 +
      (if rest = [] then 0 else ink (listChars rest)) := by
  have comma : ink [','] = 1 := by decide
  have brace : ink ['\x7d'] = 1 := by decide
  cases rest with
  | nil =>
      rw [if_pos rfl]
      show ink (member.chars ++ ['\x7d']) = _
      rw [ink_append, ink_chars spaced, brace]
  | cons next others =>
      rw [listChars, ink_append, ink_cons, ink_chars spaced, comma,
        if_neg (List.cons_ne_nil _ _)]
      omega

/-- The members of a mapping, once this is known of their values. -/
theorem Member.ink_le_fieldsWeight {list : List Member}
    (spaced : ∀ member ∈ list, member.Spaced)
    (h : ∀ member ∈ list, ink member.text ≤ weight member.value) :
    (if list = [] then 0 else ink (listChars list)) ≤
      fieldsWeight (list.map entry) := by
  induction list with
  | nil => exact Nat.le_refl _
  | cons member rest ih =>
      obtain ⟨hspaced, spaced⟩ := List.forall_mem_cons.mp spaced
      obtain ⟨hmember, h⟩ := List.forall_mem_cons.mp h
      have hrest := ih spaced h
      have hname := ink_le_textWeight member.name.toList
      rw [if_neg (List.cons_ne_nil _ _), ink_listChars hspaced, List.map_cons]
      change _ ≤ textWeight member.name.toList + 3 + weight member.value + 1 + _
      omega

theorem Written.ink_le {depth : Nat} {v : Json} {text : List Char}
    (h : Written depth v text) : ink text ≤ weight v := by
  induction h with
  | str s =>
      rw [ink_raw, weight]
      exact Nat.add_le_add_right (ink_le_textWeight _) 2
  | arr written ih =>
      have opening : ink ['['] = 1 := by decide
      have closing : ink [']'] = 1 := by decide
      rw [List.cons_append, ink_cons, ink_append, opening, closing, weight,
        itemsWeight, itemsWeight]
      omega
  | obj nonempty spaced _ ih =>
      have hmembers := Member.ink_le_fieldsWeight spaced ih
      have brace : ink ['\x7b'] = 1 := by decide
      rw [if_neg nonempty] at hmembers
      rw [ink_cons, brace, weight]
      omega

theorem Member.plain_of_fieldsWeight_le {list : List Member}
    (spaced : ∀ member ∈ list, member.Spaced)
    (h : ∀ member ∈ list, ink member.text ≤ weight member.value)
    (light : fieldsWeight (list.map entry) ≤ if list = [] then 0
      else ink (listChars list)) :
    ∀ member ∈ list, PlainText member.name ∧
      weight member.value ≤ ink member.text := by
  induction list with
  | nil => exact fun member hmem => absurd hmem List.not_mem_nil
  | cons member rest ih =>
      obtain ⟨hspaced, spaced⟩ := List.forall_mem_cons.mp spaced
      obtain ⟨hmember, h⟩ := List.forall_mem_cons.mp h
      -- No part is lighter than its text, so none of them can be
      -- heavier either.
      have hrest := ink_le_fieldsWeight spaced h
      have hname := ink_le_textWeight member.name.toList
      rw [if_neg (List.cons_ne_nil _ _), ink_listChars hspaced,
        List.map_cons] at light
      change textWeight member.name.toList + 3 + weight member.value + 1 +
        _ ≤ _ at light
      refine List.forall_mem_cons.mpr ⟨⟨plain_of_textWeight_le ?_, ?_⟩,
        ih spaced h ?_⟩ <;> omega

/-- What weighs no more than its text has nothing in it to escape. -/
theorem Written.plain_of_weight_le {depth : Nat} {v : Json} {text : List Char}
    (h : Written depth v text) (light : weight v ≤ ink text) : v.Plain := by
  induction h with
  | str s =>
      rw [ink_raw, weight] at light
      exact .str (plain_of_textWeight_le (Nat.le_of_add_le_add_right light))
  | arr written ih =>
      have opening : ink ['['] = 1 := by decide
      have closing : ink [']'] = 1 := by decide
      rw [List.cons_append, ink_cons, ink_append, opening, closing,
        weight, itemsWeight, itemsWeight] at light
      exact .arr (List.forall_mem_singleton.mpr (ih (by omega)))
  | @obj depth list nonempty spaced written ih =>
      have brace : ink ['\x7b'] = 1 := by decide
      rw [ink_cons, brace, weight] at light
      have hplain := Member.plain_of_fieldsWeight_le spaced
        (fun member hmem => (written member hmem).ink_le)
        (by rw [if_neg nonempty]; omega)
      exact .obj (List.forall_mem_map.mpr
        fun member hmem => (hplain member hmem).1) (List.forall_mem_map.mpr
        fun member hmem => ih member hmem (hplain member hmem).2)

/-- A value written out with raw strings is read back exactly when all of its
strings are plain and none of its mappings has a name twice. -/
theorem parseChars_written_iff {v : Json} {text : List Char}
    (h : Written maxDepth v text) :
    parseChars text = some v ↔ v.Plain ∧ v.Tidy := by
  refine ⟨fun hread =>
    ⟨h.plain_of_weight_le (weight_le_of_parseChars hread), ?_⟩,
    fun ⟨plain, tidy⟩ => ?_⟩
  · have hparse : parse? (String.ofList text) = some v := by
      rwa [parse?, String.toList_ofList]
    exact tidy_of_parse? hparse
  · have hread := Parser.reads_of_written h plain tidy (2 * text.length + 2)
      [] (by omega)
    rw [List.append_nil] at hread
    unfold parseChars
    rw [hread]
    rfl

end GatewayStack.Json
