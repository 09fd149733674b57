import GatewayStack.Proofs.KeyedMethods
import GatewayStack.Project.Decode
import GatewayStack.Template.Basic

/-!
# What is read repeats no name

A text may name a field twice, and the reader keeps the last value then. So no
mapping in a value that was read has a name twice, and neither has any in a
project or a template that is read from a text. That is what a merge needs of
the values it is given (`Json.Keyed`), and what is asked of a template whose
deployments are looked for.
-/

namespace GatewayStack

namespace Json

/-- No mapping in the value has a name twice, inside lists neither. -/
inductive Tidy : Json → Prop
  | null : Tidy .null
  | bool (b : Bool) : Tidy (.bool b)
  | num (n : Number) : Tidy (.num n)
  | str (s : String) : Tidy (.str s)
  | arr {items : List Json} (h : ∀ item ∈ items, Tidy item) : Tidy (.arr items)
  | obj {fields : Fields Json} (distinct : Fields.Distinct fields)
      (h : ∀ entry ∈ fields, Tidy entry.2) : Tidy (.obj fields)

theorem Tidy.keyed {value : Json} (h : value.Tidy) : value.Keyed := by
  induction h with
  | null | bool | num | str | arr => exact keyed_of_plain rfl
  | obj distinct _ ih => exact keyed_obj distinct ih

namespace Parser

variable {fuel depth : Nat} {text rest : List Char}

theorem tidy_value_succ
    (hitems : ∀ depth text items rest, Parser.items fuel depth text
      = some (items, rest) →
      ∀ item ∈ items, item.Tidy)
    (hmembers : ∀ depth text entries rest,
      members fuel depth text = some (entries, rest) →
      ∀ entry ∈ entries, entry.2.Tidy) {v : Json}
    (h : value (fuel + 1) depth text = some (v, rest)) : v.Tidy := by
  rw [value] at h
  split at h
  · cases h
  · obtain ⟨read, -, heq⟩ := Option.map_eq_some_iff.mp h
    cases heq
    exact .str _
  · split at h
    · cases h
    · split at h
      · cases h
        exact .arr (by simp)
      · obtain ⟨read, hread, heq⟩ := Option.map_eq_some_iff.mp h
        cases heq
        exact .arr (hitems _ _ _ _ hread)
  · split at h
    · cases h
    · split at h
      · cases h
        exact .obj Fields.distinct_nil (by simp)
      · obtain ⟨read, hread, heq⟩ := Option.map_eq_some_iff.mp h
        cases heq
        refine .obj (Fields.distinct_setAll Fields.distinct_nil _)
          fun entry hentry => ?_
        rcases Fields.mem_setAll hentry with hmem | hmem
        · cases hmem
        · exact hmembers _ _ _ _ hread entry hmem
  all_goals
    obtain ⟨read, -, heq⟩ := Option.map_eq_some_iff.mp h
    cases heq
    constructor

theorem tidy_items_succ
    (hvalue : ∀ depth text v rest,
      value fuel depth text = some (v, rest) → v.Tidy)
    (hitems : ∀ depth text items rest, Parser.items fuel depth text
      = some (items, rest) →
      ∀ item ∈ items, item.Tidy) {items : List Json}
    (h : Parser.items (fuel + 1) depth text = some (items, rest)) :
    ∀ item ∈ items, item.Tidy := by
  rw [Parser.items] at h
  split at h
  · cases h
  · next v after hread =>
    have hfirst := hvalue _ _ _ _ hread
    split at h
    · cases h
      exact List.forall_mem_singleton.mpr hfirst
    · obtain ⟨more, hmore, heq⟩ := Option.map_eq_some_iff.mp h
      cases heq
      exact List.forall_mem_cons.mpr ⟨hfirst, hitems _ _ _ _ hmore⟩
    · cases h

theorem tidy_members_succ
    (hvalue : ∀ depth text v rest,
      value fuel depth text = some (v, rest) → v.Tidy)
    (hmembers : ∀ depth text entries rest,
      members fuel depth text = some (entries, rest) →
      ∀ entry ∈ entries, entry.2.Tidy) {entries : List (String × Json)}
    (h : members (fuel + 1) depth text = some (entries, rest)) :
    ∀ entry ∈ entries, entry.2.Tidy := by
  rw [members] at h
  split at h
  · split at h
    · cases h
    · split at h
      · split at h
        · cases h
        · next v after hread =>
          have hfirst := hvalue _ _ _ _ hread
          split at h
          · cases h
            exact List.forall_mem_singleton.mpr hfirst
          · obtain ⟨more, hmore, heq⟩ := Option.map_eq_some_iff.mp h
            cases heq
            exact List.forall_mem_cons.mpr ⟨hfirst, hmembers _ _ _ _ hmore⟩
          · cases h
      · cases h
  · cases h

theorem tidy (fuel : Nat) :
    (∀ depth text v rest, value fuel depth text = some (v, rest) → v.Tidy) ∧
      (∀ depth text items rest, Parser.items fuel depth text
        = some (items, rest) →
        ∀ item ∈ items, item.Tidy) ∧
      ∀ depth text entries rest, members fuel depth text
        = some (entries, rest) →
        ∀ entry ∈ entries, entry.2.Tidy := by
  induction fuel with
  | zero =>
      refine ⟨fun depth text v rest h => ?_, fun depth text items rest h => ?_,
        fun depth text entries rest h => ?_⟩
      · rw [value] at h; cases h
      · rw [Parser.items] at h; cases h
      · rw [members] at h; cases h
  | succ fuel ih =>
      obtain ⟨hvalue, hitems, hmembers⟩ := ih
      exact ⟨fun _ _ _ _ => tidy_value_succ hitems hmembers,
        fun _ _ _ _ => tidy_items_succ hvalue hitems,
        fun _ _ _ _ => tidy_members_succ hvalue hmembers⟩

end Parser

theorem tidy_of_parse? {text : String} {value : Json}
    (h : parse? text = some value) : value.Tidy := by
  unfold parse? parseChars at h
  split at h
  · next v rest hread =>
      split at h
      · obtain rfl := Option.some.inj h
        exact (Parser.tidy _).1 _ _ _ _ hread
      · cases h
  · cases h

theorem Tidy.distinct {fields : Fields Json} (h : (Json.obj fields).Tidy) :
    Fields.Distinct fields := by
  cases h with
  | obj distinct _ => exact distinct

theorem Tidy.mem {fields : Fields Json} (h : (Json.obj fields).Tidy)
    {entry : String × Json} (hentry : entry ∈ fields) : entry.2.Tidy := by
  cases h with
  | obj _ hfields => exact hfields entry hentry

@[simp] theorem tidy_str (s : String) : (Json.str s).Tidy := .str s

@[simp] theorem tidy_arr {items : List Json} :
    (Json.arr items).Tidy ↔ ∀ item ∈ items, item.Tidy := by
  refine ⟨fun h => ?_, .arr⟩
  cases h with
  | arr h => exact h

@[simp] theorem tidy_obj {fields : Fields Json} :
    (Json.obj fields).Tidy ↔ Fields.Distinct fields ∧ ∀ entry ∈ fields,
      entry.2.Tidy :=
  ⟨fun h => ⟨h.distinct, fun _ => h.mem⟩, fun ⟨distinct, h⟩ => .obj distinct h⟩

theorem Tidy.get? {fields : Fields Json} (h : (Json.obj fields).Tidy)
    {name : String} {value : Json}
    (hvalue : Fields.get? fields name = some value) : value.Tidy :=
  h.mem (Fields.mem_of_get? hvalue)

end Json

/-! ## A configuration file -/

namespace Document

theorem tidy_items? {items read : List Json} (h : items? items = some read)
    (hitems : ∀ item ∈ items, ∀ value, value? item = some value → value.Tidy) :
    ∀ item ∈ read, item.Tidy := by
  induction items generalizing read with
  | nil =>
      cases h
      exact fun item hitem => absurd hitem List.not_mem_nil
  | cons item rest ih =>
      obtain ⟨hfirst, hrest⟩ := List.forall_mem_cons.mp hitems
      rw [items?] at h
      split at h
      · next value more hvalue hmore =>
          cases h
          exact List.forall_mem_cons.mpr ⟨hfirst _ hvalue, ih hmore hrest⟩
      · cases h

/-- Keys are read as they are, or not at all. -/
theorem keys_fields? {fields read : List (String × Json)}
    (h : fields? fields = some read) :
    Fields.keys read = Fields.keys fields := by
  induction fields generalizing read with
  | nil =>
      cases h
      rfl
  | cons entry rest ih =>
      rw [fields?] at h
      split at h
      · next name value more hname hvalue hmore =>
          cases h
          unfold key? at hname
          split at hname
          · cases hname
            rw [Fields.keys_cons, Fields.keys_cons, ih hmore]
          · cases hname
      · cases h

theorem tidy_fields? {fields read : List (String × Json)}
    (h : fields? fields = some read) (hfields : ∀ entry ∈ fields, ∀ value,
      value? entry.2 = some value → value.Tidy) :
    ∀ entry ∈ read, entry.2.Tidy := by
  induction fields generalizing read with
  | nil =>
      cases h
      exact fun entry hentry => absurd hentry List.not_mem_nil
  | cons entry rest ih =>
      obtain ⟨hfirst, hrest⟩ := List.forall_mem_cons.mp hfields
      rw [fields?] at h
      split at h
      · next name value more _ hvalue hmore =>
          cases h
          exact List.forall_mem_cons.mpr ⟨hfirst _ hvalue, ih hmore hrest⟩
      · cases h

theorem tidy_value? {file value : Json} (tidy : file.Tidy)
    (h : value? file = some value) : value.Tidy := by
  induction tidy generalizing value with
  | null | bool | num =>
      cases h
      constructor
  | str s =>
      obtain ⟨read, -, rfl⟩ := Option.map_eq_some_iff.mp h
      exact .str read
  | arr _ ih =>
      obtain ⟨read, hread, rfl⟩ := Option.map_eq_some_iff.mp h
      exact .arr (tidy_items? hread fun item hitem _ => ih item hitem)
  | obj distinct _ ih =>
      obtain ⟨read, hread, rfl⟩ := Option.map_eq_some_iff.mp h
      refine .obj ?_ (tidy_fields? hread fun entry hentry _ => ih entry hentry)
      unfold Fields.Distinct
      rw [keys_fields? hread]
      exact distinct

end Document

/-! ## A project -/

namespace Project

variable {α : Type} {fields : Fields Json} {name : String}

theorem optional_eq_some {read : Json → Option α} {a : α}
    (h : optional fields name read = some (some a)) :
    ∃ value, Fields.get? fields name = some value ∧ read value = some a := by
  unfold optional at h
  split at h
  · cases h
  · cases h
  · next value _ hvalue =>
      obtain ⟨b, hb, heq⟩ := Option.map_eq_some_iff.mp h
      cases heq
      exact ⟨value, hvalue, hb⟩

theorem withDefault_eq_some {otherwise a : α} {read : Json → Option α}
    (h : withDefault fields name otherwise read = some a) :
    a = otherwise ∨ ∃ value, Fields.get? fields name = some value ∧
      read value = some a := by
  unfold withDefault at h
  split at h
  · exact Or.inl (Option.some.inj h).symm
  · next value hvalue => exact Or.inr ⟨value, hvalue, h⟩

theorem keyed_gateway? {value : Json} {gateway : GatewaySettings}
    (tidy : value.Tidy) (h : gateway? value = some gateway) :
    gateway.Keyed := by
  obtain ⟨fields, hfields, h⟩ := Option.bind_eq_some_iff.mp h
  obtain rfl := Json.fields?_eq_some.mp hfields
  obtain ⟨restApiId, hrestApiId, h⟩ := Option.bind_eq_some_iff.mp h
  obtain ⟨rootResourceId, hroot, h⟩ := Option.bind_eq_some_iff.mp h
  obtain ⟨resources, hresources, h⟩ := Option.bind_eq_some_iff.mp h
  obtain ⟨_, -, h⟩ := Option.bind_eq_some_iff.mp h
  obtain ⟨_, -, h⟩ := Option.bind_eq_some_iff.mp h
  obtain ⟨_, -, h⟩ := Option.bind_eq_some_iff.mp h
  obtain ⟨_, -, h⟩ := Option.bind_eq_some_iff.mp h
  obtain rfl := Option.some.inj h
  refine ⟨?_, ?_, fun entry hentry => ?_⟩
  · rintro id rfl
    obtain ⟨found, hfound, heq⟩ := optional_eq_some hrestApiId
    obtain rfl := Option.some.inj heq
    exact (tidy.get? hfound).keyed
  · rintro id rfl
    obtain ⟨found, hfound, heq⟩ := optional_eq_some hroot
    obtain rfl := Option.some.inj heq
    exact (tidy.get? hfound).keyed
  · rcases withDefault_eq_some hresources with rfl | ⟨found, hfound, hread⟩
    · cases hentry
    · obtain ⟨inner, hinner, rfl⟩ := Option.map_eq_some_iff.mp hread
      obtain rfl := Json.fields?_eq_some.mp hinner
      exact ((tidy.get? hfound).mem (Fields.mem_sorted hentry)).keyed

theorem keyed_settings? {value : Json} {settings : ProviderSettings}
    (tidy : value.Tidy) (h : settings? value = some settings) :
    settings.gateway.Keyed := by
  obtain ⟨fields, hfields, h⟩ := Option.bind_eq_some_iff.mp h
  obtain rfl := Json.fields?_eq_some.mp hfields
  obtain ⟨_, -, h⟩ := Option.bind_eq_some_iff.mp h
  obtain ⟨_, -, h⟩ := Option.bind_eq_some_iff.mp h
  obtain ⟨_, -, h⟩ := Option.bind_eq_some_iff.mp h
  obtain ⟨_, -, h⟩ := Option.bind_eq_some_iff.mp h
  obtain ⟨_, -, h⟩ := Option.bind_eq_some_iff.mp h
  obtain ⟨_, -, h⟩ := Option.bind_eq_some_iff.mp h
  obtain ⟨gateway, hgateway, h⟩ := Option.bind_eq_some_iff.mp h
  obtain rfl := Option.some.inj h
  rcases withDefault_eq_some hgateway with rfl | ⟨found, hfound, hread⟩
  · exact GatewaySettings.keyed_empty
  · exact keyed_gateway? (tidy.get? hfound) hread

/-- A project that is read from a file repeats no name in any of the values that
a compilation takes over from it. -/
theorem keyed_of_load? {text : String} {file : Json} {project : Project}
    (hfile : Json.parse? text = some file) (h : load? file = some project)
    (token : String) :
    (project.provider token).gateway.Keyed ∧
      ∀ descriptor ∈ project.descriptors, descriptor.Keyed := by
  obtain ⟨value, hvalue, h⟩ := Option.bind_eq_some_iff.mp h
  have tidy : value.Tidy :=
    Document.tidy_value? (Json.tidy_of_parse? hfile) hvalue
  obtain ⟨fields, hfields, h⟩ := Option.bind_eq_some_iff.mp h
  obtain rfl := Json.fields?_eq_some.mp hfields
  obtain ⟨_, -, h⟩ := Option.bind_eq_some_iff.mp h
  obtain ⟨settings, hsettings, h⟩ := Option.bind_eq_some_iff.mp h
  obtain ⟨descriptors, hdescriptors, h⟩ := Option.bind_eq_some_iff.mp h
  obtain rfl := Option.some.inj h
  refine ⟨?_, fun descriptor hdescriptor => ?_⟩
  · rcases withDefault_eq_some hsettings with rfl | ⟨found, hfound, hread⟩
    · exact GatewaySettings.keyed_empty
    · exact keyed_settings? (tidy.get? hfound) hread
  · rcases withDefault_eq_some hdescriptors with rfl | ⟨custom, hcustom, hread⟩
    · cases hdescriptor
    obtain ⟨inner, hinner, hread⟩ := Option.bind_eq_some_iff.mp hread
    obtain rfl := Json.fields?_eq_some.mp hinner
    rcases withDefault_eq_some hread with rfl | ⟨list, hlist, hitems⟩
    · cases hdescriptor
    have tidyList := (tidy.get? hcustom).get? hlist
    cases list <;> cases hitems
    exact (Json.tidy_arr.mp tidyList descriptor hdescriptor).keyed

end Project

/-! ## A template -/

theorem Template.distinct_takeSection {head taken left : Fields Json}
    {name : String} (tidy : (Json.obj head).Tidy)
    (h : takeSection head name = .ok (taken, left)) :
    Fields.Distinct taken := by
  unfold takeSection at h
  split at h
  · cases h
    exact Fields.distinct_nil
  · cases h
    exact Fields.distinct_nil
  · next fields hfields =>
      cases h
      exact (tidy.get? hfields).distinct
  · cases h

/-- A template that is read from a text has no id twice. -/
theorem Template.distinct_of_ofText {text : String} {template : Template}
    (h : ofText text = .ok template) : Fields.Distinct template.resources := by
  unfold ofText at h
  split at h
  · cases h
  · next value hvalue =>
      have tidy := Json.tidy_of_parse? hvalue
      have hread := mapError_eq_ok.mp h
      cases value with
      | obj document =>
          obtain ⟨⟨resources, rest⟩, hresources, hread⟩ := bind_eq_ok.mp hread
          obtain ⟨⟨outputs, head⟩, -, hread⟩ := bind_eq_ok.mp hread
          obtain rfl := Except.ok.inj hread
          exact distinct_takeSection tidy hresources
      | _ => cases hread

end GatewayStack
