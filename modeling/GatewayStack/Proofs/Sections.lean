import GatewayStack.Proofs.Checks
import GatewayStack.Proofs.Fields
import GatewayStack.Proofs.Grammar
import GatewayStack.Schema.Section

/-!
# What the readers of a section accept

Each reader of a section against the part of the grammar that it checks. The
readers return what they read and say what is wrong; the grammar only says what
is right, so what is proved of most readers is when they succeed. A result is
spoken of where a later check looks at it.

`null` is dealt with once, in `get?_eq_some`, and every reader goes through it.
-/

namespace GatewayStack

open Grammar (Given Present Required Optional Closed Exclusive IsText IsTruth
  IsTexts IsMapping IsMapTo IsIntrinsic IsCount IsResourceName ExactlyOne
  IsChoice IsSource Spells)

/-! ## Values -/

namespace Json

theorem string?_eq_some {value : Json} {s : String} :
    value.string? = some s ↔ value = .str s := by
  cases value <;> simp [string?]

theorem bool?_eq_some {value : Json} {b : Bool} :
    value.bool? = some b ↔ value = .bool b := by
  cases value <;> simp [bool?]

theorem fields?_eq_some {value : Json} {fields : Fields Json} :
    value.fields? = some fields ↔ value = .obj fields := by
  cases value <;> simp [fields?]

theorem items?_eq_some {value : Json} {items : List Json} :
    value.items? = some items ↔ value = .arr items := by
  cases value <;> simp [items?]

theorem readItems_string?_eq_some {items : List Json} {texts : List String} :
    readItems string? items = some texts ↔ items = texts.map .str := by
  induction items generalizing texts with
  | nil => cases texts <;> simp [readItems]
  | cons item rest ih =>
      rw [readItems]
      cases hitem : item.string? with
      | none =>
          refine ⟨fun h => absurd h (by simp), fun h => ?_⟩
          cases texts with
          | nil => cases h
          | cons text more =>
              obtain ⟨rfl, -⟩ := List.cons.inj h
              cases hitem
      | some text =>
          rw [string?_eq_some.mp hitem, Option.map_eq_some_iff]
          simp only [ih]
          refine ⟨fun ⟨more, hrest, heq⟩ => ?_, fun h => ?_⟩
          · rw [← heq, hrest, List.map_cons]
          · cases texts with
            | nil => cases h
            | cons other more =>
                obtain ⟨hhead, hrest⟩ := List.cons.inj h
                exact ⟨more, hrest, by rw [Json.str.inj hhead]⟩

theorem readFields_isSome_iff {α : Type} {read : Json → Option α}
    {fields : Fields Json} :
    (∃ result, readFields read fields = some result) ↔
      ∀ entry ∈ fields, ∃ a, read entry.2 = some a := by
  induction fields with
  | nil => simp [readFields]
  | cons entry rest ih =>
      obtain ⟨name, value⟩ := entry
      rw [readFields, List.forall_mem_cons, ← ih]
      cases hvalue : read value with
      | none => simp
      | some a => simp

theorem isText_iff {value : Json} : (∃ s, value.string? = some s) ↔
    IsText value := by
  simp only [string?_eq_some, IsText]

theorem isTruth_iff {value : Json} : (∃ b, value.bool? = some b) ↔
    IsTruth value := by
  simp only [bool?_eq_some, IsTruth]

theorem isTexts_iff {value : Json} : (∃ items, value.stringList? = some items) ↔
    IsTexts value := by
  simp only [stringList?, Option.bind_eq_some_iff, items?_eq_some,
    readItems_string?_eq_some]
  exact ⟨fun ⟨texts, _, hvalue, hitems⟩ =>
    ⟨texts, by rw [hvalue, hitems, strings]⟩,
    fun ⟨texts, hvalue⟩ => ⟨texts, _, hvalue, rfl⟩⟩

theorem isMapTo_iff {α : Type} {read : Json → Option α} {shape : Json → Prop}
    (h : ∀ value, (∃ a, read value = some a) ↔ shape value) {value : Json} :
    (∃ result, (value.fields?.bind (readFields read)).map Fields.sorted
      = some result) ↔
      IsMapTo shape value := by
  simp only [Option.map_eq_some_iff, Option.bind_eq_some_iff, fields?_eq_some]
  unfold IsMapTo IsMapping
  simp only [← h, ← readFields_isSome_iff]
  exact ⟨fun ⟨_, entries, ⟨fields, hvalue, hread⟩, _⟩ =>
    ⟨fields, hvalue, entries, hread⟩,
    fun ⟨fields, hvalue, entries, hread⟩ =>
      ⟨_, entries, ⟨fields, hvalue, hread⟩, rfl⟩⟩

theorem isTextMap_iff {value : Json} :
    (∃ result, value.stringMap? = some result) ↔ IsMapTo IsText value :=
  isMapTo_iff fun _ => isText_iff

theorem isTruthMap_iff {value : Json} :
    (∃ result, value.boolMap? = some result) ↔ IsMapTo IsTruth value :=
  isMapTo_iff fun _ => isTruth_iff

theorem natural?_eq_some {n : Number} {k : Nat} :
    n.natural? = some k ↔ k < Nat.pow 2 64 ∧ n = .int k := by
  cases n with
  | real x => simp [Number.natural?]
  | int z =>
      rw [Number.natural?, Number.int.injEq]
      split
      · rw [Option.some.injEq]
        omega
      · refine ⟨fun h => absurd h (by simp), fun h => ?_⟩
        omega

theorem isCount_iff {value : Json} : (∃ n, value.positive? = some n) ↔
    IsCount value := by
  cases value with
  | num n =>
      simp only [positive?, Option.filter_eq_some_iff, natural?_eq_some,
        decide_eq_true_eq]
      refine exists_congr fun k => ?_
      rw [Json.nat, Json.num.injEq, and_comm]
  | _ => simp [positive?, IsCount, Json.nat]

theorem isIntrinsic_iff {value : Json} :
    (∃ result, value.intrinsic? = some result) ↔ IsIntrinsic value := by
  cases value <;> simp [intrinsic?, IsIntrinsic, IsText, IsMapping]

end Json

theorem ReferenceForm.isResourceName_iff {form : ReferenceForm} {value : Json} :
    (∃ name, form.read? value = some name) ↔ IsResourceName form value := by
  refine ⟨fun ⟨name, h⟩ => ?_, fun h => ?_⟩
  · unfold ReferenceForm.read? at h
    split at h
    · exact .literal form _
    · exact .ref _
    · split at h
      · next heq =>
          subst heq
          exact .getAtt _ _
      · cases h
    · cases h
  · cases h with
    | literal form name => exact ⟨.literal name, by cases form <;> rfl⟩
    | ref id => exact ⟨.ref id, rfl⟩
    | getAtt attr id => exact ⟨.getAtt id attr, by simp [ReferenceForm.read?]⟩

namespace Section

variable {α : Type} {s : Section} {name : String}

/-! ## Fields -/

theorem get?_eq_some {value : Json} : s.get? name = some value ↔
    Given s.fields name value := by
  unfold get? Given
  rw [Option.filter_eq_some_iff]
  refine and_congr_right fun _ => ?_
  cases value <;> simp [Json.isNull]

theorem get?_eq_none : s.get? name = none ↔ ¬ Present s.fields name := by
  unfold Present
  simp only [← get?_eq_some, ← Option.isSome_iff_exists]
  rw [Option.not_isSome_iff_eq_none]

theorem has_iff : s.has name = true ↔ Present s.fields name := by
  unfold has Present
  rw [Option.isSome_iff_exists]
  simp only [get?_eq_some]

theorem required_eq_ok {value : Json} :
    s.required name = .ok value ↔ Given s.fields name value := by
  rw [← get?_eq_some, required]
  cases s.get? name <;> simp

theorem read_eq_ok {shape : Shape} {reader : Json → Option α}
    {value : Json} {a : α} :
    s.read shape reader name value = .ok a ↔ reader value = some a := by
  rw [read]
  cases reader value <;> simp

theorem optional_eq_ok {shape : Shape} {reader : Json → Option α}
    {result : Option α} :
    s.optional shape reader name = .ok result ↔
      (¬ Present s.fields name ∧ result = none) ∨
        ∃ value a, Given s.fields name value ∧ reader value = some a ∧
          result = some a := by
  rw [optional]
  cases hget : s.get? name with
  | none =>
      have habsent := get?_eq_none.mp hget
      refine ⟨fun h => Or.inl ⟨habsent, (Except.ok.inj h).symm⟩, fun h => ?_⟩
      rcases h with ⟨-, rfl⟩ | ⟨value, a, hgiven, -⟩
      · rfl
      · exact absurd ⟨value, hgiven⟩ habsent
  | some value =>
      have hgiven := get?_eq_some.mp hget
      show (s.read shape reader name value).map some = _ ↔ _
      rw [map_eq_ok]
      simp only [read_eq_ok]
      refine ⟨fun ⟨a, hread, heq⟩ => Or.inr ⟨value, a, hgiven, hread, heq.symm⟩,
        fun h => ?_⟩
      rcases h with ⟨habsent, -⟩ | ⟨other, a, hother, hread, rfl⟩
      · exact absurd ⟨value, hgiven⟩ habsent
      · rw [← get?_eq_some, hget] at hother
        rw [← Option.some.inj hother] at hread
        exact ⟨a, hread, rfl⟩

/-- A reader that looks at a field only when it is there accepts what the field
may be. -/
theorem succeeds_when_present {x : Except Violation α} {P : Json → Prop}
    (absent : s.get? name = none → Succeeds x)
    (present : ∀ value, s.get? name = some value → (Succeeds x ↔ P value)) :
    Succeeds x ↔ Optional s.fields name P := by
  cases hget : s.get? name with
  | none =>
      refine ⟨fun _ value hgiven => ?_, fun _ => absent hget⟩
      exact absurd ⟨value, hgiven⟩ (get?_eq_none.mp hget)
  | some value =>
      rw [present value hget]
      refine ⟨fun hvalue other hother => ?_, fun hall =>
        hall value (get?_eq_some.mp hget)⟩
      rw [← get?_eq_some, hget] at hother
      rwa [← Option.some.inj hother]

theorem succeeds_optional {shape : Shape} {reader : Json → Option α}
    {P : Json → Prop} (h : ∀ value, (∃ a, reader value = some a) ↔ P value) :
    Succeeds (s.optional shape reader name) ↔ Optional s.fields name P := by
  refine succeeds_when_present (fun hget => ?_) fun value hget => ?_
  · rw [optional, hget]
    exact succeeds_ok none
  · rw [optional, hget, ← h]
    show Succeeds (Except.map some (s.read shape reader name value)) ↔ _
    rw [succeeds_map]
    unfold Succeeds
    simp only [read_eq_ok]

theorem isSome_of_optional {shape : Shape} {reader : Json → Option α}
    {result : Option α} (h : s.optional shape reader name = .ok result) :
    result.isSome ↔ Present s.fields name := by
  rcases optional_eq_ok.mp h with ⟨habsent, rfl⟩ | ⟨value, a, hgiven, -, rfl⟩
  · simp [habsent]
  · exact ⟨fun _ => ⟨value, hgiven⟩, fun _ => rfl⟩

theorem requiredString_eq_ok {text : String} :
    s.requiredString name = .ok text ↔ Given s.fields name (.str text) := by
  unfold requiredString
  simp only [bind_eq_ok, required_eq_ok, read_eq_ok, Json.string?_eq_some]
  exact ⟨fun ⟨_, hgiven, heq⟩ => heq ▸ hgiven, fun h => ⟨_, h, rfl⟩⟩

theorem succeeds_requiredString :
    Succeeds (s.requiredString name) ↔ Required s.fields name IsText := by
  unfold Succeeds Required IsText
  simp only [requiredString_eq_ok]
  exact ⟨fun ⟨text, h⟩ => ⟨_, h, text, rfl⟩,
    fun ⟨_, h, text, heq⟩ => ⟨text, heq ▸ h⟩⟩

theorem string?_eq_ok {result : Option String} :
    s.string? name = .ok result ↔
      (¬ Present s.fields name ∧ result = none) ∨
        ∃ text, Given s.fields name (.str text) ∧ result = some text := by
  unfold string?
  rw [optional_eq_ok]
  simp only [Json.string?_eq_some]
  refine or_congr_right ⟨fun ⟨_, text, hgiven, hvalue, hresult⟩ => ?_,
    fun ⟨text, hgiven, hresult⟩ => ⟨_, text, hgiven, rfl, hresult⟩⟩
  exact ⟨text, hvalue ▸ hgiven, hresult⟩

theorem succeeds_string? : Succeeds (s.string? name) ↔
    Optional s.fields name IsText :=
  succeeds_optional fun _ => Json.isText_iff

theorem succeeds_flag : Succeeds (s.flag name) ↔
    Optional s.fields name IsTruth :=
  succeeds_map.trans (succeeds_optional fun _ => Json.isTruth_iff)

theorem succeeds_intrinsic? : Succeeds (s.intrinsic? name) ↔
    Optional s.fields name IsIntrinsic :=
  succeeds_optional fun _ => Json.isIntrinsic_iff

theorem succeeds_stringList? : Succeeds (s.stringList? name) ↔
    Optional s.fields name IsTexts :=
  succeeds_optional fun _ => Json.isTexts_iff

theorem succeeds_stringMap :
    Succeeds (s.stringMap name) ↔ Optional s.fields name (IsMapTo IsText) :=
  succeeds_map.trans (succeeds_optional fun _ => Json.isTextMap_iff)

theorem succeeds_boolMap :
    Succeeds (s.boolMap name) ↔ Optional s.fields name (IsMapTo IsTruth) :=
  succeeds_map.trans (succeeds_optional fun _ => Json.isTruthMap_iff)

theorem succeeds_resourceName {form : ReferenceForm} :
    Succeeds (s.resourceName form name) ↔
      Required s.fields name (IsResourceName form) := by
  unfold resourceName
  rw [succeeds_bind]
  unfold Succeeds Required
  simp only [required_eq_ok, read_eq_ok, ReferenceForm.isResourceName_iff]

/-! ## Names -/

theorem allowOnly_eq_ok {names : List String} :
    s.allowOnly names = .ok () ↔ Closed s.fields names := by
  unfold allowOnly Closed
  split
  · next found hfound =>
      refine ⟨fun h => absurd h (by simp), fun hall => ?_⟩
      have hmem := hall found (List.mem_of_find?_eq_some hfound)
      have houtside := List.find?_some hfound
      simp [hmem] at houtside
  · next hnone =>
      refine ⟨fun _ other hmem => ?_, fun _ => rfl⟩
      simpa using List.find?_eq_none.mp hnone other hmem

theorem succeeds_allowOnly {names : List String} :
    Succeeds (s.allowOnly names) ↔ Closed s.fields names :=
  ⟨fun ⟨_, h⟩ => allowOnly_eq_ok.mp h, fun h => ⟨(), allowOnly_eq_ok.mpr h⟩⟩

theorem succeeds_exclusive {first second : String} :
    Succeeds (s.exclusive first second) ↔ Exclusive s.fields first second := by
  unfold exclusive Exclusive
  rw [← has_iff, ← has_iff, ← Bool.and_eq_true]
  split
  · next h => simp [h, not_succeeds_error]
  · next h => simp [h, succeeds_ok]

/-! ## Mappings inside -/

theorem nested_eq_ok {value : Json} {inner : Section} :
    s.nested name value = .ok inner ↔
      ∃ fields, value = .obj fields ∧
        ⟨s.service, s.fieldPath name, fields⟩ = inner := by
  unfold nested
  rw [map_eq_ok]
  simp only [read_eq_ok, Json.fields?_eq_some]

/-- A mapping inside is accepted when its fields are, wherever it stands. -/
theorem succeeds_nested {β : Type} {value : Json}
    {f : Section → Except Violation β} {P : Fields Json → Prop}
    (h : ∀ fields, Succeeds (f ⟨s.service, s.fieldPath name, fields⟩) ↔
      P fields) :
    Succeeds (s.nested name value >>= f) ↔ IsMapping P value := by
  rw [succeeds_bind]
  simp only [nested_eq_ok]
  refine ⟨fun ⟨_, ⟨fields, hvalue, hinner⟩, hf⟩ => ⟨fields, hvalue, ?_⟩,
    fun ⟨fields, hvalue, hp⟩ => ⟨_, ⟨fields, hvalue, rfl⟩, (h fields).mpr hp⟩⟩
  rw [← hinner] at hf
  exact (h fields).mp hf

/-- The search for the alternatives that are there, which keeps all of them,
ends with one when no other one is there. -/
theorem filter_has_eq_singleton_iff (s : Section)
    {alternatives : List (String × (String → α))}
    (distinct : (alternatives.map Prod.fst).Nodup)
    {alternative : String × (String → α)} :
    (alternatives.filter fun other => s.has other.1) = [alternative] ↔
      alternative ∈ alternatives ∧ Present s.fields alternative.1 ∧
        ∀ other ∈ alternatives.map Prod.fst, Present s.fields other →
          other = alternative.1 := by
  have mem_found : ∀ other,
      (other ∈ alternatives.filter fun other => s.has other.1) ↔
      other ∈ alternatives ∧ Present s.fields other.1 := by
    intro other
    rw [List.mem_filter, has_iff]
  refine ⟨fun hfound => ?_, fun ⟨hmem, hpresent, honly⟩ => ?_⟩
  · obtain ⟨hmem, hpresent⟩ :=
      (mem_found alternative).mp (hfound ▸ List.mem_cons_self)
    refine ⟨hmem, hpresent, fun other hother hthere => ?_⟩
    obtain ⟨candidate, hcandidate, rfl⟩ := List.mem_map.mp hother
    have hin := (mem_found candidate).mpr ⟨hcandidate, hthere⟩
    rw [hfound] at hin
    rw [List.mem_singleton.mp hin]
  · have hin := (mem_found alternative).mpr ⟨hmem, hpresent⟩
    have hsame : ∀ other ∈ alternatives.filter (fun other => s.has other.1),
        other.1 = alternative.1 := by
      intro other hother
      obtain ⟨hcandidate, hthere⟩ := (mem_found other).mp hother
      exact honly other.1 (List.mem_map_of_mem hcandidate) hthere
    have hnodup : ((alternatives.filter fun other => s.has other.1).map
        Prod.fst).Nodup :=
      distinct.sublist (List.filter_sublist.map Prod.fst)
    generalize (alternatives.filter fun other => s.has other.1)
      = found at hin hsame hnodup ⊢
    cases found with
    | nil => cases hin
    | cons first rest =>
        cases rest with
        | nil => rw [List.mem_singleton.mp hin]
        | cons second rest =>
            have hfirst := hsame first List.mem_cons_self
            have hsecond :=
              hsame second (List.mem_cons_of_mem _ List.mem_cons_self)
            rw [List.map_cons, List.map_cons, hfirst, hsecond] at hnodup
            exact absurd List.mem_cons_self (List.nodup_cons.mp hnodup).1

/-- Exactly one of some alternatives is there when the search for them
ends with one. -/
theorem exactlyOne_iff (s : Section)
    {alternatives : List (String × (String → α))}
    (distinct : (alternatives.map Prod.fst).Nodup) :
    ExactlyOne s.fields (alternatives.map Prod.fst) ↔
      ∃ alternative, (alternatives.filter fun other => s.has other.1)
        = [alternative] ∧
        Required s.fields alternative.1 IsText := by
  simp only [filter_has_eq_singleton_iff s distinct]
  refine ⟨fun ⟨name, hname, hrequired, honly⟩ => ?_,
    fun ⟨alternative, ⟨hmem, _, honly⟩, hrequired⟩ => ?_⟩
  · obtain ⟨alternative, hmem, rfl⟩ := List.mem_map.mp hname
    obtain ⟨value, hgiven, htext⟩ := hrequired
    exact ⟨alternative, ⟨hmem, ⟨value, hgiven⟩, honly⟩, value, hgiven, htext⟩
  · exact ⟨alternative.1, List.mem_map_of_mem hmem, hrequired, honly⟩

theorem oneOf_eq_ok {alternatives : List (String × (String → α))}
    {further : List String} (distinct : (alternatives.map Prod.fst).Nodup)
    {value : Json} {inner : Section} :
    (∃ a, s.oneOf name alternatives further value = .ok (inner, a)) ↔
      ∃ fields, value = .obj fields ∧
        ⟨s.service, s.fieldPath name, fields⟩ = inner ∧
        Closed fields (alternatives.map Prod.fst ++ further) ∧
        ExactlyOne fields (alternatives.map Prod.fst) := by
  unfold oneOf
  simp only [bind_eq_ok, nested_eq_ok]
  refine ⟨fun ⟨a, found, ⟨fields, hvalue, hfound⟩, _, hclosed, h⟩ => ?_,
    fun ⟨fields, hvalue, hinner, hclosed, hone⟩ => ?_⟩
  · subst hfound
    split at h
    · cases h
    · next key build hfilter =>
        obtain ⟨text, hgiven, h⟩ := bind_eq_ok.mp h
        obtain ⟨hinner, -⟩ := Prod.mk.inj (Except.ok.inj h)
        refine ⟨fields, hvalue, hinner, allowOnly_eq_ok.mp hclosed, ?_⟩
        have hrequired := succeeds_requiredString.mp ⟨text, hgiven⟩
        exact (exactlyOne_iff ⟨s.service, s.fieldPath name, fields⟩
          distinct).mpr ⟨(key, build), hfilter, hrequired⟩
    · obtain ⟨-, -, h⟩ := bind_eq_ok.mp h
      cases h
  · obtain ⟨⟨key, build⟩, hfilter, hrequired⟩ :=
      (exactlyOne_iff ⟨s.service, s.fieldPath name, fields⟩ distinct).mp hone
    obtain ⟨text, hgiven⟩ := succeeds_requiredString.mpr hrequired
    refine ⟨build text, _, ⟨fields, hvalue, rfl⟩, (),
      allowOnly_eq_ok.mpr hclosed, ?_⟩
    rw [hfilter, ← hinner]
    exact bind_eq_ok.mpr ⟨text, hgiven, rfl⟩

theorem succeeds_oneOf {alternatives : List (String × (String → α))}
    {further : List String} (distinct : (alternatives.map Prod.fst).Nodup)
    {value : Json} :
    Succeeds (s.oneOf name alternatives further value) ↔
      IsChoice (alternatives.map Prod.fst) further value := by
  refine ⟨fun ⟨(inner, a), h⟩ => ?_, fun ⟨fields, hvalue, hshape⟩ => ?_⟩
  · obtain ⟨fields, hvalue, -, hshape⟩ := (oneOf_eq_ok distinct).mp ⟨a, h⟩
    exact ⟨fields, hvalue, hshape⟩
  · obtain ⟨a, h⟩ := (oneOf_eq_ok distinct).mpr ⟨fields, hvalue, rfl, hshape⟩
    exact ⟨_, h⟩

theorem succeeds_requestPart {value : Json} :
    Succeeds (s.oneOf name requestParts [] value) ↔
      IsChoice Grammar.requestParts [] value :=
  succeeds_oneOf (by decide)

theorem succeeds_urlParam {value : Json} :
    Succeeds (s.oneOf name urlParams [] value) ↔
      IsChoice Grammar.urlParams [] value :=
  succeeds_oneOf (by decide)

theorem succeeds_source {value : Json} : Succeeds (s.source name true value) ↔
    IsSource value := by
  cases value with
  | str text => simp [source, succeeds_ok, IsSource, IsText]
  | obj fields =>
      show Succeeds ((s.oneOf name requestParts [] (.obj fields)).map
        Prod.snd) ↔ _
      rw [succeeds_map, succeeds_requestPart]
      simp [IsSource, IsText]
  | _ => simp [source, not_succeeds_error, IsSource, IsText,
    IsChoice, IsMapping]

/-- Where constants are not allowed a string is refused. -/
theorem succeeds_source_false {value : Json} :
    Succeeds (s.source name false value) ↔
      IsChoice Grammar.requestParts [] value := by
  cases value with
  | obj fields =>
      show Succeeds ((s.oneOf name requestParts [] (.obj fields)).map
        Prod.snd) ↔ _
      rw [succeeds_map, succeeds_requestPart]
  | _ => simp [source, not_succeeds_error, IsChoice, IsMapping]

theorem succeeds_source? {constants : Bool} {P : Json → Prop}
    (h : ∀ value, Succeeds (s.source name constants value) ↔ P value) :
    Succeeds (s.source? name constants) ↔ Optional s.fields name P := by
  refine succeeds_when_present (fun hget => ?_) fun value hget => ?_
  · rw [source?, hget]
    exact succeeds_ok none
  · rw [source?, hget, ← h]
    exact succeeds_map

theorem tableParam_eq_ok {value : Json} {inner : Section} :
    (∃ param, s.oneOf name urlParams ["attributeType"] value
      = .ok (inner, param)) ↔
      ∃ fields, value = .obj fields ∧
        ⟨s.service, s.fieldPath name, fields⟩ = inner ∧
        Closed fields (Grammar.urlParams ++ ["attributeType"]) ∧
        ExactlyOne fields Grammar.urlParams :=
  oneOf_eq_ok (by decide)

theorem succeeds_tableKey? :
    Succeeds (s.tableKey? name) ↔
      Optional s.fields name Grammar.IsTableKey := by
  refine succeeds_when_present (fun hget => ?_) fun value hget => ?_
  · rw [tableKey?, hget]
    exact succeeds_ok none
  rw [tableKey?, hget]
  refine succeeds_bind.trans ⟨fun ⟨(inner, param), hchoice, key, h⟩ => ?_,
    fun ⟨fields, hvalue, hclosed, hone, htype⟩ => ?_⟩
  · obtain ⟨text, htext, -⟩ := bind_eq_ok.mp h
    obtain ⟨fields, hvalue, rfl, hclosed, hone⟩ :=
      tableParam_eq_ok.mp ⟨param, hchoice⟩
    exact ⟨fields, hvalue, hclosed, hone,
      succeeds_requiredString.mp ⟨text, htext⟩⟩
  · obtain ⟨param, hchoice⟩ :=
      tableParam_eq_ok.mpr ⟨fields, hvalue, rfl, hclosed, hone⟩
    obtain ⟨text, htext⟩ :
        Succeeds (Section.requiredString ⟨s.service, s.fieldPath name, fields⟩
          "attributeType") := succeeds_requiredString.mpr htype
    exact ⟨_, hchoice, _, bind_eq_ok.mpr ⟨text, htext, rfl⟩⟩

theorem isSome_of_tableKey? {key : Option TableKey}
    (h : s.tableKey? name = .ok key) :
    key.isSome ↔ Present s.fields name := by
  unfold tableKey? at h
  split at h
  · next hget =>
      rw [← Except.ok.inj h]
      simp [get?_eq_none.mp hget]
  · next value hget =>
      obtain ⟨result, -, h⟩ := bind_eq_ok.mp h
      obtain ⟨text, -, h⟩ := bind_eq_ok.mp h
      rw [← Except.ok.inj h]
      exact ⟨fun _ => ⟨value, get?_eq_some.mp hget⟩, fun _ => rfl⟩

/-! ## Spellings -/

/-- A choice among spellings yields what is spelled. -/
theorem choice_eq_ok {ofString? : String → Option α} {allowed : List String}
    {given : String} {a : α} : s.choice name ofString? allowed given = .ok a ↔
    ofString? given = some a := by
  rw [choice]
  cases ofString? given <;> simp

end Section

end GatewayStack
