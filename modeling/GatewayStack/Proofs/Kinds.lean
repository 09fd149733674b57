import GatewayStack.Stack.Compile
import GatewayStack.Proofs.Fields
import GatewayStack.Proofs.LogicalId

/-!
# Every resource is of the kind that its id names

A stage writes its resources under ids of its own kinds, and each with the type
of that kind as its first field. That is said here once for each stage, as
`Kinded`, and once for folding fragments into a template. What a later stage can
meet in the template then follows from the ids alone: a merge only ever meets a
resource of the same kind, so it keeps the type, and a stage whose kinds are not
asked about can be passed over.

The type is kept as the first field rather than as a look-up, because that form
survives a merge without anything being known of the other fields.
-/

namespace GatewayStack

open LogicalId

/-- The resource has a type, as its first field, and no second one. -/
def HasType (type : String) (resource : Json) : Prop :=
  ∃ rest, resource = .obj (("Type", .str type) :: rest) ∧
    "Type" ∉ Fields.keys rest

theorem HasType.field {type : String} {resource : Json}
    (h : HasType type resource) :
    resource.field? "Type" = some (.str type) := by
  obtain ⟨rest, rfl, -⟩ := h
  simp [Json.field?, Json.fields?, Fields.get?]

theorem hasType_obj {type : String} {rest : Fields Json}
    (h : "Type" ∉ Fields.keys rest) :
    HasType type (.obj (("Type", .str type) :: rest)) := ⟨rest, rfl, h⟩

/-- Merging two resources of one type keeps the type. -/
theorem HasType.merge {type : String} {old new : Json} (hold : HasType type old)
    (hnew : HasType type new) : HasType type (Json.merge old new) := by
  obtain ⟨older, rfl, hfirst⟩ := hold
  obtain ⟨newer, rfl, hsecond⟩ := hnew
  refine ⟨Json.mergeFields older newer, ?_, ?_⟩
  · rw [Json.merge, Json.mergeFields,
      ← Json.mergeFields_cons_of_not_mem hsecond]
    simp [Fields.get?, Fields.set, Json.merge]
  · rw [Json.keys_mergeFields, FirstSeen.mem_union]
    exact not_or.mpr ⟨hfirst, hsecond⟩

/-- Merging a mapping that says nothing of a type keeps the type. -/
theorem HasType.merge_untyped {type : String} {old : Json} {newer : Fields Json}
    (hold : HasType type old) (untyped : "Type" ∉ Fields.keys newer) :
    HasType type (Json.merge old (.obj newer)) := by
  obtain ⟨older, rfl, hfirst⟩ := hold
  refine ⟨Json.mergeFields older newer, ?_, ?_⟩
  · rw [Json.merge, Json.mergeFields_cons_of_not_mem untyped]
  · rw [Json.keys_mergeFields, FirstSeen.mem_union]
    exact not_or.mpr ⟨hfirst, untyped⟩

/-- Every resource stands under an id of one of these kinds and has its type. -/
def Kinded (kinds : Kind → Prop) (resources : Fields Json) : Prop :=
  ∀ id resource, (id, resource) ∈ resources →
    ∃ kind, kinds kind ∧ OfKind kind id ∧ HasType kind.type resource

namespace Kinded

variable {kinds : Kind → Prop} {resources : Fields Json}

theorem nil : Kinded kinds [] := by
  intro id resource h
  cases h

theorem mono {more : Kind → Prop} (h : Kinded kinds resources)
    (le : ∀ kind, kinds kind → more kind) : Kinded more resources := by
  intro id resource hmem
  obtain ⟨kind, hkind, rest⟩ := h id resource hmem
  exact ⟨kind, le kind hkind, rest⟩

theorem of_mem_keys (h : Kinded kinds resources) {id : String}
    (hmem : id ∈ Fields.keys resources) :
    ∃ kind, kinds kind ∧ OfKind kind id := by
  obtain ⟨entry, hentry, rfl⟩ := List.mem_map.mp hmem
  obtain ⟨kind, hkind, hid, -⟩ := h entry.1 entry.2 hentry
  exact ⟨kind, hkind, hid⟩

/-- An id of another kind is not among the names. -/
theorem not_mem_keys (h : Kinded kinds resources) {kind : Kind} {id : String}
    (hid : OfKind kind id) (other : ¬ kinds kind) :
    id ∉ Fields.keys resources := by
  intro hmem
  obtain ⟨found, hkind, hfound⟩ := h.of_mem_keys hmem
  rw [hid.unique hfound] at other
  exact other hkind

theorem get?_eq_none (h : Kinded kinds resources) {kind : Kind} {id : String}
    (hid : OfKind kind id) (other : ¬ kinds kind) :
    Fields.get? resources id = none :=
  Fields.get?_eq_none_iff.mpr (h.not_mem_keys hid other)

/-- The type of a resource is the type of the kind of its id. -/
theorem field_type_iff (h : Kinded kinds resources) {id : String}
    {resource : Json} (hmem : (id, resource) ∈ resources) {kind : Kind} :
    resource.field? "Type" = some (.str kind.type) ↔ OfKind kind id := by
  obtain ⟨found, -, hid, htype⟩ := h id resource hmem
  rw [htype.field]
  refine ⟨fun heq => ?_, fun hkind => ?_⟩
  · rw [← Kind.type_injective (Json.str.inj (Option.some.inj heq))]
    exact hid
  · rw [hid.unique hkind]

theorem cons {kind : Kind} {id : String} {resource : Json} (hkind : kinds kind)
    (hid : OfKind kind id) (htype : HasType kind.type resource)
    (h : Kinded kinds resources) :
    Kinded kinds ((id, resource) :: resources) := by
  intro id' resource' hmem
  rcases List.mem_cons.mp hmem with heq | hmem
  · cases heq
    exact ⟨kind, hkind, hid, htype⟩
  · exact h id' resource' hmem

theorem append {more : Fields Json} (h : Kinded kinds resources)
    (hmore : Kinded kinds more) :
    Kinded kinds (resources ++ more) := by
  intro id resource hmem
  rcases List.mem_append.mp hmem with hmem | hmem
  · exact h id resource hmem
  · exact hmore id resource hmem

theorem map {α : Type} {items : List α} {entry : α → String × Json}
    (h : ∀ item, ∃ kind, kinds kind ∧ OfKind kind (entry item).1 ∧
      HasType kind.type (entry item).2) : Kinded kinds (items.map entry) := by
  intro id resource hmem
  obtain ⟨item, -, heq⟩ := List.mem_map.mp hmem
  have hitem := h item
  rw [heq] at hitem
  exact hitem

theorem setAll {fields entries : Fields Json} (h : Kinded kinds fields)
    (hentries : Kinded kinds entries) :
    Kinded kinds (Fields.setAll fields entries) := by
  intro id resource hmem
  rcases Fields.mem_setAll hmem with hmem | hmem
  · exact h id resource hmem
  · exact hentries id resource hmem

theorem set {fields : Fields Json} {id : String} {resource : Json}
    (h : Kinded kinds fields) {kind : Kind} (hkind : kinds kind)
    (hid : OfKind kind id) (htype : HasType kind.type resource) :
    Kinded kinds (Fields.set fields id resource) := by
  intro id' resource' hmem
  rcases Fields.mem_set hmem with hmem | ⟨rfl, rfl⟩
  · exact h id' resource' hmem
  · exact ⟨kind, hkind, hid, htype⟩

/-- Folding resources in, one by one. A merge meets a resource under the same
id, hence of the same kind, hence of the same type. -/
theorem mergeFields {older newer : Fields Json} (hold : Kinded kinds older)
    (hnew : Kinded kinds newer) :
    Kinded kinds (Json.mergeFields older newer) := by
  induction newer generalizing older with
  | nil => exact hold
  | cons entry rest ih =>
      obtain ⟨id, new⟩ := entry
      obtain ⟨kind, hkind, hid, htype⟩ := hnew id new List.mem_cons_self
      have hrest : Kinded kinds rest :=
        fun id resource hmem => hnew id resource (List.mem_cons_of_mem _ hmem)
      rw [Json.mergeFields]
      refine ih (hold.set hkind hid ?_) hrest
      split
      · next old hfind =>
          obtain ⟨found, -, hfound, hfoundType⟩ :=
            hold id old (Fields.mem_of_get? hfind)
          rw [← hid.unique hfound] at hfoundType
          exact hfoundType.merge htype
      · exact htype

end Kinded

/-! ## Among other resources

A template that was not made here has resources under ids of no kind. What can
still be asked of it is that an id of some kind, where there is one, stands for
a resource of that kind. -/

/-- Whatever stands under an id of some kind has the type of that kind. -/
def Conforming (resources : Fields Json) : Prop :=
  ∀ id resource kind, (id, resource) ∈ resources → OfKind kind id →
    HasType kind.type resource

theorem Kinded.conforming {kinds : Kind → Prop} {resources : Fields Json}
    (h : Kinded kinds resources) : Conforming resources := by
  intro id resource kind hmem hid
  obtain ⟨found, -, hfound, htype⟩ := h id resource hmem
  rwa [hid.unique hfound]

namespace Conforming

variable {resources : Fields Json}

theorem set (h : Conforming resources) {id : String} {resource : Json}
    (htype : ∀ kind, OfKind kind id → HasType kind.type resource) :
    Conforming (Fields.set resources id resource) := by
  intro id' resource' kind hmem hid
  rcases Fields.mem_set hmem with hmem | ⟨rfl, rfl⟩
  · exact h id' resource' kind hmem hid
  · exact htype kind hid

/-- What a merge puts under an id of a kind. -/
theorem hasType_merged (h : Conforming resources) {id : String} {kind : Kind}
    (hid : OfKind kind id) {new : Json} (hnew : HasType kind.type new) :
    HasType kind.type (match Fields.get? resources id with
      | some old => Json.merge old new
      | none => new) := by
  split
  · next old hfind =>
      exact (h id old kind (Fields.mem_of_get? hfind) hid).merge hnew
  · exact hnew

theorem mergeFields {kinds : Kind → Prop} {newer : Fields Json}
    (h : Conforming resources) (hnew : Kinded kinds newer) :
    Conforming (Json.mergeFields resources newer) := by
  induction newer generalizing resources with
  | nil => exact h
  | cons entry rest ih =>
      obtain ⟨id, new⟩ := entry
      obtain ⟨kind, -, hid, htype⟩ := hnew id new List.mem_cons_self
      rw [Json.mergeFields]
      refine ih (h.set fun other hother => ?_) fun id resource hmem =>
        hnew id resource (List.mem_cons_of_mem _ hmem)
      rw [hother.unique hid]
      exact h.hasType_merged hid htype

/-- An entry of another type is under no id of a kind. -/
theorem not_ofKind (h : Conforming resources) {id : String} {resource : Json}
    (hmem : (id, resource) ∈ resources) {kind other : Kind}
    (htype : resource.field? "Type" = some (.str other.type))
    (hid : OfKind kind id) : kind = other := by
  have hkind := (h id resource kind hmem hid).field
  rw [htype] at hkind
  exact (Kind.type_injective (Json.str.inj (Option.some.inj hkind))).symm

end Conforming

end GatewayStack
