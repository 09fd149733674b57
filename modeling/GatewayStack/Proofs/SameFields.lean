import GatewayStack.Proofs.Checks
import GatewayStack.Schema.Descriptor

/-!
# What the readers look at

A reader looks a field of its section up by name, and it names the section's
place in what it complains about. So two sections at one place that have the
same under every name but one are the same to every reader that does not ask for
that name. It is shown here for each reader of a section from the bottom up, and
in the end for everything in the body of a descriptor but its path.

The check for unknown fields is the one that goes through the names themselves.
It comes to the same when the names are the same.
-/

namespace GatewayStack

namespace Section

/-- Two sections at the same place, with the same under every name but one. -/
structure SameBut (name : String) (s t : Section) : Prop where
  service : t.service = s.service
  path : t.path = s.path
  get? : ∀ other ≠ name, t.get? other = s.get? other

namespace SameBut

variable {α : Type} {name other : String} {s t : Section}

/-! ## The place of a section -/

theorem fieldPath (h : SameBut name s t) : t.fieldPath = s.fieldPath := by
  unfold Section.fieldPath
  rw [h.path]

theorem violation (h : SameBut name s t) : t.violation = s.violation := by
  unfold Section.violation
  rw [h.service, h.fieldPath]

theorem clash (h : SameBut name s t) : t.clash = s.clash := by
  unfold Section.clash
  rw [h.service, h.path, h.fieldPath]

theorem read (h : SameBut name s t) :
    @Section.read α t = @Section.read α s := by
  unfold Section.read
  rw [h.violation]

theorem choice (h : SameBut name s t) :
    @Section.choice α t = @Section.choice α s := by
  unfold Section.choice
  rw [h.violation]

theorem nested (h : SameBut name s t) : t.nested = s.nested := by
  unfold Section.nested
  rw [h.service, h.read, h.fieldPath]

theorem oneOf (h : SameBut name s t) :
    @Section.oneOf α t = @Section.oneOf α s := by
  unfold Section.oneOf
  rw [h.nested, h.violation]

theorem source (h : SameBut name s t) : t.source = s.source := by
  unfold Section.source
  rw [h.oneOf, h.violation]

/-! ## One field -/

theorem has (h : SameBut name s t) (hne : other ≠ name) :
    t.has other = s.has other := by
  unfold Section.has
  rw [h.get? other hne]

theorem required (h : SameBut name s t) (hne : other ≠ name) :
    t.required other = s.required other := by
  unfold Section.required
  rw [h.get? other hne, h.violation]

theorem optional (h : SameBut name s t) (hne : other ≠ name) (shape : Shape)
    (reader : Json → Option α) : t.optional shape reader other
    = s.optional shape reader other := by
  unfold Section.optional
  rw [h.get? other hne, h.read]

theorem requiredString (h : SameBut name s t) (hne : other ≠ name) :
    t.requiredString other = s.requiredString other := by
  unfold Section.requiredString
  rw [h.required hne, h.read]

theorem string? (h : SameBut name s t) (hne : other ≠ name) :
    t.string? other = s.string? other := h.optional hne _ _

theorem intrinsic? (h : SameBut name s t) (hne : other ≠ name) :
    t.intrinsic? other = s.intrinsic? other := h.optional hne _ _

theorem stringList? (h : SameBut name s t) (hne : other ≠ name) :
    t.stringList? other = s.stringList? other := h.optional hne _ _

theorem flag (h : SameBut name s t) (hne : other ≠ name) :
    t.flag other = s.flag other := by
  unfold Section.flag
  rw [h.optional hne]

theorem stringMap (h : SameBut name s t) (hne : other ≠ name) :
    t.stringMap other = s.stringMap other := by
  unfold Section.stringMap
  rw [h.optional hne]

theorem boolMap (h : SameBut name s t) (hne : other ≠ name) :
    t.boolMap other = s.boolMap other := by
  unfold Section.boolMap
  rw [h.optional hne]

theorem resourceName (h : SameBut name s t) (hne : other ≠ name)
    (form : ReferenceForm) :
    t.resourceName form other = s.resourceName form other := by
  unfold Section.resourceName
  rw [h.required hne, h.read]

theorem source? (h : SameBut name s t) (hne : other ≠ name) (constants : Bool) :
    t.source? other constants = s.source? other constants := by
  unfold Section.source?
  rw [h.get? other hne, h.source]

theorem tableKey? (h : SameBut name s t) (hne : other ≠ name) :
    t.tableKey? other = s.tableKey? other := by
  unfold Section.tableKey?
  rw [h.get? other hne, h.oneOf]

theorem exclusive (h : SameBut name s t) {first second : String}
    (hfirst : first ≠ name) (hsecond : second ≠ name) :
    t.exclusive first second = s.exclusive first second := by
  unfold Section.exclusive
  rw [h.has hfirst, h.has hsecond, h.clash]

theorem allowOnly (h : SameBut name s t)
    (hkeys : Fields.keys t.fields = Fields.keys s.fields) :
    t.allowOnly = s.allowOnly := by
  unfold Section.allowOnly
  rw [hkeys, h.violation]

end SameBut

end Section

namespace Schema

variable {s t : Section}

open Section

/-! ## Everything but the path -/

theorem readVerb_congr (h : SameBut "path" s t) : readVerb t = readVerb s := by
  unfold readVerb
  rw [h.requiredString (by decide), h.choice]

theorem readCors_congr (h : SameBut "path" s t) : readCors t = readCors s := by
  unfold readCors
  rw [h.get? _ (by decide), h.nested, h.violation]

theorem readAuthorization_congr (h : SameBut "path" s t) :
    readAuthorization t = readAuthorization s := by
  unfold readAuthorization
  rw [h.string? (by decide), h.choice]

theorem readAccess_congr (h : SameBut "path" s t) :
    readAccess t = readAccess s := by
  unfold readAccess
  rw [h.exclusive (by decide) (by decide), h.intrinsic? (by decide),
    h.stringList? (by decide), readAuthorization_congr h, h.violation]

theorem readTemplates_congr (h : SameBut "path" s t) :
    readTemplates t = readTemplates s := by
  unfold readTemplates readRequest readResponse
  rw [h.service, h.get? _ (by decide), h.get? _ (by decide), h.nested]

theorem readStream_congr (h : SameBut "path" s t) :
    readStream t = readStream s := by
  unfold readStream readStreamAction
  rw [h.resourceName (by decide), h.source? (by decide),
    h.string? (by decide), h.choice]

theorem readQueue_congr (h : SameBut "path" s t) :
    readQueue t = readQueue s := by
  unfold readQueue
  rw [h.resourceName (by decide), h.stringMap (by decide),
    h.boolMap (by decide)]

theorem readObject_congr (h : SameBut "path" s t) :
    readObject t = readObject s := by
  unfold readObject readObjectKey
  rw [h.requiredString (by decide), h.choice, h.resourceName (by decide),
    h.required (by decide), h.oneOf, h.violation, h.flag (by decide),
    h.stringMap (by decide)]

theorem readTopic_congr (h : SameBut "path" s t) :
    readTopic t = readTopic s := by
  unfold readTopic
  rw [h.resourceName (by decide)]

theorem readItem_congr (h : SameBut "path" s t) : readItem t = readItem s := by
  have key (name : String) (hne : name ≠ "path") : t.tableKey? name
      = s.tableKey? name :=
    h.tableKey? hne
  unfold readItem
  rw [h.resourceName (by decide), h.requiredString (by decide), h.choice,
    key "hashKey" (by decide), key "rangeKey" (by decide),
    h.string? (by decide), h.violation]

theorem readBus_congr (h : SameBut "path" s t) : readBus t = readBus s := by
  have part (name : String) (hne : name ≠ "path") : t.source? name
      = s.source? name :=
    funext (h.source? hne)
  unfold readBus
  rw [h.resourceName (by decide), h.source, h.required (by decide),
    part "detailType" (by decide), part "detail" (by decide)]

theorem readTarget_congr (h : SameBut "path" s t) :
    readTarget t = readTarget s := by
  unfold readTarget
  rw [h.service, readStream_congr h, readQueue_congr h, readObject_congr h,
    readTopic_congr h, readItem_congr h, readBus_congr h]

/-! ## The path -/

theorem requiredString_of_get? {name text : String}
    (h : s.get? name = some (.str text)) :
    s.requiredString name = .ok text := by
  unfold requiredString required
  rw [h]
  rfl

theorem readBinding_congr (h : SameBut "path" s t) {a b : String}
    (ha : s.get? "path" = some (.str a)) (hb : t.get? "path" = some (.str b)) :
    readBinding t = (readBinding s).map fun binding =>
      { binding with path := b } := by
  unfold readBinding
  rw [requiredString_of_get? ha, requiredString_of_get? hb, readVerb_congr h,
    readCors_congr h, readAccess_congr h, readTemplates_congr h,
    h.flag (by decide), h.intrinsic? (by decide)]
  simp only [map_bind]
  rfl

/-- Bodies that differ in the path alone are read to proxies that differ in it
alone, or are refused for the same reason. -/
theorem readBody_congr (h : SameBut "path" s t)
    (hkeys : Fields.keys t.fields = Fields.keys s.fields) {a b : String}
    (ha : s.get? "path" = some (.str a)) (hb : t.get? "path" = some (.str b)) :
    readBody t
      = (readBody s).map fun proxy =>
        { proxy with http := { proxy.http with path := b } } := by
  unfold readBody
  rw [readBinding_congr h ha hb, readTarget_congr h, h.service,
    h.allowOnly hkeys]
  simp only [map_bind]
  cases readBinding s <;> rfl

end Schema

end GatewayStack
