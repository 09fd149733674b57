import GatewayStack.Schema.Parse
import Mathlib.Data.List.Forall2

/-!
# Descriptors that are read alike

Two descriptors may differ in what no reader looks at. A `Likeness` is a way to
differ, and it is shown once for all of them that a whole list is then read
alike: either both lists are accepted, with proxies that differ in the values
they take over at most, or both are refused, at the same positions and for like
reasons. This file has the readers of a section.

A reader asks its section for a name and then looks at the value, or at the
mapping, that stands there. So a likeness says how values may differ that are
read as a whole, and how mappings may differ that are read by the names known at
their place. That is all it has to say: what is shown of the readers goes from
the smallest one upwards, each by way of those that it is made of, and none of
it opens a likeness again.

The names that are known at a place are those of its `Layout`.
-/

namespace GatewayStack

/-! ## Results -/

/-- Two results of reading: both are given and related, or both are refused for
related reasons. -/
inductive Alike {ε α : Type} (reason : ε → ε → Prop) (result : α → α → Prop) :
    Except ε α → Except ε α → Prop
  | ok {a b : α} (h : result a b) : Alike reason result (.ok a) (.ok b)
  | error {d e : ε} (h : reason d e) : Alike reason result (.error d) (.error e)

namespace Alike

variable {ε α β : Type} {reason : ε → ε → Prop} {result : α → α → Prop}
  {result' : β → β → Prop} {x y : Except ε α}

theorem refl (hrefl : ∀ e, reason e e) (x : Except ε α) :
    Alike reason Eq x x := by
  cases x with
  | ok a => exact .ok rfl
  | error e => exact .error (hrefl e)

theorem imp {result' : α → α → Prop} (h : Alike reason result x y)
    (himp : ∀ a b, result a b → result' a b) : Alike reason result' x y := by
  cases h with
  | ok h => exact .ok (himp _ _ h)
  | error h => exact .error h

theorem bind {f g : α → Except ε β} (h : Alike reason result x y)
    (hf : ∀ a b, result a b → Alike reason result' (f a) (g b)) :
    Alike reason result' (x >>= f) (y >>= g) := by
  cases h with
  | ok h => exact hf _ _ h
  | error h => exact .error h

/-- Where the same is read, one goes on with the same. -/
theorem bind_eq {f g : α → Except ε β} (h : Alike reason Eq x y)
    (hf : ∀ a, Alike reason result' (f a) (g a)) :
    Alike reason result' (x >>= f) (y >>= g) :=
  h.bind fun a _ heq => heq ▸ hf a

theorem map {f g : α → β} (h : Alike reason result x y)
    (hf : ∀ a b, result a b → result' (f a) (g b)) :
    Alike reason result' (x.map f) (y.map g) := by
  cases h with
  | ok h => exact .ok (hf _ _ h)
  | error h => exact .error h

theorem map_eq (h : Alike reason Eq x y) (f : α → β) :
    Alike reason Eq (x.map f) (y.map f) :=
  h.map fun _ _ => congrArg f

/-- A check that refuses on the same condition, in front of the rest. -/
theorem refuse_if {p q : Prop} [Decidable p] [Decidable q] {d e : ε}
    {f g : β → Except ε α} (hp : p ↔ q) (hd : reason d e)
    (h : Alike reason result x y) :
    Alike reason result (if p then throw d >>= f else x)
      (if q then throw e >>= g else y) := by
  by_cases hq : q
  · rw [if_pos (hp.mpr hq), if_pos hq]
    exact .error hd
  · rw [if_neg fun h => hq (hp.mp h), if_neg hq]
    exact h

theorem eq (h : Alike Eq Eq x y) : x = y := by
  cases h with
  | ok h => rw [h]
  | error h => rw [h]

end Alike

/-- Of two related options either both are there or neither is. -/
theorem rel_cases {α : Type} {R : α → α → Prop} {x y : Option α}
    (h : Option.Rel R x y) :
    (x = none ∧ y = none) ∨ ∃ v w, x = some v ∧ y = some w ∧ R v w := by
  cases h with
  | none => exact Or.inl ⟨rfl, rfl⟩
  | some h => exact Or.inr ⟨_, _, rfl, rfl, h⟩

theorem rel_imp {α : Type} {R S : α → α → Prop} {x y : Option α}
    (h : Option.Rel R x y) (himp : ∀ v w, R v w → S v w) :
    Option.Rel S x y := by
  cases h with
  | none => exact .none
  | some h => exact .some (himp _ _ h)

/-! ## Places -/

/-- What stands at a place of a descriptor: a value that is read as a whole, or
a mapping with some known names. -/
inductive Layout where
  | whole
  | mapping (known : List (String × Layout))

namespace Layout

/-- The names of a mapping, each with a value that is read as a whole. -/
def wholes (names : List String) : Fields Layout :=
  names.map fun name => (name, whole)

/-- What stands under a name. -/
def under (known : Fields Layout) (name : String) : Layout :=
  (Fields.get? known name).getD whole

theorem under_wholes (names : List String) (name : String) :
    under (wholes names) name = whole := by
  unfold under wholes
  induction names with
  | nil => rfl
  | cons other rest ih =>
      by_cases h : other = name
      · simp [Fields.get?, h]
      · simpa [Fields.get?, h] using ih

@[simp] theorem keys_wholes (names : List String) :
    Fields.keys (wholes names) = names := by
  simp [Fields.keys, wholes, Function.comp_def]

def outcomeNames : List String := ["success", "clientError", "serverError"]

/-- The ways to name a parameter of the URL. -/
def urlNames : List String := Section.urlParams.map Prod.fst

/-- The ways to name a part of a request. -/
def requestNames : List String := Section.requestParts.map Prod.fst

def source : Layout := mapping (wholes requestNames)

def objectKey : Layout := mapping (wholes urlNames)

def tableKey : Layout := mapping (wholes (urlNames ++ ["attributeType"]))

/-- The part of a body that every service has. -/
def binding : Fields Layout :=
  [("path", whole), ("method", whole),
    ("cors", mapping (wholes Schema.corsFields)), ("authorizationType", whole),
    ("authorizerId", whole), ("authorizationScopes", whole), ("private", whole),
    ("roleArn", whole)]

/-- The part that a service decides. -/
def target : Service → Fields Layout
  | .kinesis => [("streamName", whole), ("partitionKey", source),
    ("action", whole)]
  | .sqs => wholes ["queueName", "requestParameters", "acceptParameters"]
  | .s3 => [("action", whole), ("bucket", whole), ("key", objectKey),
      ("partialContent", whole), ("requestParameters", whole)]
  | .sns => wholes ["topicName"]
  | .dynamodb => [("tableName", whole), ("action", whole),
      ("hashKey", tableKey),
      ("rangeKey", tableKey), ("condition", whole)]
  | .eventBridge =>
    [("eventBusName", whole), ("source", source), ("detailType", source),
      ("detail", source)]

def request : Layout := mapping (wholes ["template"])

def response : Layout := mapping [("template", mapping (wholes outcomeNames))]

/-- Mapping templates of both directions. -/
def templates : Fields Layout := [("request", request), ("response", response)]

/-- The body of a descriptor; buckets have no mapping templates. -/
def body (service : Service) : Fields Layout :=
  binding ++ target service ++ if service = .s3 then [] else templates

/-- The known names are the ones that may occur. -/
theorem keys_body (service : Service) :
    Fields.keys (body service) = Schema.bodyFields service := by
  cases service <;> rfl

theorem under_request {service : Service}
    (h : Schema.hasTemplates service = true) :
    under (body service) "request" = request := by
  cases service with
  | s3 => exact absurd h (by decide)
  | _ => rfl

theorem under_response {service : Service}
    (h : Schema.hasTemplates service = true) :
    under (body service) "response" = response := by
  cases service with
  | s3 => exact absurd h (by decide)
  | _ => rfl

/-- How two values at a place differ, given how values do and how mappings
do. -/
def Relates (value : Json → Json → Prop)
    (fields : Fields Layout → Fields Json → Fields Json → Prop) :
    Layout → Json → Json → Prop
  | mapping known, .obj as, .obj bs => fields known as bs
  | _, v, w => value v w

end Layout

/-! ## Ways to differ -/

/-- A way in which two descriptors may differ and still be read alike: how
values may differ that are read as a whole, how mappings may that are read by
their known names, and what becomes of a violation. -/
structure Likeness where
  value : Json → Json → Prop
  fields : Fields Layout → Fields Json → Fields Json → Prop
  violation : Violation → Violation → Prop
  violation_refl : ∀ v, violation v v
  /-- Inside lists and mappings alone. -/
  value_cases : ∀ {v w}, value v w →
    v = w ∨ (∃ xs ys, v = .arr xs ∧ w = .arr ys) ∨
    ∃ as bs, v = .obj as ∧ w = .obj bs
  stringList? : ∀ {v w}, value v w → w.stringList? = v.stringList?
  stringMap? : ∀ {v w}, value v w → w.stringMap? = v.stringMap?
  boolMap? : ∀ {v w}, value v w → w.boolMap? = v.boolMap?
  read? : ∀ (form : ReferenceForm) {v w}, value v w →
    form.read? w = form.read? v
  /-- What is there under a name is there in both. -/
  get? : ∀ {known as bs}, fields known as bs → ∀ service path name,
    Option.Rel (Layout.Relates value fields (Layout.under known name))
      (Section.get? ⟨service, path, as⟩ name)
      (Section.get? ⟨service, path, bs⟩ name)
  /-- A name that is not known is there in both. -/
  allowOnly : ∀ {known as bs}, fields known as bs → ∀ service path names,
    Fields.keys known ⊆ names → Alike violation Eq
      (Section.allowOnly ⟨service, path, as⟩ names)
      (Section.allowOnly ⟨service, path, bs⟩ names)

namespace Likeness

variable {L : Likeness} {v w : Json}

/-- Two values that stand at the same place. -/
abbrev At (L : Likeness) : Layout → Json → Json → Prop :=
  Layout.Relates L.value L.fields

theorem string? (h : L.value v w) : w.string? = v.string? := by
  rcases L.value_cases h with rfl | ⟨xs, ys, rfl, rfl⟩ |
    ⟨as, bs, rfl, rfl⟩ <;> rfl

theorem bool? (h : L.value v w) : w.bool? = v.bool? := by
  rcases L.value_cases h with rfl | ⟨xs, ys, rfl, rfl⟩ |
    ⟨as, bs, rfl, rfl⟩ <;> rfl

theorem positive? (h : L.value v w) : w.positive? = v.positive? := by
  rcases L.value_cases h with rfl | ⟨xs, ys, rfl, rfl⟩ |
    ⟨as, bs, rfl, rfl⟩ <;> rfl

theorem intrinsic? (h : L.value v w) :
    Option.Rel L.value v.intrinsic? w.intrinsic? := by
  rcases L.value_cases h with rfl | ⟨xs, ys, rfl, rfl⟩ | ⟨as, bs, rfl, rfl⟩
  · cases v with
    | str | obj => exact .some h
    | _ => exact .none
  · exact .none
  · exact .some h

/-- Where a mapping is expected there are two like ones, or there is none. -/
theorem mapping_cases {known : Fields Layout} (h : L.At (.mapping known) v w) :
    (∃ as bs, v = .obj as ∧ w = .obj bs ∧ L.fields known as bs) ∨
      (v = w ∧ v.fields? = none) ∨ ∃ xs ys, v = .arr xs ∧ w = .arr ys := by
  have plain (h : L.value v w) (hmixed : v.fields? = none ∨ w.fields? = none) :
      (v = w ∧ v.fields? = none) ∨ ∃ xs ys, v = .arr xs ∧ w = .arr ys := by
    rcases L.value_cases h with rfl | lists | ⟨as, bs, rfl, rfl⟩
    · exact Or.inl ⟨rfl, hmixed.elim id id⟩
    · exact Or.inr lists
    · rcases hmixed with h | h <;> cases h
  cases v with
  | obj as =>
      cases w with
      | obj bs => exact Or.inl ⟨as, bs, rfl, rfl, h⟩
      | _ => exact Or.inr (plain h (Or.inr rfl))
  | _ => exact Or.inr (plain h (Or.inl rfl))

end Likeness

/-! ## The readers of a section -/

/-- Two sections for the same place. -/
structure Section.Like (L : Likeness) (known : Fields Layout)
    (s t : Section) : Prop where
  service : t.service = s.service
  path : t.path = s.path
  fields : L.fields known s.fields t.fields

namespace Section.Like

variable {L : Likeness} {known : Fields Layout} {s t : Section} {name : String}
  {α : Type} {v w : Json}

theorem fieldPath (h : Like L known s t) : t.fieldPath = s.fieldPath := by
  unfold Section.fieldPath
  rw [h.path]

theorem violation (h : Like L known s t) : t.violation = s.violation := by
  unfold Section.violation
  rw [h.service, h.fieldPath]

theorem clash (h : Like L known s t) : t.clash = s.clash := by
  unfold Section.clash
  rw [h.service, h.path, h.fieldPath]

theorem get?_cases (h : Like L known s t) (name : String) :
    (s.get? name = none ∧ t.get? name = none) ∨
      ∃ v w, s.get? name = some v ∧ t.get? name = some w ∧
        L.At (Layout.under known name) v w :=
  rel_cases (L.get? h.fields s.service s.path name)

theorem has (h : Like L known s t) (name : String) :
    t.has name = s.has name := by
  unfold Section.has
  rcases h.get?_cases name with ⟨hs, ht⟩ | ⟨v, w, hs, ht, -⟩ <;> rw [hs, ht]
  rfl

/-- The same violation of both sections. -/
theorem refused (h : Like L known s t) {result : α → α → Prop} (name : String)
    (fault : Fault) :
    Alike L.violation result (.error (s.violation name fault))
      (.error (t.violation name fault)) := by
  rw [h.violation]
  exact .error (L.violation_refl _)

theorem choice (h : Like L known s t) (name : String)
    (ofString? : String → Option α) (allowed : List String) (given : String) :
    Alike L.violation Eq (s.choice name ofString? allowed given)
      (t.choice name ofString? allowed given) := by
  unfold Section.choice
  split
  · exact .ok rfl
  · exact h.refused name _

theorem required (h : Like L known s t) (name : String) :
    Alike L.violation (L.At (Layout.under known name)) (s.required name)
      (t.required name) := by
  unfold Section.required
  rcases h.get?_cases name with ⟨hs, ht⟩ |
    ⟨v, w, hs, ht, hvalue⟩ <;> rw [hs, ht]
  · exact h.refused name _
  · exact .ok hvalue

theorem read (h : Like L known s t) {result : α → α → Prop}
    {reader : Json → Option α} (hread : Option.Rel result (reader v) (reader w))
    (shape : Shape) (name : String) :
    Alike L.violation result (s.read shape reader name v)
      (t.read shape reader name w) := by
  unfold Section.read
  rcases rel_cases hread with ⟨hv, hw⟩ | ⟨a, b, hv, hw, hresult⟩ <;> rw [hv, hw]
  · exact h.refused name _
  · exact .ok hresult

/-- A reader that gives the same for both values. -/
theorem read_eq (h : Like L known s t) {reader : Json → Option α}
    (hread : reader w = reader v) (shape : Shape) (name : String) :
    Alike L.violation Eq (s.read shape reader name v)
      (t.read shape reader name w) := by
  unfold Section.read
  rw [hread]
  split
  · exact .ok rfl
  · exact h.refused name _

theorem optional (h : Like L known s t) {result : α → α → Prop}
    {reader : Json → Option α} (whole : Layout.under known name = .whole)
    (hread : ∀ {v w}, L.value v w → Option.Rel result (reader v) (reader w))
    (shape : Shape) :
    Alike L.violation (Option.Rel result) (s.optional shape reader name)
      (t.optional shape reader name) := by
  unfold Section.optional
  rcases h.get?_cases name with ⟨hs, ht⟩ |
    ⟨v, w, hs, ht, hvalue⟩ <;> rw [hs, ht]
  · exact .ok .none
  · rw [whole] at hvalue
    exact (h.read (hread hvalue) shape name).map fun _ _ => .some

theorem optional_eq (h : Like L known s t) {reader : Json → Option α}
    (whole : Layout.under known name = .whole)
    (hread : ∀ {v w}, L.value v w → reader w = reader v) (shape : Shape) :
    Alike L.violation Eq (s.optional shape reader name)
      (t.optional shape reader name) := by
  unfold Section.optional
  rcases h.get?_cases name with ⟨hs, ht⟩ |
    ⟨v, w, hs, ht, hvalue⟩ <;> rw [hs, ht]
  · exact .ok rfl
  · rw [whole] at hvalue
    exact (h.read_eq (hread hvalue) shape name).map_eq some

section whole

variable (h : Like L known s t) (whole : Layout.under known name = .whole)
include h whole

theorem requiredString :
    Alike L.violation Eq (s.requiredString name) (t.requiredString name) := by
  refine (h.required name).bind fun v w hvalue => ?_
  rw [whole] at hvalue
  exact h.read_eq (L.string? hvalue) _ _

theorem string? : Alike L.violation Eq (s.string? name) (t.string? name) :=
  h.optional_eq whole L.string? _

theorem flag : Alike L.violation Eq (s.flag name) (t.flag name) :=
  (h.optional_eq whole L.bool? _).map_eq _

theorem intrinsic? :
    Alike L.violation (Option.Rel L.value) (s.intrinsic? name)
      (t.intrinsic? name) :=
  h.optional whole L.intrinsic? _

theorem stringList? : Alike L.violation Eq (s.stringList? name)
    (t.stringList? name) :=
  h.optional_eq whole L.stringList? _

theorem stringMap : Alike L.violation Eq (s.stringMap name)
    (t.stringMap name) :=
  (h.optional_eq whole L.stringMap? _).map_eq _

theorem boolMap : Alike L.violation Eq (s.boolMap name) (t.boolMap name) :=
  (h.optional_eq whole L.boolMap? _).map_eq _

theorem resourceName (form : ReferenceForm) :
    Alike L.violation Eq (s.resourceName form name)
      (t.resourceName form name) := by
  refine (h.required name).bind fun v w hvalue => ?_
  rw [whole] at hvalue
  exact h.read_eq (L.read? form hvalue) _ _

end whole

theorem exclusive (h : Like L known s t) (first second : String) :
    Alike L.violation Eq (s.exclusive first second)
      (t.exclusive first second) := by
  unfold Section.exclusive
  rw [h.has, h.has, h.clash]
  split
  · exact .error (L.violation_refl _)
  · exact .ok rfl

theorem allowOnly (h : Like L known s t) {names : List String}
    (hnames : Fields.keys known ⊆ names) :
    Alike L.violation Eq (s.allowOnly names) (t.allowOnly names) := by
  obtain ⟨service, path, as⟩ := s
  obtain ⟨service', path', bs⟩ := t
  obtain ⟨rfl, rfl, hfields⟩ := h
  exact L.allowOnly hfields _ _ names hnames

/-! ## Mappings inside -/

theorem nested (h : Like L known s t) {inner : Fields Layout}
    (hvalue : L.At (.mapping inner) v w) (name : String) :
    Alike L.violation (Like L inner) (s.nested name v) (t.nested name w) := by
  rcases L.mapping_cases hvalue with ⟨as, bs, rfl, rfl, hfields⟩ |
    ⟨rfl, hnone⟩ |
    ⟨xs, ys, rfl, rfl⟩
  · exact .ok ⟨h.service, congrFun h.fieldPath name, hfields⟩
  · unfold Section.nested Section.read
    rw [hnone]
    exact h.refused name _
  · exact h.refused name _

theorem oneOf (h : Like L known s t) {names further : List String}
    {alternatives : List (String × (String → α))}
    (hnames : names ⊆ alternatives.map Prod.fst ++ further)
    (hvalue : L.At (.mapping (Layout.wholes names)) v w) (name : String) :
    Alike L.violation (fun p q =>
      Like L (Layout.wholes names) p.1 q.1 ∧
        p.2 = q.2) (s.oneOf name alternatives further v) (t.oneOf name
          alternatives further w) := by
  unfold Section.oneOf
  refine (h.nested hvalue name).bind fun a b hinner => ?_
  refine (hinner.allowOnly (by rwa [Layout.keys_wholes])).bind_eq fun _ => ?_
  simp only [hinner.has]
  split
  · exact h.refused name _
  · next key build _ =>
      exact (hinner.requiredString (Layout.under_wholes _ _)).bind_eq
        fun text => .ok ⟨hinner, rfl⟩
  · exact (hinner.exclusive _ _).bind_eq fun _ => h.refused name _

theorem source (h : Like L known s t) (hvalue : L.At .source v w)
    (name : String) (constants : Bool) :
    Alike L.violation Eq (s.source name constants v)
      (t.source name constants w) := by
  rcases L.mapping_cases hvalue with ⟨as, bs, rfl, rfl, -⟩ | ⟨rfl, hnone⟩ |
    ⟨xs, ys, rfl, rfl⟩
  · have hnames : Layout.requestNames ⊆ requestParts.map Prod.fst ++ [] := by
      decide
    exact (h.oneOf hnames hvalue name).map fun _ _ => And.right
  · cases v with
    | obj fields => cases hnone
    | str text => cases constants with
      | true => exact .ok rfl
      | false => exact h.refused name _
    | _ => exact h.refused name _
  · exact h.refused name _

theorem source? (h : Like L known s t)
    (hlayout : Layout.under known name = .source) (constants : Bool) :
    Alike L.violation Eq (s.source? name constants)
      (t.source? name constants) := by
  unfold Section.source?
  rcases h.get?_cases name with ⟨hs, ht⟩ |
    ⟨v, w, hs, ht, hvalue⟩ <;> rw [hs, ht]
  · exact .ok rfl
  · rw [hlayout] at hvalue
    exact (h.source hvalue name constants).map_eq some

theorem tableKey? (h : Like L known s t)
    (hlayout : Layout.under known name = .tableKey) :
    Alike L.violation Eq (s.tableKey? name) (t.tableKey? name) := by
  unfold Section.tableKey?
  rcases h.get?_cases name with ⟨hs, ht⟩ |
    ⟨v, w, hs, ht, hvalue⟩ <;> rw [hs, ht]
  · exact .ok rfl
  · rw [hlayout] at hvalue
    refine (h.oneOf ?_ hvalue name).bind
      fun (a, param) (b, other) ⟨hinner, heq⟩ => ?_
    · decide
    refine (hinner.requiredString (Layout.under_wholes _ _)).bind_eq
      fun attributeType => ?_
    exact .ok (by rw [show param = other from heq])

end Section.Like

end GatewayStack
