import GatewayStack.Proofs.Sections
import GatewayStack.Schema.Target

/-!
# Mappings that name one source

A mapping under one of seven fields says where a value comes from, by the one
key that it has out of two or three. What comes of reading it is decided by four
rules, checked in this order: no name is unknown, some source key is there, no
second one is, and the one that is there is a string. `Judged` says so of the
fields alone, and reading agrees with it in every case (`oneOf_eq_iff`).

Presence is looked at twice when there are two source keys, once to count them
and once to say that they exclude each other. The last step of the reader, which
blames the field itself, is for the case that the two looks differ. They are the
same look-up, so the second finds what the first one found
(`exclusive_eq_error`), and the last step is never taken.
-/

namespace GatewayStack

open Grammar (Given Present Closed)

namespace Grammar

/-- Going through the names of a mapping, this is the first outside a list. -/
def FirstUnknown (fields : Fields Json) (names : List String)
    (name : String) : Prop :=
  ∃ before after, Fields.keys fields = before ++ name :: after ∧
    (∀ known ∈ before, known ∈ names) ∧ name ∉ names

/-- Of some fields this one is there, and no other one. -/
def Only (fields : Fields Json) (names : List String) (name : String) : Prop :=
  name ∈ names ∧ Present fields name ∧ ∀ other ∈ names,
    Present fields other → other = name

/-- Of some fields, in their order, these are the first two that are there. -/
def FirstTwo (fields : Fields Json) (names : List String)
    (first second : String) : Prop :=
  ∃ before between after, names
    = before ++ first :: (between ++ second :: after) ∧
    Present fields first ∧ Present fields second ∧
    ∀ other ∈ before ++ between, ¬ Present fields other

end Grammar

open Grammar (FirstUnknown Only FirstTwo)

namespace Section

variable {α : Type} {s : Section} {name : String}

/-! ## Errors of single checks -/

theorem allowOnly_of_unknown {names : List String} {unknown : String}
    (h : FirstUnknown s.fields names unknown) :
    s.allowOnly names = .error (s.violation unknown .unknownField) := by
  obtain ⟨before, after, hkeys, hbefore, hunknown⟩ := h
  have hfind : (Fields.keys s.fields).find? (fun name => !names.contains name)
      = some unknown := by
    rw [List.find?_eq_some_iff_append]
    refine ⟨by simpa using hunknown, before, after, hkeys, fun known hmem => ?_⟩
    simpa using hbefore known hmem
  unfold allowOnly
  rw [hfind]

/-- A mapping that is not closed has a first unknown name. -/
theorem exists_firstUnknown {fields : Fields Json} {names : List String}
    (h : ¬ Closed fields names) : ∃ unknown,
      FirstUnknown fields names unknown := by
  cases hfind : (Fields.keys fields).find? fun name => !names.contains name with
  | none =>
      refine absurd (fun name hmem => ?_) h
      simpa using List.find?_eq_none.mp hfind name hmem
  | some unknown =>
      obtain ⟨hunknown, before, after, hkeys, hbefore⟩ :=
        List.find?_eq_some_iff_append.mp hfind
      refine ⟨unknown, before, after, hkeys, fun known hmem => ?_,
        by simpa using hunknown⟩
      simpa using hbefore known hmem

theorem exclusive_eq_error {first second : String}
    (hfirst : Present s.fields first) (hsecond : Present s.fields second) :
    s.exclusive first second = .error (s.clash first second) := by
  unfold exclusive
  rw [has_iff.mpr hfirst, has_iff.mpr hsecond]
  rfl

theorem requiredString_of_given {value : Json} (h : Given s.fields name value) :
    s.requiredString name = s.read .string Json.string? name value := by
  unfold requiredString
  rw [required_eq_ok.mpr h]
  rfl

theorem requiredString_of_not_text {value : Json}
    (h : Given s.fields name value) (notText : ∀ text, value ≠ .str text) :
    s.requiredString name
      = .error (s.violation name (.typeMismatch .string)) := by
  have hnone : value.string? = none := by
    rw [Option.eq_none_iff_forall_ne_some]
    exact fun text hsome => notText text (Json.string?_eq_some.mp hsome)
  rw [requiredString_of_given h, read, hnone]

/-! ## The alternatives that are there -/

section alternatives

variable {alternatives : List (String × (String → α))} {further : List String}
  {fields : Fields Json}

theorem filter_has_eq_nil_iff (s : Section) :
    (alternatives.filter fun other => s.has other.1) = [] ↔
      ∀ key ∈ alternatives.map Prod.fst, ¬ Present s.fields key := by
  rw [List.filter_eq_nil_iff, List.forall_mem_map]
  simp only [has_iff]

/-- The search for the alternatives that are there, as a search among their
names. -/
theorem map_filter_has (s : Section)
    (alternatives : List (String × (String → α))) :
    (alternatives.filter fun other => s.has other.1).map Prod.fst
      = (alternatives.map Prod.fst).filter s.has := by
  rw [List.filter_map]
  rfl

theorem filter_has_eq_cons_cons_iff (s : Section) {names : List String}
    {first second : String} :
    (∃ rest, names.filter s.has = first :: second :: rest) ↔
      FirstTwo s.fields names first second := by
  simp only [List.filter_eq_cons_iff, has_iff]
  refine ⟨fun ⟨rest, before, more, hnames, hbefore, hfirst, between, after,
    hmore, hbetween, hsecond, _⟩ => ?_,
    fun ⟨before, between, after, hnames, hfirst, hsecond, habsent⟩ => ?_⟩
  · refine ⟨before, between, after, by rw [hnames, hmore], hfirst, hsecond,
      fun other hmem => ?_⟩
    rcases List.mem_append.mp hmem with hmem | hmem
    · exact hbefore other hmem
    · exact hbetween other hmem
  · refine ⟨after.filter s.has, before, _, hnames, fun other hmem => ?_, hfirst,
      between, after, rfl, fun other hmem => ?_, hsecond, rfl⟩
    · exact habsent other (List.mem_append_left _ hmem)
    · exact habsent other (List.mem_append_right _ hmem)

/-! ## What reading comes to -/

/-- The mapping at a field, as a section of its own. -/
def inside (s : Section) (name : String) (fields : Fields Json) : Section :=
  ⟨s.service, s.fieldPath name, fields⟩

theorem oneOf_obj (s : Section) (name : String)
    (alternatives : List (String × (String → α))) (further : List String)
    (fields : Fields Json) :
    s.oneOf name alternatives further (.obj fields) =
      (s.inside name fields).allowOnly
        (alternatives.map Prod.fst ++ further) >>= fun _ =>
        match alternatives.filter fun other =>
            (s.inside name fields).has other.1 with
        | [] => throw (s.violation name
          (.missingOneOf (alternatives.map Prod.fst)))
        | [(key, build)] =>
          (s.inside name fields).requiredString key >>= fun text =>
            pure (s.inside name fields, build text)
        | (first, _) :: (second, _) :: _ =>
          (s.inside name fields).exclusive first second >>= fun _ =>
            throw (s.violation name .unknownField) := rfl

/-- What reading one of several alternatives out of a mapping has to come to, by
the fields of the mapping. -/
inductive Judged (s : Section) (name : String)
    (alternatives : List (String × (String → α))) (further : List String)
    (fields : Fields Json) : Except Violation (Section × α) → Prop
  | unknown {key : String}
      (first : FirstUnknown fields (alternatives.map Prod.fst ++ further) key) :
      Judged s name alternatives further fields
        (.error ((s.inside name fields).violation key .unknownField))
  | missing (closed : Closed fields (alternatives.map Prod.fst ++ further))
      (none : ∀ key ∈ alternatives.map Prod.fst, ¬ Present fields key) :
      Judged s name alternatives further fields
        (.error (s.violation name (.missingOneOf (alternatives.map Prod.fst))))
  | several {first second : String}
      (closed : Closed fields (alternatives.map Prod.fst ++ further))
      (two : FirstTwo fields (alternatives.map Prod.fst) first second) :
      Judged s name alternatives further fields
        (.error ((s.inside name fields).clash first second))
  | mistyped {key : String} {value : Json}
      (closed : Closed fields (alternatives.map Prod.fst ++ further))
      (only : Only fields (alternatives.map Prod.fst) key)
      (given : Given fields key value) (notText : ∀ text, value ≠ .str text) :
      Judged s name alternatives further fields
        (.error ((s.inside name fields).violation key (.typeMismatch .string)))
  | named {key text : String} {build : String → α}
      (closed : Closed fields (alternatives.map Prod.fst ++ further))
      (alternative : (key, build) ∈ alternatives)
      (only : Only fields (alternatives.map Prod.fst) key)
      (given : Given fields key (.str text)) :
      Judged s name alternatives further fields
        (.ok (s.inside name fields, build text))

/-- There is a verdict on every mapping. -/
theorem exists_judged (s : Section) (name : String) (fields : Fields Json)
    (distinct : (alternatives.map Prod.fst).Nodup) :
    ∃ result, Judged s name alternatives further fields result := by
  by_cases closed : Closed fields (alternatives.map Prod.fst ++ further)
  · cases hfound : alternatives.filter fun other =>
        (s.inside name fields).has other.1 with
    | nil => exact ⟨_,
      .missing closed
        ((filter_has_eq_nil_iff (s.inside name fields)).mp hfound)⟩
    | cons first rest =>
        cases rest with
        | nil =>
            obtain ⟨hmem, ⟨value, hgiven⟩, honly⟩ :=
              (filter_has_eq_singleton_iff (s.inside name fields) distinct).mp
                hfound
            have only : Only fields (alternatives.map Prod.fst) first.1 :=
              ⟨List.mem_map_of_mem hmem, ⟨value, hgiven⟩, honly⟩
            by_cases text : ∃ text, value = .str text
            · obtain ⟨text, rfl⟩ := text
              exact ⟨_, .named closed hmem only hgiven⟩
            · exact ⟨_, .mistyped closed only hgiven fun t heq => text ⟨t, heq⟩⟩
        | cons second rest =>
            have hnames := map_filter_has (s.inside name fields) alternatives
            rw [hfound] at hnames
            exact ⟨_, .several closed
              ((filter_has_eq_cons_cons_iff (s.inside name fields)).mp
                ⟨_, hnames.symm⟩)⟩
  · obtain ⟨unknown, first⟩ := exists_firstUnknown closed
    exact ⟨_, .unknown first⟩

/-- Reading comes to what it is judged to come to. -/
theorem oneOf_of_judged {result : Except Violation (Section × α)}
    (distinct : (alternatives.map Prod.fst).Nodup)
    (h : Judged s name alternatives further fields result) :
    s.oneOf name alternatives further (.obj fields) = result := by
  have hclosed : Closed fields (alternatives.map Prod.fst ++ further) →
      (s.inside name fields).allowOnly (alternatives.map Prod.fst ++ further)
        = .ok () :=
    (allowOnly_eq_ok (s := s.inside name fields)).mpr
  rw [oneOf_obj]
  cases h with
  | unknown first =>
      rw [allowOnly_of_unknown first]
      rfl
  | missing closed none =>
      rw [hclosed closed,
        (filter_has_eq_nil_iff (s.inside name fields)).mpr none]
      rfl
  | several closed two =>
      obtain ⟨rest, hnames⟩ :=
        (filter_has_eq_cons_cons_iff (s.inside name fields)).mpr two
      rw [← map_filter_has] at hnames
      obtain ⟨found, others, hfound, rfl, hothers⟩ :=
        List.map_eq_cons_iff.mp hnames
      obtain ⟨more, rest, rfl, rfl, -⟩ := List.map_eq_cons_iff.mp hothers
      obtain ⟨-, -, -, -, hfirst, hsecond, -⟩ := two
      rw [hclosed closed, hfound]
      -- the second look at the two finds what the first one found
      show (s.inside name fields).exclusive found.1 more.1 >>= _ = _
      rw [exclusive_eq_error hfirst hsecond]
      rfl
  | mistyped closed only given notText =>
      obtain ⟨hmem, hpresent, honly⟩ := only
      obtain ⟨alternative, halternative, rfl⟩ := List.mem_map.mp hmem
      rw [hclosed closed,
        (filter_has_eq_singleton_iff (s.inside name fields) distinct).mpr
          ⟨halternative, hpresent, honly⟩]
      show (s.inside name fields).requiredString alternative.1 >>= _ = _
      rw [requiredString_of_not_text given notText]
      rfl
  | @named key text build closed alternative only given =>
      obtain ⟨-, hpresent, honly⟩ := only
      rw [hclosed closed,
        (filter_has_eq_singleton_iff (s.inside name fields) distinct).mpr
          ⟨alternative, hpresent, honly⟩]
      show (s.inside name fields).requiredString key >>= _ = _
      rw [requiredString_eq_ok.mpr given]
      rfl

theorem oneOf_eq_iff {result : Except Violation (Section × α)}
    (distinct : (alternatives.map Prod.fst).Nodup) :
    s.oneOf name alternatives further (.obj fields) = result ↔
      Judged s name alternatives further fields result := by
  refine ⟨fun h => ?_, oneOf_of_judged distinct⟩
  obtain ⟨judged, hjudged⟩ := exists_judged s name fields distinct
  rwa [← h, oneOf_of_judged distinct hjudged]

/-- A verdict that names a source. -/
theorem judged_ok_iff {inner : Section} {a : α} :
    Judged s name alternatives further fields (.ok (inner, a)) ↔
      inner = s.inside name fields ∧ ∃ key build text,
        Closed fields (alternatives.map Prod.fst ++ further) ∧
          (key, build) ∈ alternatives ∧
        Only fields (alternatives.map Prod.fst) key ∧
        Given fields key (.str text) ∧
        a = build text := by
  refine ⟨fun h => ?_,
    fun ⟨hinner, key, build, text, closed, alternative, only, given, ha⟩ => ?_⟩
  · cases h with
    | named closed alternative only given =>
        exact ⟨rfl, _, _, _, closed, alternative, only, given, rfl⟩
  · rw [hinner, ha]
    exact .named closed alternative only given

/-- A verdict that names none, by the rule that is broken. -/
theorem judged_error_iff {violation : Violation} :
    Judged s name alternatives further fields (.error violation) ↔
      (∃ key, FirstUnknown fields (alternatives.map Prod.fst ++ further) key ∧
        violation = ⟨s.service, s.path ++ [name, key], .unknownField⟩) ∨
      Closed fields (alternatives.map Prod.fst ++ further) ∧
        ((∀ key ∈ alternatives.map Prod.fst, ¬ Present fields key) ∧
            violation = ⟨s.service, s.path ++ [name],
              .missingOneOf (alternatives.map Prod.fst)⟩ ∨
          (∃ first second, FirstTwo fields (alternatives.map Prod.fst)
            first second ∧
            violation = ⟨s.service, s.path ++ [name],
              .mutuallyExclusive (s.path ++ [name, first])
                (s.path ++ [name, second])⟩) ∨
          ∃ key, Only fields (alternatives.map Prod.fst) key ∧
            (∀ text, ¬ Given fields key (.str text)) ∧
            violation = ⟨s.service, s.path ++ [name, key],
              .typeMismatch .string⟩) := by
  have below (key : String) : s.fieldPath name ++ [key]
      = s.path ++ [name, key] :=
    List.append_assoc _ _ _
  refine ⟨fun h => ?_, fun h => ?_⟩
  · cases h with
    | unknown first =>
        exact Or.inl ⟨_, first, congrArg (Violation.mk _ · _) (below _)⟩
    | missing closed none => exact Or.inr ⟨closed, Or.inl ⟨none, rfl⟩⟩
    | several closed two =>
        refine Or.inr ⟨closed, Or.inr (Or.inl ⟨_, _, two, ?_⟩)⟩
        rw [← below, ← below]
        rfl
    | mistyped closed only given notText =>
        refine Or.inr ⟨closed,
          Or.inr (Or.inr ⟨_, only, fun text htext => ?_, ?_⟩)⟩
        · exact notText text (Option.some.inj (given.1.symm.trans htext.1))
        · exact congrArg (Violation.mk _ · _) (below _)
  · rcases h with ⟨key, first, rfl⟩ |
      ⟨closed, ⟨none, rfl⟩ | ⟨first, second, two, rfl⟩ |
      ⟨key, only, notText, rfl⟩⟩
    · rw [← below]
      exact .unknown first
    · exact .missing closed none
    · rw [← below, ← below]
      exact .several closed two
    · rw [← below]
      obtain ⟨value, given⟩ := only.2.1
      exact .mistyped closed only given fun text heq =>
        notText text (heq ▸ given)

/-! ## The readers of single fields -/

theorem source?_of_given (given : Given s.fields name (.obj fields))
    (constants : Bool) :
    s.source? name constants =
      (s.oneOf name requestParts [] (.obj fields)).map
        fun found => some found.2 := by
  have hsource : s.source name constants (.obj fields)
      = (s.oneOf name requestParts [] (.obj fields)).map Prod.snd := by
    cases constants <;> rfl
  unfold source?
  rw [get?_eq_some.mpr given]
  show (s.source name constants (.obj fields)).map some = _
  rw [hsource]
  cases s.oneOf name requestParts [] (.obj fields) <;> rfl

theorem readObjectKey_of_given (given : Given s.fields "key" (.obj fields)) :
    Schema.readObjectKey s =
      (s.oneOf "key" urlParams [] (.obj fields)).map
        fun found => .url found.2 := by
  unfold Schema.readObjectKey
  rw [required_eq_ok.mpr given]
  show (s.oneOf "key" urlParams [] (.obj fields) >>= _) = _
  cases s.oneOf "key" urlParams [] (.obj fields) <;> rfl

theorem tableKey?_of_given (given : Given s.fields name (.obj fields)) :
    s.tableKey? name = s.oneOf name urlParams
      ["attributeType"] (.obj fields) >>= fun found =>
      (found.1.requiredString "attributeType").map fun attributeType =>
        some ⟨found.2, attributeType⟩ := by
  unfold tableKey?
  rw [get?_eq_some.mpr given]
  rfl

end alternatives

/-! ## What the keys stand for -/

/-- What alternatives stand for tells them and their texts apart. -/
def Apart (alternatives : List (String × (String → α))) : Prop :=
  ∀ p ∈ alternatives, ∀ q ∈ alternatives, ∀ text rest, p.2 text = q.2 rest →
    p.1 = q.1 ∧ text = rest

theorem apart_urlParams : Apart urlParams := by
  simp [Apart, urlParams]

theorem apart_requestParts : Apart requestParts := by
  simp [Apart, requestParts]

end Section

/-! ## The fields with such a mapping -/

/-- The fields whose value may be a mapping that names one source. -/
inductive SourceField where
  | partitionKey
  | source
  | detailType
  | detail
  | objectKey
  | hashKey
  | rangeKey
  deriving DecidableEq, Repr

namespace SourceField

def service : SourceField → Service
  | .partitionKey => .kinesis
  | .source | .detailType | .detail => .eventBridge
  | .objectKey => .s3
  | .hashKey | .rangeKey => .dynamodb

def name : SourceField → String
  | .partitionKey => "partitionKey"
  | .source => "source"
  | .detailType => "detailType"
  | .detail => "detail"
  | .objectKey => "key"
  | .hashKey => "hashKey"
  | .rangeKey => "rangeKey"

/-- The source keys, in their order. A key of an object or of a table cannot
come from the body of a request. -/
def keys : SourceField → List String
  | .partitionKey | .source | .detailType | .detail =>
    ["pathParam", "queryStringParam", "bodyParam"]
  | .objectKey | .hashKey | .rangeKey => ["pathParam", "queryStringParam"]

/-- The names that may stand beside a source key. -/
def further : SourceField → List String
  | .hashKey | .rangeKey => ["attributeType"]
  | _ => []

/-- What a source key and its text stand for. -/
abbrev Named : SourceField → Type
  | .partitionKey | .source | .detailType | .detail => Source
  | .objectKey | .hashKey | .rangeKey => UrlParam

/-- What each source key stands for, with its text: a parameter of the path or
of the query string, or a member of the body. -/
def sources : (field : SourceField) → List (String × (String → field.Named))
  | .partitionKey | .source | .detailType | .detail =>
    [("pathParam", fun name => .url (.path name)),
      ("queryStringParam", fun name => .url (.query name)),
      ("bodyParam", fun name => .body name)]
  | .objectKey | .hashKey | .rangeKey =>
    [("pathParam", fun name => .path name),
      ("queryStringParam", fun name => .query name)]

/-- The source keys as the readers have them. -/
def alternatives :
    (field : SourceField) → List (String × (String → field.Named))
  | .partitionKey | .source | .detailType | .detail => Section.requestParts
  | .objectKey | .hashKey | .rangeKey => Section.urlParams

/-- What the mapping at the field comes to. -/
def choose (field : SourceField) (body : Section) (fields : Fields Json) :
    Except Violation (Section × field.Named) :=
  body.oneOf field.name field.alternatives field.further (.obj fields)

/-- What is read at the field. -/
abbrev Value : SourceField → Type
  | .source => Source
  | .partitionKey | .detailType | .detail => Option Source
  | .objectKey => ObjectKey
  | .hashKey | .rangeKey => Option TableKey

/-- The reader of the field. -/
def read : (field : SourceField) → Section → Except Violation field.Value
  | .partitionKey, body => body.source? "partitionKey" true
  | .source, body => body.required "source" >>= body.source "source" true
  | .detailType, body => body.source? "detailType" true
  | .detail, body => body.source? "detail" false
  | .objectKey, body => Schema.readObjectKey body
  | .hashKey, body => body.tableKey? "hashKey"
  | .rangeKey, body => body.tableKey? "rangeKey"

/-- What the reader of the field makes of the source. Only the key of a table
has something else to read. -/
def finish : (field : SourceField) → Section × field.Named →
    Except Violation field.Value
  | .source, found => .ok found.2
  | .partitionKey, found | .detailType, found | .detail,
    found => .ok (some found.2)
  | .objectKey, found => .ok (.url found.2)
  | .hashKey, found | .rangeKey, found =>
    (found.1.requiredString "attributeType").map fun attributeType =>
      some ⟨found.2, attributeType⟩

theorem sources_eq (field : SourceField) :
    field.sources = field.alternatives := by
  cases field <;> rfl

theorem map_fst_alternatives (field : SourceField) :
    field.alternatives.map Prod.fst = field.keys := by
  cases field <;> rfl

theorem nodup_alternatives (field : SourceField) :
    (field.alternatives.map Prod.fst).Nodup := by
  rw [map_fst_alternatives]
  cases field <;> decide

theorem apart_alternatives (field : SourceField) :
    Section.Apart field.alternatives := by
  cases field
  case objectKey | hashKey | rangeKey => exact Section.apart_urlParams
  all_goals exact Section.apart_requestParts

/-- A mapping at the field is read by what it comes to. -/
theorem read_of_given {field : SourceField} {body : Section}
    {fields : Fields Json}
    (given : Given body.fields field.name (.obj fields)) :
    field.read body = field.choose body fields >>= field.finish := by
  have hget := Section.get?_eq_some.mpr given
  cases field with
  | source =>
      have hrequired := Section.required_eq_ok.mpr given
      refine (congrArg (· >>= body.source "source" true) hrequired).trans ?_
      exact map_eq_bind _ Prod.snd
  | partitionKey | detailType | detail =>
      exact (Section.source?_of_given given _).trans (map_eq_bind _ _)
  | objectKey =>
      exact (Section.readObjectKey_of_given given).trans (map_eq_bind _ _)
  | hashKey | rangeKey => exact Section.tableKey?_of_given given

/-- What a mapping comes to is what it is judged to come to, in terms of the
declared keys. -/
theorem choose_eq_iff {field : SourceField} {body : Section}
    {fields : Fields Json} {result : Except Violation (Section × field.Named)} :
    field.choose body fields = result ↔
      body.Judged field.name field.alternatives field.further fields result :=
  Section.oneOf_eq_iff field.nodup_alternatives

theorem choose_eq_ok_iff {field : SourceField} {body : Section}
    {fields : Fields Json} {key text : String} {build : String → field.Named}
    (h : (key, build) ∈ field.sources) :
    field.choose body fields = .ok (body.inside field.name fields, build text) ↔
      Closed fields (field.keys ++ field.further) ∧ Only fields field.keys key ∧
        Given fields key (.str text) := by
  rw [sources_eq] at h
  rw [choose_eq_iff, Section.judged_ok_iff, map_fst_alternatives]
  refine ⟨fun ⟨_, other, more, rest, closed, hother, only, given, heq⟩ => ?_,
    fun ⟨closed, only, given⟩ =>
      ⟨rfl, key, build, text, closed, h, only, given, rfl⟩⟩
  obtain ⟨hkey, htext⟩ := field.apart_alternatives _ h _ hother text rest heq
  obtain rfl : key = other := hkey
  subst htext
  exact ⟨closed, only, given⟩

theorem choose_eq_error_iff {field : SourceField} {body : Section}
    {fields : Fields Json} {violation : Violation} :
    field.choose body fields = .error violation ↔
      (∃ key, FirstUnknown fields (field.keys ++ field.further) key ∧
        violation = ⟨body.service, body.path ++ [field.name, key],
          .unknownField⟩) ∨
      Closed fields (field.keys ++ field.further) ∧
        ((∀ key ∈ field.keys, ¬ Present fields key) ∧
            violation = ⟨body.service, body.path ++ [field.name],
              .missingOneOf field.keys⟩ ∨
          (∃ first second, FirstTwo fields field.keys first second ∧
            violation = ⟨body.service, body.path ++ [field.name],
              .mutuallyExclusive (body.path ++ [field.name, first])
                (body.path ++ [field.name, second])⟩) ∨
          ∃ key, Only fields field.keys key ∧
            (∀ text, ¬ Given fields key (.str text)) ∧
            violation = ⟨body.service, body.path ++ [field.name, key],
              .typeMismatch .string⟩) := by
  rw [choose_eq_iff, Section.judged_error_iff, map_fst_alternatives]

end SourceField

/-- A mapping given for one of the seven fields is read by choosing a source in
it. The choice is what the source key `key` stands for, with the text `text`,
exactly when no name is unknown and that key is the only one there and has that
text. Otherwise the choice fails, and always for the first of four reasons that
applies: an unknown name, the first of them; no source key; more than one source
key, the first two of them; and a source key that is no string. The field itself
is never called unknown. -/
theorem one_source_named {field : SourceField} {entries fields : Fields Json}
    (given : Given entries field.name (.obj fields)) :
    let body : Section := ⟨field.service, [], entries⟩
    let known := field.keys ++ field.further
    let chosen := field.choose body fields
    field.read body = chosen >>= field.finish ∧
    (∀ key build text, (key, build) ∈ field.sources →
      (chosen = .ok (⟨field.service, [field.name], fields⟩, build text) ↔
        Closed fields known ∧ Only fields field.keys key ∧
          Given fields key (.str text))) ∧
    (∀ violation, chosen = .error violation ↔
      (∃ key, FirstUnknown fields known key ∧
        violation = ⟨field.service, [field.name, key], .unknownField⟩) ∨
      Closed fields known ∧
        ((∀ key ∈ field.keys, ¬ Present fields key) ∧
            violation = ⟨field.service, [field.name],
              .missingOneOf field.keys⟩ ∨
          (∃ first second, FirstTwo fields field.keys first second ∧
            violation = ⟨field.service, [field.name],
              .mutuallyExclusive [field.name, first] [field.name, second]⟩) ∨
          ∃ key, Only fields field.keys key ∧
            (∀ text, ¬ Given fields key (.str text)) ∧
            violation = ⟨field.service, [field.name, key],
              .typeMismatch .string⟩)) ∧
    (∀ key, FieldPath.text [field.name, key] = field.name ++ "." ++ key) ∧
    chosen ≠ .error ⟨field.service, [field.name], .unknownField⟩ := by
  intro body known chosen
  refine ⟨SourceField.read_of_given given, fun key build text h =>
    SourceField.choose_eq_ok_iff h, fun violation =>
      SourceField.choose_eq_error_iff, fun key => ?_, fun h => ?_⟩
  · rfl
  · have hcases := SourceField.choose_eq_error_iff.mp h
    simp [body] at hcases

/-- A key of a table with a null beside its source, and one with two sources. -/
theorem one_source_named_hash_key :
    let single : Fields Json :=
      [("pathParam", .null), ("queryStringParam", "id"), ("attributeType", "S")]
    let double : Fields Json :=
      [("queryStringParam", "id"), ("attributeType", "S"), ("pathParam", "id")]
    Given [("hashKey", .obj single)] "hashKey" (.obj single) ∧
    SourceField.hashKey.choose ⟨.dynamodb, [],
      [("hashKey", .obj single)]⟩ single
        = .ok (⟨.dynamodb, ["hashKey"], single⟩, UrlParam.query "id") ∧
    Given [("hashKey", .obj double)] "hashKey" (.obj double) ∧
    SourceField.hashKey.choose ⟨.dynamodb, [],
      [("hashKey", .obj double)]⟩ double
        = .error ⟨Service.dynamodb, ["hashKey"],
          .mutuallyExclusive ["hashKey", "pathParam"] ["hashKey",
            "queryStringParam"]⟩ := by
  intro single double
  have one : Given [("hashKey", .obj single)] SourceField.hashKey.name
      (.obj single) :=
    ⟨rfl, Json.noConfusion⟩
  have two : Given [("hashKey", .obj double)] SourceField.hashKey.name
      (.obj double) :=
    ⟨rfl, Json.noConfusion⟩
  refine ⟨one, ((one_source_named one).2.1 "queryStringParam"
    UrlParam.query "id" ?_).mpr
    ⟨?_, ⟨?_, ⟨_, rfl, Json.noConfusion⟩, ?_⟩, rfl, Json.noConfusion⟩, two,
    ((one_source_named two).2.2.1 _).mpr
      (Or.inr ⟨?_, Or.inr (Or.inl ⟨_, _, ?_, rfl⟩)⟩)⟩
  · exact List.mem_cons_of_mem _ List.mem_cons_self
  · unfold Closed
    decide
  · decide
  · rintro other hother ⟨value, hget, hvalue⟩
    rcases List.mem_pair.mp hother with rfl | rfl
    · exact absurd (Option.some.inj hget).symm hvalue
    · rfl
  · unfold Closed
    decide
  · exact ⟨[], [], [], rfl, ⟨_, rfl, Json.noConfusion⟩,
      ⟨_, rfl, Json.noConfusion⟩, List.forall_mem_nil _⟩

end GatewayStack
