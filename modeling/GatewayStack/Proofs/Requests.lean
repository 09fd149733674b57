import GatewayStack.Proofs.AcceptedProxies
import GatewayStack.Proofs.RawJson

/-!
# What a service is asked

The default template of a stream, a table or an event bus is a text with holes,
and what the configuration gives is put into the holes between quotes, as it is.
Here is what comes out: the request that is meant (`Target.request`), exactly
when every value can stand between quotes and the two parts of a table key have
different names (`default_request_faithful_iff`).

Whatever the values are, the text is the request written out with raw strings.
The rest is known of any such text.
-/

namespace GatewayStack

/-! ## Filling the holes -/

namespace Intrinsic

/-- What takes the place of a hole. A hole without a value is left as it is. -/
def fill (values : Fields String) (name : String) : String :=
  (Fields.get? values name).getD (Piece.hole name).text

/-- One scan over the text, either between holes or in the name of a hole
(backwards). The values are not scanned again. -/
def expandChars (values : Fields String) :
    Option (List Char) → List Char → List Char
  | none, [] => []
  | none, '$' :: '\x7b' :: rest => expandChars values (some []) rest
  | none, c :: rest => c :: expandChars values none rest
  | some name, [] => '$' :: '\x7b' :: name.reverse
  | some name, c :: rest =>
    if c = '\x7d' then (fill values (String.ofList name.reverse)).toList
      ++ expandChars values none rest
    else expandChars values (some (c :: name)) rest

/-- The text with the values in its holes. -/
def expand (values : Fields String) (text : String) : String :=
  String.ofList (expandChars values none text.toList)

end Intrinsic

namespace Piece

/-- A piece that is read back from a text as it is. -/
def Clean : Piece → Prop
  | .plain text => '$' ∉ text.toList
  | .hole name => '\x7d' ∉ name.toList

instance : DecidablePred Clean
  | .plain text => inferInstanceAs (Decidable ('$' ∉ text.toList))
  | .hole name => inferInstanceAs (Decidable ('\x7d' ∉ name.toList))

def filled (values : Fields String) : Piece → String
  | .plain text => text
  | .hole name => Intrinsic.fill values name

end Piece

namespace Intrinsic

variable {values : Fields String}

theorem expandChars_plain {text : List Char} (h : '$' ∉ text)
    (rest : List Char) :
    expandChars values none (text ++ rest)
      = text ++ expandChars values none rest := by
  induction text with
  | nil => rfl
  | cons c more ih =>
      obtain ⟨hc, hmore⟩ := not_or.mp (List.mem_cons.not.mp h)
      rw [List.cons_append, expandChars, ih hmore]
      · rfl
      · exact fun _ heq _ => hc heq.symm

theorem expandChars_name {more : List Char} (h : '\x7d' ∉ more)
    (name rest : List Char) :
    expandChars values (some name) (more ++ '\x7d' :: rest)
      = (fill values (String.ofList (name.reverse ++ more))).toList
        ++ expandChars values none rest := by
  induction more generalizing name with
  | nil => rw [List.nil_append, expandChars, if_pos rfl, List.append_nil]
  | cons c more ih =>
      obtain ⟨hc, hmore⟩ := not_or.mp (List.mem_cons.not.mp h)
      rw [List.cons_append, expandChars, if_neg (Ne.symm hc), ih hmore,
        List.reverse_cons, List.append_assoc]
      rfl

theorem expandChars_piece {piece : Piece} (clean : piece.Clean)
    (rest : List Char) :
    expandChars values none (piece.text.toList ++ rest)
      = (piece.filled values).toList ++ expandChars values none rest := by
  cases piece with
  | plain text => exact expandChars_plain clean rest
  | hole name =>
      have htext : (Piece.hole name).text.toList ++ rest
          = '$' :: '\x7b' :: (name.toList ++ '\x7d' :: rest) := by
        simp [Piece.text]
      rw [htext, expandChars, expandChars_name clean, List.reverse_nil,
        List.nil_append, String.ofList_toList]
      rfl

/-- Filling a text is filling its pieces. -/
theorem expand_join {pieces : List Piece}
    (clean : ∀ piece ∈ pieces, piece.Clean) :
    (expand values (String.join (pieces.map Piece.text))).toList
      = pieces.flatMap fun piece => (piece.filled values).toList := by
  have hpieces (rest : List Char) :
      expandChars values none
          (pieces.flatMap (fun piece => piece.text.toList) ++ rest)
        = pieces.flatMap (fun piece => (piece.filled values).toList)
          ++ expandChars values none rest := by
    induction pieces with
    | nil => rfl
    | cons piece more ih =>
        obtain ⟨hpiece, hmore⟩ := List.forall_mem_cons.mp clean
        rw [List.flatMap_cons, List.flatMap_cons, List.append_assoc,
          expandChars_piece hpiece, ih hmore, List.append_assoc]
  have hall := hpieces []
  rw [List.append_nil, expandChars, List.append_nil] at hall
  rw [expand, String.toList_ofList, String.toList_join, List.flatMap_map]
  exact hall

end Intrinsic

/-! ## The requests that are meant -/

namespace MappingTemplate

open Intrinsic (fill)

variable (values : Fields String)

/-- One record for a stream. -/
def recordRequest : Json :=
  .obj [("StreamName", .str (fill values "StreamName")),
    ("Data", .str (fill values "Data")),
    ("PartitionKey", .str (fill values "PartitionKey"))]

/-- One event for a bus. -/
def entryRequest : Json :=
  .obj [("Entries", .arr [.obj [("Detail", .str (fill values "Detail")),
    ("DetailType", .str (fill values "DetailType")),
    ("EventBusName", .str (fill values "EventBusName")),
    ("Source", .str (fill values "Source"))]])]

/-- One part of a table key: the name of its attribute, and the value
under its type. -/
def keyRequest (side : String) : String × Json :=
  (fill values (side ++ "Key"),
    .obj [(fill values (side ++ "AttributeType"),
      .str (fill values (side ++ "AttributeValue")))])

/-- The sides of a table key. -/
def keySides (target : ItemTarget) : List String :=
  (keyParts target).map Prod.fst

/-- An item of a table, by its key. -/
def itemRequest (target : ItemTarget) : Json :=
  .obj ([("TableName", .str (fill values "TableName")),
      ("Key", .obj ((keySides target).map (keyRequest values)))]
    ++ if target.condition.isSome then
      [("ConditionExpression", .str (fill values "ConditionExpression"))]
        else [])

end MappingTemplate

namespace Target

/-- Targets whose default template is a request in JSON, with their resource
named by a plain string. -/
def Templated : Target → Prop
  | .kinesis target => target.action = .putRecord ∧ ∃ name,
    target.stream = .literal name
  | .dynamodb target => target.action ≠ .putItem ∧ ∃ name,
    target.table = .literal name
  | .eventBridge target => ∃ name, target.bus = .literal name
  | _ => False

/-- The request that is meant, given the values of the holes. -/
def request (values : Fields String) : Target → Json
  | .kinesis _ => MappingTemplate.recordRequest values
  | .dynamodb target => MappingTemplate.itemRequest values target
  | .eventBridge _ => MappingTemplate.entryRequest values
  | _ => .null

/-- What the configuration gives for one part of a table key. -/
def keyConfigured (side : String) (key : TableKey) : Fields String :=
  [(side ++ "Key", key.source.name),
    (side ++ "AttributeType", key.attributeType),
    (side ++ "AttributeValue", key.source.expression)]

/-- What the configuration gives for a parameter, if it names one. -/
def sourceConfigured (hole : String) (source : Option Source) : Fields String :=
  (source.map fun source => (hole, source.expression)).toList

def nameConfigured (hole : String) : ResourceName → Fields String
  | .literal name => [(hole, name)]
  | _ => []

/-- What the configuration gives, by the holes that it belongs in. -/
def configured : Target → Fields String
  | .kinesis target => nameConfigured "StreamName" target.stream
      ++ sourceConfigured "PartitionKey" target.partitionKey
  | .dynamodb target => nameConfigured "TableName" target.table
      ++ (MappingTemplate.keyParts target).flatMap
        (fun part => keyConfigured part.1 part.2)
      ++ (target.condition.map fun condition =>
        ("ConditionExpression", condition)).toList
  | .eventBridge target => nameConfigured "EventBusName" target.bus
      ++ sourceConfigured "Source" (some target.source)
      ++ sourceConfigured "DetailType" target.detailType
      ++ (target.detail.map fun detail =>
        ("Detail", "$util.escapeJavaScript(" ++
          detail.expression ++ ")")).toList
  | _ => []

/-- The parts of a table key go by different names. -/
def KeysApart : Target → Prop
  | .dynamodb target =>
    ((MappingTemplate.keyParts target).map fun part =>
      part.2.source.name).Nodup
  | _ => True

end Target

/-! ## The texts of the requests -/

namespace MappingTemplate

open Intrinsic (fill)
open Json (Member Written)
open Json.Parser (blank_nil blank_space isBlank maxDepth)

variable (values : Fields String)

/-- The text of a template with the values in its holes. -/
def filled (pieces : List Piece) : List Char :=
  pieces.flatMap fun piece => (piece.filled values).toList

theorem written_record :
    Written maxDepth (recordRequest values) (filled values recordPieces) := by
  have h : Written maxDepth _ _ := .ofStrings blank_nil
    [("StreamName", fill values "StreamName"), ("Data", fill values "Data"),
      ("PartitionKey", fill values "PartitionKey")] (List.cons_ne_nil _ _)
  refine (congrArg (Written _ _) ?_).mp h
  simp [filled, recordPieces, Piece.filled, Member.strings,
    Member.listChars, Member.chars, Member.string, Json.raw]

theorem written_entry (target : BusTarget) :
    Written maxDepth (entryRequest values)
      (filled values (bus target).pieces) := by
  have hentry : Written 125 _ _ := .ofStrings blank_space
    [("Detail", fill values "Detail"), ("DetailType", fill values "DetailType"),
      ("EventBusName", fill values "EventBusName"),
      ("Source", fill values "Source")]
    (List.cons_ne_nil _ _)
  have h : Written maxDepth _ _ := .ofMembers
    [⟨[], "Entries", [], _, _⟩] (List.cons_ne_nil _ _)
    (List.forall_mem_singleton.mpr ⟨⟨blank_nil, blank_nil⟩, .arr hentry⟩)
  refine (congrArg (Written _ _) ?_).mp h
  simp [filled, bus, Piece.filled, Member.strings, Member.listChars,
    Member.chars, Member.string, Json.raw]

/-- The member for one part of a table key. -/
def keyMember (lead : List Char) (side : String) : Member :=
  ⟨lead, (keyRequest values side).1, [' '], (keyRequest values side).2,
    '\x7b' :: Member.listChars (Member.strings [' ']
      [(fill values (side ++ "AttributeType"),
        fill values (side ++ "AttributeValue"))])⟩

theorem written_keyMember {lead : List Char} (h : ∀ c ∈ lead, isBlank c = true)
    (side : String) : (keyMember values lead side).Spaced ∧
      Written 125 (keyMember values lead side).value
        (keyMember values lead side).text :=
  ⟨⟨h, blank_space⟩, .ofStrings blank_space
    [(fill values (side ++ "AttributeType"),
      fill values (side ++ "AttributeValue"))]
    (List.cons_ne_nil _ _)⟩

/-- The text of one part of a table key is the one of its member. -/
theorem filled_keyPieces (lead : List Char) (side : String) :
    lead ++ filled values (keyPieces side)
      = (keyMember values lead side).chars := by
  simp [filled, keyPieces, keyMember, keyRequest, Piece.filled, Member.strings,
    Member.listChars, Member.chars, Member.string, Json.raw]

/-- The members of a table key with at least one part. -/
def keyMembers (lead : List Char) (side : String) (rest : List String) :
    List Member :=
  keyMember values lead side :: rest.map (keyMember values [' '])

theorem written_keys (side : String) (rest : List String) :
    Written 126 (.obj ((side :: rest).map (keyRequest values)))
      ('\x7b' :: Member.listChars (keyMembers values [] side rest)) := by
  have hentries : (keyMembers values [] side rest).map Member.entry
      = (side :: rest).map (keyRequest values) :=
    congrArg (keyRequest values side :: ·) List.map_map
  rw [← hentries]
  refine .ofMembers _ (List.cons_ne_nil _ _) (List.forall_mem_cons.mpr ⟨?_, ?_⟩)
  · exact written_keyMember values blank_nil side
  · exact List.forall_mem_map.mpr fun other _ =>
      written_keyMember values blank_space other

/-- The parts of a table key, one after the other. -/
theorem filled_keys (lead : List Char) (side : String) (rest : List String) :
    lead ++ filled values (((side :: rest).map keyPieces).intersperse
      [.plain ", "]).flatten
        ++ ['\x7d']
      = Member.listChars (keyMembers values lead side rest) := by
  induction rest generalizing lead side with
  | nil =>
    show _ = (keyMember values lead side).chars ++ ['\x7d']
    rw [← filled_keyPieces]
    simp
  | cons next others ih =>
    show _ = (keyMember values lead side).chars
      ++ ',' :: Member.listChars (keyMembers values [' '] next others)
    rw [← ih, ← filled_keyPieces]
    simp [filled, Piece.filled]

theorem filled_keyListPieces {target : ItemTarget} {side : String}
    {rest : List String} (h : keySides target = side :: rest) :
    filled values (keyListPieces target) ++ ['\x7d']
      = Member.listChars (keyMembers values [] side rest) := by
  have hpieces : ((keyParts target).map fun part => keyPieces part.1)
      = (side :: rest).map keyPieces := by
    rw [← h, keySides, List.map_map]
    rfl
  rw [← filled_keys, List.nil_append, keyListPieces, ← hpieces]

theorem itemPieces_of_ne_putItem {target : ItemTarget}
    (h : target.action ≠ .putItem) :
    itemPieces target = [.plain "\x7b\"TableName\": \"", .hole "TableName",
      .plain "\", \"Key\": \x7b"] ++ keyListPieces target ++
      [.plain "\x7d"] := by
  unfold itemPieces
  split
  · next hput => exact absurd hput h
  all_goals rfl

/-- The member for the condition, if there is one. -/
def conditionMembers (target : ItemTarget) : List Member :=
  if target.condition.isSome then
    [.string [' '] "ConditionExpression" [' ']
      (fill values "ConditionExpression")]
  else []

theorem written_condition {depth : Nat} (target : ItemTarget) :
    ∀ member ∈ conditionMembers values target,
      member.Spaced ∧ Written depth member.value member.text := by
  unfold conditionMembers
  split
  · exact List.forall_mem_singleton.mpr
      (Member.written_string blank_space blank_space _ _)
  · exact List.forall_mem_nil _

theorem itemRequest_eq (target : ItemTarget) :
    itemRequest values target
      = .obj (("TableName", .str (fill values "TableName"))
      :: ("Key", .obj ((keySides target).map (keyRequest values)))
      :: (conditionMembers values target).map Member.entry) := by
  rw [itemRequest]
  unfold conditionMembers
  split <;> rfl

theorem written_item {target : ItemTarget} (action : target.action ≠ .putItem)
    (keyed : target.hashKey.isSome) :
    Written maxDepth (itemRequest values target)
      (filled values (item target).pieces) := by
  obtain ⟨side, rest, hsides⟩ : ∃ side rest, keySides target
      = side :: rest := by
    obtain ⟨key, hkey⟩ := Option.isSome_iff_exists.mp keyed
    exact ⟨"Hash", _, by rw [keySides, keyParts, hkey]; rfl⟩
  let key : Member :=
    ⟨[' '], "Key", [' '], .obj ((side :: rest).map (keyRequest values)),
      '\x7b' :: (filled values (keyListPieces target) ++ ['\x7d'])⟩
  have hkey : key.Spaced ∧ Written 126 key.value key.text := by
    refine ⟨⟨blank_space, blank_space⟩, ?_⟩
    show Written 126 _ ('\x7b' :: (filled values (keyListPieces target) ++
      ['\x7d']))
    rw [filled_keyListPieces values hsides]
    exact written_keys values side rest
  have h : Written maxDepth _ _ := .ofMembers
    (.string [] "TableName" [' '] (fill values "TableName")
      :: key :: conditionMembers values target)
    (List.cons_ne_nil _ _)
    (List.forall_mem_cons.mpr ⟨Member.written_string blank_nil blank_space _ _,
      List.forall_mem_cons.mpr ⟨hkey, written_condition values target⟩⟩)
  rw [itemRequest_eq, hsides]
  refine (congrArg (Written _ _) ?_).mp h
  rw [item, itemPieces_of_ne_putItem action]
  unfold conditionMembers conditionPieces
  split <;>
    simp [key, filled, Piece.filled, Member.listChars, Member.chars,
      Member.string, Json.raw]

end MappingTemplate

/-! ## The default templates -/

/-- The substitution stands for the request of the target, with these values:
what the configuration gives is among them, and a value that could not be read
back would spoil the request. -/
structure Substitution.Fits (substitution : Substitution) (target : Target)
    (values : Fields String) : Prop where
  strings : substitution.values = Fields.mapValues Json.str values
  nonempty : values ≠ []
  clean : ∀ piece ∈ substitution.pieces, piece.Clean
  written : Json.Written Json.Parser.maxDepth (target.request values)
    (MappingTemplate.filled values substitution.pieces)
  configured : ∀ entry ∈ target.configured, Fields.get? values entry.1
    = some entry.2
  plain : (target.request values).Plain ↔ ∀ entry ∈ values,
    Json.PlainText entry.2
  tidy : (target.request values).Tidy ↔ target.KeysApart

namespace Substitution.Fits

variable {substitution : Substitution} {target : Target}
  {values : Fields String}

theorem toJson (h : substitution.Fits target values) :
    substitution.toJson
      = .obj [("Fn::Sub", .arr [.str substitution.text,
        .obj (Fields.mapValues Json.str values)])] := by
  have hsome : ¬ substitution.values.isEmpty := by
    rw [h.strings, Fields.mapValues, List.isEmpty_map, List.isEmpty_iff]
    exact h.nonempty
  rw [Substitution.toJson, if_neg hsome, h.strings]

/-- What comes out of such a substitution is read as the request exactly when
nothing in it has to be escaped. -/
theorem parse_iff (h : substitution.Fits target values) :
    Json.parse? (Intrinsic.expand values substitution.text)
      = some (target.request values) ↔
      (∀ entry ∈ values, Json.PlainText entry.2) ∧ target.KeysApart := by
  rw [← h.plain, ← h.tidy, Json.parse?, Substitution.text,
    Intrinsic.expand_join h.clean]
  exact Json.parseChars_written_iff h.written

end Substitution.Fits

namespace MappingTemplate

open Intrinsic (fill)

theorem clean_keyListPieces (target : ItemTarget) :
    ∀ piece ∈ keyListPieces target, piece.Clean := by
  obtain ⟨table, action, hash, range, condition⟩ := target
  cases hash <;> cases range <;>
    simp only [keyListPieces, keyParts, Option.map_none, Option.map_some,
      Option.toList, List.nil_append, List.cons_append, List.map_cons,
      List.map_nil] <;>
    decide

theorem clean_item {target : ItemTarget} (h : target.action ≠ .putItem) :
    ∀ piece ∈ (item target).pieces, piece.Clean := by
  have hcondition : ∀ piece ∈ conditionPieces target, piece.Clean := by
    unfold conditionPieces
    split <;> decide
  rw [item, itemPieces_of_ne_putItem h]
  simp only [List.forall_mem_append]
  exact ⟨⟨⟨⟨by decide, clean_keyListPieces target⟩, by decide⟩, hcondition⟩,
    by decide⟩

theorem clean_record : ∀ piece ∈ recordPieces, piece.Clean := by decide

theorem clean_bus (target : BusTarget) : ∀ piece ∈ (bus target).pieces,
    piece.Clean := by
  simp only [bus]
  decide

theorem fits_stream {target : StreamTarget}
    (h : (Target.kinesis target).Templated) :
    ∃ values, (stream target).Fits (.kinesis target) values := by
  obtain ⟨stream, key, action⟩ := target
  obtain ⟨(rfl : action = _), name, (rfl : stream = _)⟩ := h
  refine ⟨[("StreamName", name),
    ("PartitionKey", (key.map Source.expression).getD "$context.requestId"),
    ("Data", "$util.base64Encode($input.body)")], rfl,
    List.cons_ne_nil _ _, clean_record, written_record _, ?_, ?_, ?_⟩
  · cases key with
    | none => exact List.forall_mem_singleton.mpr rfl
    | some => exact List.forall_mem_cons.mpr ⟨rfl,
      List.forall_mem_singleton.mpr rfl⟩
  · simp +decide [Target.request, recordRequest, fill, Fields.get?]
  · simp [Target.request, recordRequest, Target.KeysApart, Fields.Distinct]

theorem fits_bus {target : BusTarget}
    (h : (Target.eventBridge target).Templated) :
    ∃ values, (bus target).Fits (.eventBridge target) values := by
  obtain ⟨busName, source, detailType, detail⟩ := target
  obtain ⟨name, (rfl : busName = _)⟩ := h
  refine ⟨[("EventBusName", name),
    ("Detail", "$util.escapeJavaScript(" ++
      (detail.map Source.expression).getD "$input.body" ++ ")"),
    ("DetailType", (detailType.map Source.expression).getD
      "$context.requestId"),
    ("Source", source.expression)], rfl, List.cons_ne_nil _ _, clean_bus _,
    written_entry _ _, ?_, ?_, ?_⟩
  · refine List.forall_mem_append.mpr ⟨List.forall_mem_append.mpr
      ⟨List.forall_mem_cons.mpr ⟨rfl, List.forall_mem_singleton.mpr rfl⟩, ?_⟩,
      ?_⟩
    · cases detailType with
      | none => exact List.forall_mem_nil _
      | some => exact List.forall_mem_singleton.mpr rfl
    · cases detail with
      | none => exact List.forall_mem_nil _
      | some => exact List.forall_mem_singleton.mpr rfl
  · simp +decide [Target.request, entryRequest, fill, Fields.get?]
    constructor
    · rintro ⟨hdetail, htype, hname, hsource⟩
      exact ⟨hname, hdetail, htype, hsource⟩
    · rintro ⟨hname, hdetail, htype, hsource⟩
      exact ⟨hdetail, htype, hname, hsource⟩
  · simp [Target.request, entryRequest, Target.KeysApart, Fields.Distinct]

/-- The holes of a template for an item have different names. -/
theorem distinct_configured (target : ItemTarget) :
    Fields.Distinct (Target.dynamodb target).configured := by
  obtain ⟨table, action, hash, range, condition⟩ := target
  have hname : (Fields.keys (Target.nameConfigured "TableName" table)).Sublist
      ["TableName"] := by
    cases table <;> simp [Target.nameConfigured]
  have hkeys : (Fields.keys
      ((keyParts ⟨table, action, hash, range, condition⟩).flatMap
      fun part => Target.keyConfigured part.1 part.2)).Sublist
      ["HashKey", "HashAttributeType", "HashAttributeValue",
        "RangeKey", "RangeAttributeType", "RangeAttributeValue"] := by
    cases hash <;> cases range <;> simp [keyParts, Target.keyConfigured]
    decide
  have hcondition : (Fields.keys (condition.map fun condition =>
      ("ConditionExpression", condition)).toList).Sublist
      ["ConditionExpression"] := by
    cases condition <;> simp
  rw [Fields.Distinct, Target.configured, Fields.keys, List.map_append,
    List.map_append]
  exact ((hname.append hkeys).append hcondition).nodup (by decide)

/-- The value that one part of a table key asks for, under its type. -/
def keyAttribute (part : String × TableKey) : String × Json :=
  (part.2.source.name,
    .obj [(part.2.attributeType, .str part.2.source.expression)])

/-- The request for an item in terms of its target. -/
theorem itemRequest_configured {target : ItemTarget} {name : String}
    (h : target.table = .literal name) :
    itemRequest (Target.dynamodb target).configured target
      = .obj ([("TableName", .str name),
          ("Key", .obj ((keyParts target).map keyAttribute))]
        ++ (target.condition.map fun condition =>
          ("ConditionExpression", Json.str condition)).toList) := by
  have hfill {hole s : String}
      (hmem : (hole, s) ∈ (Target.dynamodb target).configured) :
      fill (Target.dynamodb target).configured hole = s := by
    rw [fill, Fields.get?_of_mem (distinct_configured target) hmem,
      Option.getD_some]
  have hname : ("TableName", name) ∈ (Target.dynamodb target).configured := by
    simp [Target.configured, Target.nameConfigured, h]
  have hkey : ∀ part ∈ keyParts target,
      keyRequest (Target.dynamodb target).configured part.1
        = keyAttribute part := by
    intro part hpart
    have hsub : ∀ entry ∈ Target.keyConfigured part.1 part.2,
        entry ∈ (Target.dynamodb target).configured := by
      intro entry hentry
      refine List.mem_append_left _ (List.mem_append_right _ ?_)
      exact List.mem_flatMap.mpr ⟨part, hpart, hentry⟩
    rw [keyRequest, hfill (hsub _ List.mem_cons_self),
      hfill (hsub _ (List.mem_cons_of_mem _ List.mem_cons_self)),
      hfill (hsub _ (List.mem_cons_of_mem
        _ (List.mem_cons_of_mem _ List.mem_cons_self)))]
    rfl
  have hkeys := List.map_congr_left hkey
  rw [← Function.comp_def, ← List.map_map] at hkeys
  rw [itemRequest, hfill hname, keySides, hkeys]
  cases hcondition : target.condition with
  | none => rfl
  | some condition =>
      have hmem : ("ConditionExpression", condition) ∈
          (Target.dynamodb target).configured := by
        simp [Target.configured, hcondition]
      rw [hfill hmem]
      rfl

theorem plain_keys (target : ItemTarget) :
    (Json.obj ((keyParts target).map keyAttribute)).Plain ↔
      ∀ entry ∈ (keyParts target).flatMap fun part =>
        Target.keyConfigured part.1 part.2, Json.PlainText entry.2 := by
  rw [Json.plain_obj, List.forall_mem_map, List.forall_mem_flatMap]
  refine forall₂_congr fun part _ => ?_
  simp [keyAttribute, Target.keyConfigured]

theorem tidy_keys (target : ItemTarget) :
    (Json.obj ((keyParts target).map keyAttribute)).Tidy ↔
      (Target.dynamodb target).KeysApart := by
  rw [Json.tidy_obj, List.forall_mem_map, Fields.Distinct,
    Fields.keys, List.map_map]
  refine and_iff_left fun part _ => ?_
  simp [keyAttribute, Fields.Distinct]

theorem fits_item {target : ItemTarget} (h : (Target.dynamodb target).Templated)
    (keyed : target.hashKey.isSome) :
    (item target).Fits (.dynamodb target)
      (Target.dynamodb target).configured := by
  obtain ⟨action, name, hname⟩ := h
  refine ⟨?_, ?_, clean_item action, written_item _ action keyed, ?_, ?_, ?_⟩
  · cases hcondition : target.condition <;>
      simp [item, Target.configured, Target.nameConfigured,
        Target.keyConfigured, keyValues, Fields.mapValues, List.map_flatMap,
        ResourceName.toJson, hname, hcondition]
  · simp [Target.configured, Target.nameConfigured, hname]
  · exact fun entry hentry =>
      Fields.get?_of_mem (distinct_configured target) hentry
  · have htable : Json.PlainText "TableName" := by decide
    have hkey : Json.PlainText "Key" := by decide
    have hexpression : Json.PlainText "ConditionExpression" := by decide
    rw [Target.request, itemRequest_configured hname, Json.plain_obj,
      Target.configured, hname, List.forall_mem_append, List.forall_mem_append,
      List.forall_mem_append, List.forall_mem_cons,
      List.forall_mem_singleton, plain_keys]
    cases target.condition <;> simp [Target.nameConfigured, htable,
      hkey, hexpression]
  · rw [Target.request, itemRequest_configured hname, Json.tidy_obj,
      List.forall_mem_append, List.forall_mem_cons,
      List.forall_mem_singleton, tidy_keys]
    cases target.condition <;> simp [Fields.Distinct, Fields.keys]

/-- Where the compiler can rely on the target, its default template stands
for the request. -/
theorem exists_fits {target : Target} (sound : target.Sound)
    (templated : target.Templated) :
    ∃ substitution values, defaults? target = some (bothTypes substitution) ∧
      substitution.Fits target values := by
  cases target with
  | kinesis target =>
      obtain ⟨values, fits⟩ := fits_stream templated
      exact ⟨_, values, rfl, fits⟩
  | dynamodb target =>
      exact ⟨_, _, rfl, fits_item templated (sound.2.1 templated.1)⟩
  | eventBridge target =>
      obtain ⟨values, fits⟩ := fits_bus templated
      exact ⟨_, values, rfl, fits⟩
  | sqs | s3 | sns => exact templated.elim

end MappingTemplate

/-- Objects have no templates by default, and no other ones. -/
theorem Integration.requestTemplates_ofEvent (event : Event) :
    (Integration.ofEvent event).requestTemplates
      = MappingTemplate.ofEvent? event := by
  unfold Integration.ofEvent
  split
  case h_3 target htarget =>
    rw [MappingTemplate.ofEvent?, htarget]
    rfl
  all_goals rfl

theorem Method.at?_integration (api : Api) (event : Event) :
    (Method.resource api event).at? ["Properties", "Integration"]
      = some (Method.integrationBlock event (Integration.ofEvent event)) := by
  unfold Method.resource Method.resourceOf
  cases event.authorizerId <;> cases event.authorizationScopes <;> rfl

theorem Method.at?_integration_append (api : Api) (event : Event)
    (path : List String) :
    (Method.resource api event).at? ("Properties" :: "Integration" :: path)
      = (Method.integrationBlock event (Integration.ofEvent event)).at?
        path := by
  have happend := Json.at?_append (Method.resource api event)
    ["Properties", "Integration"] path
  rw [Method.at?_integration, Option.bind_some] at happend
  exact happend

theorem Method.field?_requestTemplates (event : Event)
    (integration : Integration) :
    (Method.integrationBlock event integration).field? "RequestTemplates"
      = integration.requestTemplates.map Json.obj := by
  unfold Method.integrationBlock
  cases integration.requestParameters
    <;> cases integration.requestTemplates <;> rfl

theorem Method.at?_requestTemplate (api : Api) (event : Event) (type : String) :
    (Method.resource api event).at?
        ["Properties", "Integration", "RequestTemplates", type]
      = (MappingTemplate.ofEvent? event).bind fun templates =>
        Fields.get? templates type := by
  rw [Method.at?_integration_append, Json.at?_cons,
    Method.field?_requestTemplates, Integration.requestTemplates_ofEvent,
    Option.bind_map]
  exact Option.bind_congr fun templates _ => Option.bind_fun_some _

/-- The default template of a stream, a table or an event bus is a substitution
of strings that has everything the configuration gives. With the strings in its
holes it is the request that is meant exactly when each of them can stand
between quotes as it is and the parts of a table key go by different names. -/
theorem default_request_faithful_iff {descriptors : List Json}
    {proxies : List ServiceProxy} (hparse : parse descriptors = .ok proxies)
    {proxy : ServiceProxy} (hmem : proxy ∈ proxies)
    (templated : proxy.target.Templated)
    (default : proxy.http.requestTemplates = []) (api : Api) :
    ∃ skeleton values,
      (Method.resource api (Event.ofProxy proxy)).at?
          ["Properties", "Integration", "RequestTemplates", "application/json"]
        = some (.obj [("Fn::Sub",
          .arr [.str skeleton, .obj (Fields.mapValues Json.str values)])]) ∧
      (∀ entry ∈ proxy.target.configured,
        Fields.get? values entry.1 = some entry.2) ∧
      (Json.parse? (Intrinsic.expand values skeleton)
        = some (proxy.target.request values) ↔
        (∀ entry ∈ values, Json.PlainText entry.2) ∧
          proxy.target.KeysApart) := by
  obtain ⟨substitution, values, hdefaults, fits⟩ :=
    MappingTemplate.exists_fits (sound_of_mem hparse hmem).target templated
  have htemplates : MappingTemplate.ofEvent? (Event.ofProxy proxy)
      = some (MappingTemplate.bothTypes substitution) := by
    show (MappingTemplate.defaults? proxy.target).map _ = _
    rw [hdefaults]
    show some (Fields.setAll _ (Fields.mapValues Json.str
      proxy.http.requestTemplates)) = _
    rw [default]
    rfl
  refine ⟨substitution.text, values, ?_, fits.configured, fits.parse_iff⟩
  rw [Method.at?_requestTemplate, htemplates, ← fits.toJson]
  rfl

/-- A stream with a constant for its partition key. -/
def keyedStreamDescriptor (partitionKey : String) : Json :=
  .obj [("kinesis", .obj [("path", "a"), ("method", "post"),
    ("streamName", "s"), ("partitionKey", .str partitionKey)])]

/-- The proxy of that descriptor. -/
def keyedStreamProxy (partitionKey : String) : ServiceProxy :=
  ⟨⟨"a", .post, none, none, none, none, false, none, [], none⟩,
    .kinesis ⟨.literal "s", some (.literal partitionKey), .putRecord⟩⟩

/-- What a template holds determines the strings. -/
theorem values_inj {skeleton other : String} {values others : Fields String}
    (h : Json.obj [("Fn::Sub",
      .arr [.str skeleton, .obj (Fields.mapValues Json.str values)])]
        = .obj [("Fn::Sub", .arr [.str other,
          .obj (Fields.mapValues Json.str others)])]) : values = others := by
  simp only [Json.obj.injEq, Json.arr.injEq, List.cons.injEq,
    Prod.mk.injEq, and_true, true_and] at h
  refine List.map_injective_iff.mpr (fun (a, s) (b, t) heq => ?_) h.2
  obtain ⟨rfl, hs⟩ :=
    Prod.mk.inj (show (a, Json.str s) = (b, Json.str t) from heq)
  rw [Json.str.inj hs]

/-- A constant that can stand between quotes. -/
theorem default_request_faithful_p :
    parse [keyedStreamDescriptor "p"] = .ok [keyedStreamProxy "p"] ∧
      ∃ skeleton values,
        (Method.resource ⟨"api", "root", []⟩
            (Event.ofProxy (keyedStreamProxy "p"))).at? ["Properties",
            "Integration", "RequestTemplates", "application/json"]
          = some (.obj [("Fn::Sub",
            .arr [.str skeleton, .obj (Fields.mapValues Json.str values)])]) ∧
        Fields.get? values "PartitionKey" = some "p" ∧
        Json.parse? (Intrinsic.expand values skeleton)
          = some ((keyedStreamProxy "p").target.request values) := by
  have hparse : parse [keyedStreamDescriptor "p"]
      = .ok [keyedStreamProxy "p"] := by decide
  obtain ⟨skeleton, values, htemplate, hconfigured, hread⟩ :=
    default_request_faithful_iff hparse List.mem_cons_self ⟨rfl, _, rfl⟩ rfl
      ⟨"api", "root", []⟩
  have hvalues : values = [("StreamName", "s"), ("PartitionKey", "p"),
      ("Data", "$util.base64Encode($input.body)")] :=
    values_inj (Option.some.inj (htemplate.symm.trans rfl))
  refine ⟨hparse, skeleton, values, htemplate,
    hconfigured ("PartitionKey", "p")
      (List.mem_cons_of_mem _ List.mem_cons_self), hread.mpr ⟨?_, trivial⟩⟩
  rw [hvalues]
  decide

/-- A constant with quotes in it: the text that comes out is none of a value. -/
theorem unreadable_request_quoted :
    parse [keyedStreamDescriptor "say \"hi\""]
      = .ok [keyedStreamProxy "say \"hi\""] ∧
      ∃ skeleton values,
        (Method.resource ⟨"api", "root", []⟩
            (Event.ofProxy (keyedStreamProxy "say \"hi\""))).at? ["Properties",
            "Integration", "RequestTemplates", "application/json"]
          = some (.obj [("Fn::Sub",
            .arr [.str skeleton, .obj (Fields.mapValues Json.str values)])]) ∧
        Json.parse? (Intrinsic.expand values skeleton) = none :=
  ⟨by decide, (MappingTemplate.stream ⟨.literal "s",
    some (.literal "say \"hi\""), .putRecord⟩).text, [("StreamName", "s"),
    ("PartitionKey", "say \"hi\""),
      ("Data", "$util.base64Encode($input.body)")], rfl, by decide +kernel⟩

end GatewayStack
