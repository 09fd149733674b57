import GatewayStack.Stack.Integration
import Mathlib.Data.List.Infix

/-!
# Holes and their values

A substitution is written as one text, and whoever reads the text finds a hole
wherever a dollar is followed by a brace. That these are just the pieces that
were meant as holes is no matter of course: a dollar at the end of one piece
would make a hole of a brace in the next. It is so when no plain piece has the
two characters in a row or ends in a dollar, and no name has a dollar or a
closing brace in it (`mentions_iff`). Mapping templates have many dollars and
many braces, and all of their texts are of this kind.

The pieces and the values are put together side by side from the same optional
parts, so that the one matches the other is shown along the way they are put
together (`Matched.append`).
-/

namespace GatewayStack

namespace Intrinsic

/-- The parameters that every deployment has values for. -/
def pseudoParameters : List String :=
  ["AWS::AccountId", "AWS::NotificationARNs", "AWS::NoValue", "AWS::Partition",
    "AWS::Region", "AWS::StackId", "AWS::StackName", "AWS::URLSuffix"]

/-- The text has a hole of this name somewhere. The name goes as far as the
first brace that closes it. -/
def Mentions (text name : String) : Prop :=
  '\x7d' ∉ name.toList ∧
    ∃ before after, text.toList
      = before ++ '$' :: '\x7b' :: (name.toList ++ '\x7d' :: after)

/-- Every hole of the text has a value or is a pseudo parameter, and every
value has a hole. -/
structure Tight (text : String) (values : Fields Json) : Prop where
  closed : ∀ name, Mentions text name → name ∈ pseudoParameters ∨
    name ∈ Fields.keys values
  used : ∀ name ∈ Fields.keys values, Mentions text name

end Intrinsic

open Intrinsic (pseudoParameters Mentions Tight)

namespace Piece

/-- A piece that can be told apart in a text, and as a hole is of one of the
names or of a pseudo parameter. -/
def Answered (names : List String) : Piece → Prop
  | .plain text => ¬ ['$', '\x7b'] <:+: text.toList ∧
    text.toList.getLast? ≠ some '$'
  | .hole name => '$' ∉ name.toList ∧ '\x7d' ∉ name.toList ∧
      (name ∈ pseudoParameters ∨ name ∈ names)

instance (names : List String) : DecidablePred (Answered names)
  | .plain text =>
    inferInstanceAs (Decidable (¬ ['$', '\x7b'] <:+: text.toList ∧ _))
  | .hole name => inferInstanceAs (Decidable ('$' ∉ name.toList ∧ _ ∧ _))

theorem Answered.mono {names more : List String} {piece : Piece}
    (h : piece.Answered names) (le : names ⊆ more) : piece.Answered more := by
  cases piece with
  | plain text => exact h
  | hole name => exact ⟨h.1, h.2.1, h.2.2.imp_right fun hname => le hname⟩

theorem toList_text_hole (name : String) :
    (Piece.hole name).text.toList
      = '$' :: '\x7b' :: (name.toList ++ ['\x7d']) := by
  simp [Piece.text]

variable {names : List String}

/-- A dollar inside a piece, with what follows it: the piece is a hole, and the
dollar is its first character. -/
theorem eq_hole_of_dollar {piece : Piece} (answered : piece.Answered names)
    {before inside more rest : List Char}
    (h : piece.text.toList = before ++ '$' :: inside)
    (hrest : '\x7b' :: rest = inside ++ more) :
    ∃ name, piece = .hole name ∧ inside
      = '\x7b' :: (name.toList ++ ['\x7d']) := by
  cases piece with
  | plain text =>
      obtain ⟨apart, hlast⟩ := answered
      cases inside with
      | nil =>
          rw [show text.toList = before ++ ['$'] from h,
            List.getLast?_concat] at hlast
          exact absurd rfl hlast
      | cons c inside =>
          obtain ⟨rfl, -⟩ := List.cons.inj hrest
          exact absurd ⟨before, inside,
            by rw [List.append_assoc]; exact h.symm⟩ apart
  | hole name =>
      rw [toList_text_hole] at h
      cases before with
      | nil => exact ⟨name, rfl, (List.cons.inj h).2.symm⟩
      | cons c before =>
          have hmem : '$' ∈ '\x7b' :: (name.toList ++ ['\x7d']) := by
            rw [(List.cons.inj h).2]
            exact List.mem_append_right _ List.mem_cons_self
          simp [answered.1] at hmem

/-- Wherever a hole opens in the text of some pieces, one of them is a hole and
begins there. -/
theorem exists_hole_of_opening {pieces : List Piece}
    (answered : ∀ piece ∈ pieces, piece.Answered names)
    {before rest : List Char}
    (h : (pieces.flatMap fun piece => piece.text.toList)
      = before ++ '$' :: '\x7b' :: rest) :
    ∃ name after, .hole name ∈ pieces ∧
      rest = name.toList ++ '\x7d' :: after := by
  induction pieces generalizing before with
  | nil => simp at h
  | cons piece pieces ih =>
      obtain ⟨hpiece, hpieces⟩ := List.forall_mem_cons.mp answered
      have later (before : List Char)
          (h : (pieces.flatMap fun piece => piece.text.toList)
            = before ++ '$' :: '\x7b' :: rest) :
          ∃ name after, .hole name ∈ piece :: pieces ∧
            rest = name.toList ++ '\x7d' :: after := by
        obtain ⟨name, after, hmem, hrest⟩ := ih hpieces h
        exact ⟨name, after, List.mem_cons_of_mem _ hmem, hrest⟩
      rw [List.flatMap_cons] at h
      rcases List.append_eq_append_iff.mp h with ⟨_, -, hmore⟩ |
        ⟨inside, htext, hmore⟩
      · exact later _ hmore
      cases inside with
      | nil => exact later [] hmore.symm
      | cons c inside =>
          obtain ⟨rfl, hrest⟩ := List.cons.inj hmore
          obtain ⟨name, rfl, rfl⟩ := eq_hole_of_dollar hpiece htext hrest
          refine ⟨name, pieces.flatMap fun piece => piece.text.toList,
            List.mem_cons_self, (List.cons.inj hrest).2.trans ?_⟩
          exact List.append_assoc _ _ _

theorem mentions_of_hole {pieces : List Piece} {name : String}
    (h : .hole name ∈ pieces) (hname : '\x7d' ∉ name.toList) :
    Mentions (String.join (pieces.map text)) name := by
  obtain ⟨before, after, rfl⟩ := List.append_of_mem h
  refine ⟨hname, (before.flatMap fun piece => piece.text.toList),
    (after.flatMap fun piece => piece.text.toList), ?_⟩
  rw [String.toList_join, List.flatMap_map, List.flatMap_append,
    List.flatMap_cons, toList_text_hole]
  simp only [List.cons_append, List.append_assoc, List.nil_append]

/-- Up to the first brace that closes them, two names are the same. -/
theorem eq_of_append_cons {c : Char} {a b x y : List Char}
    (ha : c ∉ a) (hb : c ∉ b) (h : a ++ c :: x = b ++ c :: y) : a = b := by
  have upTo {front : List Char} (hfront : c ∉ front) (back : List Char) :
      (front ++ c :: back).takeWhile (· ≠ c) = front := by
    have other : ∀ d ∈ front, decide (d ≠ c) = true := fun d hd =>
      decide_eq_true (ne_of_mem_of_not_mem hd hfront)
    rw [List.takeWhile_append_of_pos other,
      List.takeWhile_cons_of_neg (by simp), List.append_nil]
  rw [← upTo ha x, h, upTo hb y]

/-- What a text has holes for is what its pieces are holes of. -/
theorem mentions_iff {pieces : List Piece}
    (answered : ∀ piece ∈ pieces, piece.Answered names) {name : String} :
    Mentions (String.join (pieces.map text)) name ↔ .hole name ∈ pieces := by
  refine ⟨fun ⟨hname, before, after, htext⟩ => ?_, fun h =>
    mentions_of_hole h (answered _ h).2.1⟩
  rw [String.toList_join, List.flatMap_map] at htext
  obtain ⟨found, tail, hmem, hrest⟩ := exists_hole_of_opening answered htext
  have hfound : '\x7d' ∉ found.toList := (answered _ hmem).2.1
  rwa [String.toList_inj.mp (eq_of_append_cons hname hfound hrest)]

end Piece

/-! ## Pieces and names that match -/

/-- The pieces can be told apart, their holes have one of the names or are
pseudo parameters, and every name has a hole. -/
def Matched (pieces : List Piece) (names : List String) : Prop :=
  (∀ piece ∈ pieces, piece.Answered names) ∧ ∀ name ∈ names, .hole name ∈ pieces

instance (pieces : List Piece) (names : List String) :
    Decidable (Matched pieces names) :=
  inferInstanceAs (Decidable (_ ∧ _))

theorem Matched.append {a b : List Piece} {names more : List String}
    (ha : Matched a names) (hb : Matched b more) :
    Matched (a ++ b) (names ++ more) := by
  refine ⟨List.forall_mem_append.mpr ⟨fun piece hpiece => ?_,
    fun piece hpiece => ?_⟩, List.forall_mem_append.mpr ⟨fun name hname => ?_,
    fun name hname => ?_⟩⟩
  · exact (ha.1 piece hpiece).mono (List.subset_append_left _ _)
  · exact (hb.1 piece hpiece).mono (List.subset_append_right _ _)
  · exact List.mem_append_left _ (ha.2 name hname)
  · exact List.mem_append_right _ (hb.2 name hname)

theorem Matched.tight {pieces : List Piece} {values : Fields Json}
    (h : Matched pieces (Fields.keys values)) :
    Tight (Substitution.text ⟨pieces, values⟩) values where
  closed _ hname := (h.1 _ ((Piece.mentions_iff h.1).mp hname)).2.2
  used name hname := (Piece.mentions_iff h.1).mpr (h.2 name hname)

/-! ## The substitutions of a target -/

theorem Service.matched_arn (service : Service) :
    Matched service.arnPieces [service.hole] := by
  cases service <;> decide

namespace MappingTemplate

theorem matched_stream (target : StreamTarget) :
    Matched (stream target).pieces (Fields.keys (stream target).values) := by
  unfold stream
  cases target.action
  · exact (by decide +kernel :
      Matched recordPieces ["StreamName", "PartitionKey", "Data"])
  · exact (by decide +kernel :
      Matched recordsPieces ["StreamName", "PartitionKey"])

theorem matched_topic (target : TopicTarget) :
    Matched (topic target).pieces (Fields.keys (topic target).values) := by
  have front : Matched [.plain
      "Action=Publish&Message=$util.urlEncode($input.body)&TopicArn=$util.urlEncode('"]
      [] := by
    decide +kernel
  have back : Matched [.plain "')"] [] := by decide
  exact (front.append Service.sns.matched_arn).append back

theorem matched_bus (target : BusTarget) :
    Matched (bus target).pieces (Fields.keys (bus target).values) :=
  (by decide : Matched (bus ⟨.literal "", .literal "", none, none⟩).pieces
    ["EventBusName", "Detail", "DetailType", "Source"])

/-- The names of the values for the parts of a table key. -/
def keyNames (target : ItemTarget) : List String :=
  (keyParts target).flatMap fun part => Fields.keys (keyValues part.1 part.2)

theorem matched_keyList (target : ItemTarget) :
    Matched (keyListPieces target) (keyNames target) := by
  have hash : Matched (keyPieces "Hash")
      ["HashKey", "HashAttributeType", "HashAttributeValue"] := by
    decide
  have range : Matched (keyPieces "Range")
      ["RangeKey", "RangeAttributeType", "RangeAttributeValue"] := by
    decide
  have comma : Matched [.plain ", "] [] := by decide
  have nothing : Matched [] [] := by decide
  unfold keyListPieces keyNames keyParts
  cases target.hashKey with
  | none =>
      cases target.rangeKey with
      | none => exact nothing
      | some key => exact range.append nothing
  | some key =>
      cases target.rangeKey with
      | none => exact hash.append nothing
      | some other => exact hash.append (comma.append (range.append nothing))

theorem matched_itemPieces (target : ItemTarget) :
    Matched (itemPieces target) ("TableName" :: keyNames target) := by
  have keys := matched_keyList target
  have front : Matched [.plain "\x7b\"TableName\": \"", .hole "TableName",
    .plain "\", \"Key\": \x7b"] ["TableName"] := by decide
  have opening : Matched
    [.plain "#set($item = $input.path('$'))\x7b\"TableName\": \"",
    .hole "TableName", .plain "\", \"Item\": \x7b"] ["TableName"] := by decide
  have close : Matched [.plain "\x7d"] [] := by decide
  have loop : Matched [.plain "#foreach($key in $item.keySet())", bodyAttribute,
    .plain ",#end"] [] := by decide
  have only : Matched [.plain "#foreach($key in $item.keySet())", bodyAttribute,
    .plain "#if($foreach.hasNext),#end#end"] [] := by decide
  have attributes : Matched (attributePieces target) (keyNames target) := by
    unfold attributePieces
    split
    · next hnone =>
        rw [keyNames, List.isEmpty_iff.mp hnone]
        exact only
    · exact loop.append keys
  rw [← List.append_nil (_ :: keyNames target)]
  unfold itemPieces
  split
  · exact (opening.append attributes).append close
  · exact (front.append keys).append close
  · exact (front.append keys).append close

theorem matched_item (target : ItemTarget) :
    Matched (item target).pieces (Fields.keys (item target).values) := by
  have hnames : Fields.keys (item target).values
      = "TableName" :: keyNames target ++
        (target.condition.map fun _ => "ConditionExpression").toList ++ [] := by
    unfold item Fields.keys keyNames
    rw [List.map_append, List.map_append, List.map_flatMap, List.append_nil]
    cases target.condition <;> rfl
  have hcondition : Matched (conditionPieces target)
      (target.condition.map fun _ => "ConditionExpression").toList := by
    unfold conditionPieces
    cases target.condition
    · exact (by decide : Matched [] [])
    · exact (by decide : Matched [.plain ", \"ConditionExpression\": \"",
        .hole "ConditionExpression", .plain "\""] ["ConditionExpression"])
  rw [hnames]
  exact ((matched_itemPieces target).append hcondition).append (by decide)

end MappingTemplate

/-- The address of an integration, as a substitution. -/
def Integration.addressed (pieces : List Piece) (values : Fields Json) :
    Substitution :=
  ⟨[.plain "arn:", .partition, .plain ":apigateway:", .region, .plain ":"] ++
    pieces, values⟩

theorem Integration.matched_addressed {pieces : List Piece}
    {values : Fields Json} (h : Matched pieces (Fields.keys values)) :
    Matched (addressed pieces values).pieces
      (Fields.keys (addressed pieces values).values) := by
  have front : Matched
      [.plain "arn:", .partition, .plain ":apigateway:", .region,
        .plain ":"] [] := by
    decide
  exact front.append h

namespace Target

/-- Where the requests go. -/
def uri : Target → Substitution
  | .kinesis target => Integration.addressed
    [.plain ("kinesis:action/" ++ target.action.text)] []
  | .sqs target => Integration.addressed
      [.plain "sqs:path//", .account, .plain "/", .hole Service.sqs.hole]
      [(Service.sqs.hole, target.queue.toJson)]
  | .s3 _ => Integration.addressed
    [.plain "s3:path/\x7bbucket\x7d/\x7bobject\x7d"] []
  | .sns _ => Integration.addressed [.plain "sns:path//"] []
  | .dynamodb target => Integration.addressed
    [.plain ("dynamodb:action/" ++ target.action.text)] []
  | .eventBridge _ => Integration.addressed
    [.plain "events:action/PutEvents"] []

/-- What the body of a request is made from by default. -/
def template? : Target → Option Substitution
  | .kinesis target => some (MappingTemplate.stream target)
  | .sns target => some (MappingTemplate.topic target)
  | .dynamodb target => some (MappingTemplate.item target)
  | .eventBridge target => some (MappingTemplate.bus target)
  | .sqs _ | .s3 _ => none

/-- The bucket, as a parameter of a request to it. -/
def bucket? : Target → Option Substitution
  | .s3 target => some ⟨[.plain "'", .hole Service.s3.hole, .plain "'"],
      [(Service.s3.hole, target.bucket.toJson)]⟩
  | _ => none

/-- The resource that the shared role allows. -/
def permitted (target : Target) : Substitution :=
  ⟨target.service.arnPieces,
    [(target.service.hole, target.resourceName.toJson)]⟩

/-- Every substitution that is made for a target. -/
def substitutions (target : Target) : List Substitution :=
  [target.uri, target.permitted] ++ target.template?.toList ++
    target.bucket?.toList

def texts (target : Target) : List String :=
  target.substitutions.map Substitution.text

/-- The target without any string of the configuration. What is left is its
service, its action, and which of its optional parts there are. -/
def blank : Target → Target
  | .kinesis target =>
    .kinesis { target with stream := .literal "", partitionKey := none }
  | .sqs _ => .sqs ⟨.literal "", [], []⟩
  | .s3 target => .s3 ⟨target.action, .literal "", .fixed "",
    target.partialContent, []⟩
  | .sns _ => .sns ⟨.literal ""⟩
  | .dynamodb target => .dynamodb
      { table := .literal ""
        action := target.action
        hashKey := target.hashKey.map fun _ => ⟨.path "", ""⟩
        rangeKey := target.rangeKey.map fun _ => ⟨.path "", ""⟩
        condition := target.condition.map fun _ => "" }
  | .eventBridge _ => .eventBridge ⟨.literal "", .literal "", none, none⟩

theorem matched_uri (target : Target) :
    Matched target.uri.pieces (Fields.keys target.uri.values) := by
  cases target with
  | kinesis target =>
      have matched (action : StreamAction) :
          Matched [.plain ("kinesis:action/" ++ action.text)] [] := by
        cases action <;> decide
      exact Integration.matched_addressed (matched target.action)
  | sqs target =>
      exact Integration.matched_addressed
        (by decide : Matched _ [Service.sqs.hole])
  | dynamodb target =>
      have matched (action : ItemAction) :
          Matched [.plain ("dynamodb:action/" ++ action.text)] [] := by
        cases action <;> decide
      exact Integration.matched_addressed (matched target.action)
  | s3 | sns | eventBridge =>
      exact Integration.matched_addressed (by decide : Matched _ [])

theorem matched_of_mem_substitutions {target : Target}
    {substitution : Substitution} (h : substitution ∈ target.substitutions) :
    Matched substitution.pieces (Fields.keys substitution.values) := by
  simp only [substitutions, List.cons_append, List.nil_append, List.mem_cons,
    List.mem_append, Option.mem_toList] at h
  rcases h with rfl | rfl | htemplate | hbucket
  · exact target.matched_uri
  · exact target.service.matched_arn
  · cases target with
    | kinesis target =>
        cases htemplate; exact MappingTemplate.matched_stream target
    | sns target => cases htemplate; exact MappingTemplate.matched_topic target
    | dynamodb target =>
        cases htemplate; exact MappingTemplate.matched_item target
    | eventBridge target =>
        cases htemplate; exact MappingTemplate.matched_bus target
    | sqs | s3 => cases htemplate
  · cases target with
    | s3 target =>
        cases hbucket
        exact (by decide :
          Matched [.plain "'", .hole Service.s3.hole, .plain "'"]
            [Service.s3.hole])
    | _ => cases hbucket

/-- No string of the configuration is in a text. -/
theorem texts_blank (target : Target) : target.blank.texts = target.texts := by
  cases target with
  | kinesis target =>
      obtain ⟨stream, partitionKey, action⟩ := target
      cases action <;> rfl
  | dynamodb target =>
      obtain ⟨table, action, hashKey, rangeKey, condition⟩ := target
      cases action <;> cases hashKey <;> cases rangeKey
        <;> cases condition <;> rfl
  | sqs | s3 | sns | eventBridge => rfl

end Target

end GatewayStack
