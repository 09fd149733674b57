import GatewayStack.Proofs.Likeness
import GatewayStack.Proofs.Passes

/-!
# Like bodies and lists

The readers of a descriptor are sequences of the readers of a section. So
they come out alike one after the other, and the body of a descriptor with
them (`readBody_alike`). Of everything that is read only the authorizer and
the role are values taken over as they are, and they are like values; all
the rest is equal.

The conflicts of a list are found by what is equal in like proxies, so they
are the same ones.
-/

namespace GatewayStack

/-- Two bindings that differ in the values they take over alone. -/
structure Binding.Like (value : Json → Json → Prop) (a b : Binding) : Prop where
  authorizerId : Option.Rel value a.authorizerId b.authorizerId
  roleArn : Option.Rel value a.roleArn b.roleArn
  others : b = { a with authorizerId := b.authorizerId, roleArn := b.roleArn }

/-- Two proxies that differ in the values they take over alone. -/
structure ServiceProxy.Like (value : Json → Json → Prop)
    (a b : ServiceProxy) : Prop where
  http : a.http.Like value b.http
  target : b.target = a.target

namespace ServiceProxy.Like

variable {value : Json → Json → Prop} {a b : ServiceProxy}

theorem imp {value' : Json → Json → Prop} (h : a.Like value b)
    (himp : ∀ v w, value v w → value' v w) : a.Like value' b where
  target := h.target
  http.authorizerId := rel_imp h.http.authorizerId himp
  http.roleArn := rel_imp h.http.roleArn himp
  http.others := h.http.others

theorem verb (h : a.Like value b) : b.http.verb = a.http.verb := by
  rw [h.http.others]

theorem cors (h : a.Like value b) : b.http.cors = a.http.cors := by
  rw [h.http.others]

theorem path (h : a.Like value b) : b.path = a.path := by
  unfold ServiceProxy.path
  rw [h.http.others]

theorem service (h : a.Like value b) : b.service = a.service := by
  unfold ServiceProxy.service
  rw [h.target]

end ServiceProxy.Like

/-- Two errors at the same position, for related reasons. -/
structure SchemaError.Like (reason : Violation → Violation → Prop)
    (d e : SchemaError) : Prop where
  index : e.index = d.index
  violation : reason d.violation e.violation

namespace Schema

variable {L : Likeness} {s t : Section} {service : Service}

open Section

/-! ## The part that every service has -/

section binding

variable (h : Like L (Layout.body service) s t)
include h

theorem readVerb_alike : Alike L.violation Eq (readVerb s) (readVerb t) :=
  (h.requiredString rfl).bind_eq fun given => h.choice "method" _ _ given

theorem readCors_alike : Alike L.violation Eq (readCors s) (readCors t) := by
  have settings {a b : Section} (h : Like L (Layout.wholes corsFields) a b) :
      Alike L.violation Eq (readCorsSettings a) (readCorsSettings b) := by
    have whole := Layout.under_wholes corsFields
    unfold readCorsSettings
    refine (h.allowOnly (by rw [Layout.keys_wholes]; decide)).bind_eq
      fun _ => ?_
    refine (h.exclusive _ _).bind_eq fun _ => ?_
    refine (h.optional_eq (whole _) L.positive? _).bind_eq fun maxAge => ?_
    refine (h.string? (whole _)).bind_eq fun origin => ?_
    refine (h.stringList? (whole _)).bind_eq fun origins => ?_
    refine (h.stringList? (whole _)).bind_eq fun methods => ?_
    refine (h.stringList? (whole _)).bind_eq fun headers => ?_
    refine (h.flag (whole _)).bind_eq fun allowCredentials => ?_
    refine (h.string? (whole _)).bind_eq fun cacheControl => ?_
    exact .ok rfl
  unfold readCors
  rcases h.get?_cases "cors" with ⟨hs, ht⟩ |
    ⟨v, w, hs, ht, hvalue⟩ <;> rw [hs, ht]
  · exact .ok rfl
  rcases L.mapping_cases hvalue with ⟨as, bs, rfl, rfl, -⟩ | ⟨rfl, hnone⟩ |
    ⟨xs, ys, rfl, rfl⟩
  · refine (h.nested hvalue "cors").bind fun a b hcors => ?_
    exact (settings hcors).bind_eq fun _ => .ok rfl
  · cases v with
    | obj fields => cases hnone
    | bool b => cases b <;> exact .ok rfl
    | _ => exact h.refused "cors" _
  · exact h.refused "cors" _

theorem readAuthorization_alike :
    Alike L.violation Eq (readAuthorization s) (readAuthorization t) := by
  unfold readAuthorization
  refine (h.string? rfl).bind_eq fun given => ?_
  cases given with
  | none => exact .ok rfl
  | some text => exact (h.choice "authorizationType" _ _ text).map_eq some

theorem readAccess_alike :
    Alike L.violation (fun a b =>
      Option.Rel L.value a.authorizerId b.authorizerId ∧
      b.authorization = a.authorization ∧
      b.scopes = a.scopes) (readAccess s) (readAccess t) := by
  unfold readAccess
  refine (h.exclusive _ _).bind_eq fun _ => ?_
  refine (h.intrinsic? rfl).bind fun a b hid => ?_
  refine (h.stringList? rfl).bind_eq fun scopes => ?_
  refine (readAuthorization_alike h).bind_eq fun authorization => ?_
  have hsome : a.isSome = b.isSome := by cases hid <;> rfl
  rw [h.violation]
  refine .refuse_if (by rw [hsome]) (L.violation_refl _) ?_
  refine .refuse_if Iff.rfl (L.violation_refl _) ?_
  exact .ok ⟨hid, rfl, rfl⟩

end binding

theorem readRequest_alike (h : Like L (Layout.body service) s t)
    (templated : hasTemplates service = true) :
    Alike L.violation Eq (readRequest s) (readRequest t) := by
  unfold readRequest
  rcases h.get?_cases "request" with ⟨hs, ht⟩ |
    ⟨v, w, hs, ht, hvalue⟩ <;> rw [hs, ht]
  · exact .ok rfl
  rw [Layout.under_request templated] at hvalue
  refine (h.nested hvalue "request").bind fun a b hrequest => ?_
  refine (hrequest.allowOnly (by decide)).bind_eq fun _ => ?_
  exact hrequest.stringMap rfl

theorem readResponse_alike (h : Like L (Layout.body service) s t)
    (templated : hasTemplates service = true) :
    Alike L.violation Eq (readResponse s) (readResponse t) := by
  unfold readResponse
  rcases h.get?_cases "response" with ⟨hs, ht⟩ |
    ⟨v, w, hs, ht, hvalue⟩ <;> rw [hs, ht]
  · exact .ok rfl
  rw [Layout.under_response templated] at hvalue
  refine (h.nested hvalue "response").bind fun a b hresponse => ?_
  refine (hresponse.allowOnly (by decide)).bind_eq fun _ => ?_
  rcases hresponse.get?_cases "template" with ⟨hs, ht⟩ |
    ⟨v, w, hs, ht, hvalue⟩ <;> rw [hs, ht]
  · exact .ok rfl
  refine (hresponse.nested hvalue "template").bind fun c d htemplate => ?_
  refine (htemplate.allowOnly (by decide)).bind_eq fun _ => ?_
  refine (htemplate.string? rfl).bind_eq fun success => ?_
  refine (htemplate.string? rfl).bind_eq fun clientError => ?_
  exact (htemplate.string? rfl).bind_eq fun serverError => .ok rfl

theorem readTemplates_alike (h : Like L (Layout.body s.service) s t) :
    Alike L.violation Eq (readTemplates s) (readTemplates t) := by
  unfold readTemplates
  rw [h.service]
  split
  · next templated =>
      refine (readRequest_alike h templated).bind_eq fun request => ?_
      exact (readResponse_alike h templated).bind_eq fun response => .ok rfl
  · exact .ok rfl

theorem readBinding_alike (h : Like L (Layout.body s.service) s t) :
    Alike L.violation (Binding.Like L.value) (readBinding s)
      (readBinding t) := by
  unfold readBinding
  refine (h.requiredString rfl).bind_eq fun path => ?_
  refine (readVerb_alike h).bind_eq fun verb => ?_
  refine (readCors_alike h).bind_eq fun cors => ?_
  refine (readAccess_alike h).bind fun a b ⟨hid, hauthorization, hscopes⟩ => ?_
  refine (readTemplates_alike h).bind_eq fun templates => ?_
  refine (h.flag rfl).bind_eq fun keyRequired => ?_
  refine (h.intrinsic? rfl).bind fun role other hrole => ?_
  exact .ok ⟨hid, hrole, by rw [hauthorization, hscopes]⟩

/-! ## The part that a service decides -/

theorem readStream_alike (h : Like L (Layout.body .kinesis) s t) :
    Alike L.violation Eq (readStream s) (readStream t) := by
  have action : Alike L.violation Eq (readStreamAction s)
      (readStreamAction t) := by
    unfold readStreamAction
    refine (h.string? rfl).bind_eq fun given => ?_
    cases given with
    | none => exact .ok rfl
    | some text => exact h.choice "action" _ _ text
  unfold readStream
  refine (h.resourceName rfl _).bind_eq fun stream => ?_
  refine (h.source? rfl _).bind_eq fun partitionKey => ?_
  exact action.bind_eq fun _ => .ok rfl

theorem readQueue_alike (h : Like L (Layout.body .sqs) s t) :
    Alike L.violation Eq (readQueue s) (readQueue t) := by
  unfold readQueue
  refine (h.resourceName rfl _).bind_eq fun queue => ?_
  refine (h.stringMap rfl).bind_eq fun requestParameters => ?_
  exact (h.boolMap rfl).bind_eq fun acceptParameters => .ok rfl

theorem readObjectKey_alike (h : Like L (Layout.body .s3) s t) :
    Alike L.violation Eq (readObjectKey s) (readObjectKey t) := by
  unfold readObjectKey
  refine (h.required "key").bind fun v w hvalue => ?_
  have hkey : L.At Layout.objectKey v w := hvalue
  rcases L.mapping_cases hkey with ⟨as, bs, rfl, rfl, -⟩ | ⟨rfl, hnone⟩ |
    ⟨xs, ys, rfl, rfl⟩
  · have hnames : Layout.urlNames ⊆ urlParams.map Prod.fst ++ [] := by decide
    refine (h.oneOf hnames hkey "key").bind
      fun (a, param) (b, other) ⟨_, heq⟩ => ?_
    exact .ok (congrArg ObjectKey.url heq)
  · cases v with
    | obj fields => cases hnone
    | str key => exact .ok rfl
    | _ => exact h.refused "key" _
  · exact h.refused "key" _

theorem readObject_alike (h : Like L (Layout.body .s3) s t) :
    Alike L.violation Eq (readObject s) (readObject t) := by
  unfold readObject
  refine (h.requiredString rfl).bind_eq fun given => ?_
  refine (h.choice "action" _ _ given).bind_eq fun action => ?_
  refine (h.resourceName rfl _).bind_eq fun bucket => ?_
  refine (readObjectKey_alike h).bind_eq fun key => ?_
  refine (h.flag rfl).bind_eq fun partialContent => ?_
  exact (h.stringMap rfl).bind_eq fun requestParameters => .ok rfl

theorem readTopic_alike (h : Like L (Layout.body .sns) s t) :
    Alike L.violation Eq (readTopic s) (readTopic t) :=
  (h.resourceName rfl _).bind_eq fun _ => .ok rfl

theorem readItem_alike (h : Like L (Layout.body .dynamodb) s t) :
    Alike L.violation Eq (readItem s) (readItem t) := by
  unfold readItem
  refine (h.resourceName rfl _).bind_eq fun table => ?_
  refine (h.requiredString rfl).bind_eq fun given => ?_
  refine (h.choice "action" _ _ given).bind_eq fun action => ?_
  refine (h.tableKey? rfl).bind_eq fun hashKey => ?_
  rw [h.violation]
  refine .refuse_if Iff.rfl (L.violation_refl _) ?_
  refine (h.tableKey? rfl).bind_eq fun rangeKey => ?_
  refine (h.string? rfl).bind_eq fun condition => ?_
  refine .refuse_if Iff.rfl (L.violation_refl _) ?_
  exact .ok rfl

theorem readBus_alike (h : Like L (Layout.body .eventBridge) s t) :
    Alike L.violation Eq (readBus s) (readBus t) := by
  unfold readBus
  refine (h.resourceName rfl _).bind_eq fun bus => ?_
  refine (h.required "source").bind fun v w hvalue => ?_
  refine (h.source hvalue "source" _).bind_eq fun source => ?_
  refine (h.source? rfl _).bind_eq fun detailType => ?_
  exact (h.source? rfl _).bind_eq fun detail => .ok rfl

theorem readTarget_alike (h : Like L (Layout.body s.service) s t) :
    Alike L.violation Eq (readTarget s) (readTarget t) := by
  unfold readTarget
  rw [h.service]
  cases hservice : s.service <;> rw [hservice] at h
  · exact (readStream_alike h).map_eq _
  · exact (readQueue_alike h).map_eq _
  · exact (readObject_alike h).map_eq _
  · exact (readTopic_alike h).map_eq _
  · exact (readItem_alike h).map_eq _
  · exact (readBus_alike h).map_eq _

/-! ## A whole body -/

theorem readBody_alike (h : Like L (Layout.body s.service) s t) :
    Alike L.violation (ServiceProxy.Like L.value) (readBody s)
      (readBody t) := by
  unfold readBody
  refine (readBinding_alike h).bind fun a b hhttp => ?_
  refine (readTarget_alike h).bind_eq fun target => ?_
  rw [h.service]
  have hnames : Fields.keys (Layout.body s.service) ⊆ bodyFields s.service :=
    (Layout.keys_body s.service).symm ▸ List.Subset.refl _
  exact (h.allowOnly hnames).bind_eq fun _ => .ok ⟨hhttp, rfl⟩

/-! ## One descriptor -/

/-- What is wrong with a descriptor of several keys is read off its keys. -/
def keysFault (tags : List String) : Fault :=
  match tags.find? fun tag => (Service.ofTag? tag).isNone with
  | some unknown => .unsupportedProxy unknown
  | none => .multipleServices tags

theorem readDescriptor_several {entries : Fields Json}
    (h : 2 ≤ entries.length) :
    readDescriptor (.obj entries)
      = .error (topLevel (keysFault (Fields.keys entries))) := by
  match entries, h with
  | first :: second :: rest, _ =>
      unfold keysFault
      simp only [readDescriptor]
      split <;> next hfind => simp only [hfind]

/-- A descriptor with one key is read by the body under it, if the key
names a service. -/
theorem readDescriptor_alike {tag : String} {v w : Json}
    (h : ∀ service, Service.ofTag? tag = some service →
      L.At (.mapping (Layout.body service)) v w) :
    Alike L.violation (ServiceProxy.Like L.value)
      (readDescriptor (.obj [(tag, v)]))
      (readDescriptor (.obj [(tag, w)])) := by
  unfold readDescriptor
  dsimp only
  cases htag : Service.ofTag? tag with
  | none => exact .error (L.violation_refl _)
  | some service =>
      rcases L.mapping_cases (h service htag) with ⟨as, bs, rfl, rfl, hfields⟩ |
        ⟨rfl, hnone⟩ | ⟨xs, ys, rfl, rfl⟩
      · exact readBody_alike ⟨rfl, rfl, hfields⟩
      · cases v with
        | obj fields => cases hnone
        | _ => exact .error (L.violation_refl _)
      · exact .error (L.violation_refl _)

/-! ## A whole list -/

variable {value : Json → Json → Prop} {placed others : List Placed}
  {a b : ServiceProxy}

/-- Like proxies at the same position. -/
def PlacedLike (value : Json → Json → Prop) (p q : Placed) : Prop :=
  q.1 = p.1 ∧ p.2.Like value q.2

theorem placedFrom_alike {descriptors written : List Json}
    (h : List.Forall₂ (fun d e => Alike L.violation (ServiceProxy.Like L.value)
      (readDescriptor d) (readDescriptor e)) descriptors written)
      (start : Nat) :
    List.Forall₂ (PlacedLike L.value) (placedFrom start descriptors)
      (placedFrom start written) := by
  induction h generalizing start with
  | nil => exact .nil
  | @cons d e ds es hread _ ih =>
      unfold placedFrom
      revert hread
      generalize readDescriptor d = x
      generalize readDescriptor e = y
      rintro (⟨hlike⟩ | -)
      · exact .cons ⟨rfl, hlike⟩ (ih _)
      · exact ih _

/-- A search for what like items have in common ends at like items. -/
theorem find?_alike {α : Type} {R : α → α → Prop} {items more : List α}
    {p q : α → Bool} (h : List.Forall₂ R items more)
    (hpq : ∀ a b, R a b → q b = p a) :
    Option.Rel R (items.find? p) (more.find? q) := by
  induction h with
  | nil => exact .none
  | @cons a b _ _ hab _ ih =>
      rw [List.find?_cons, List.find?_cons, hpq a b hab]
      split
      · exact .some hab
      · exact ih

theorem duplicateAt_alike
    (hplaced : List.Forall₂ (PlacedLike value) placed others)
    (h : a.Like value b) (i : Nat) :
    duplicateAt others i b = duplicateAt placed i a := by
  have same (p q : Placed) (hpq : PlacedLike value p q) :
      sameRoute q.2 b = sameRoute p.2 a := by
    unfold sameRoute
    rw [hpq.2.path, hpq.2.verb, h.path, h.verb]
  unfold duplicateAt
  rcases rel_cases (find?_alike hplaced same) with ⟨hs, ht⟩ |
    ⟨⟨i, p⟩, ⟨j, q⟩, hs, ht, rfl, -⟩ <;> rw [hs, ht]
  rw [h.path, h.verb, h.service]

theorem preflightAt_alike
    (hplaced : List.Forall₂ (PlacedLike value) placed others)
    (h : a.Like value b) (i : Nat) :
    preflightAt others i b = preflightAt placed i a := by
  have same (p q : Placed) (hpq : PlacedLike value p q) :
      (q.2.http.cors.isSome && decide (q.2.path = b.path))
        = (p.2.http.cors.isSome && decide (p.2.path = a.path)) := by
    rw [hpq.2.path, hpq.2.cors, h.path]
  unfold preflightAt
  rw [h.verb]
  rcases rel_cases (find?_alike hplaced same) with ⟨hs, ht⟩ |
    ⟨⟨i, p⟩, ⟨j, q⟩, hs, ht, rfl, -⟩ <;> rw [hs, ht]
  rw [h.path, h.service]

theorem errorsAt_alike {descriptor written : Json}
    (h : Alike L.violation (ServiceProxy.Like L.value)
      (readDescriptor descriptor) (readDescriptor written))
    (hplaced : List.Forall₂ (PlacedLike L.value) placed others) (i : Nat) :
    List.Forall₂ (SchemaError.Like L.violation) (errorsAt placed i descriptor)
      (errorsAt others i written) := by
  unfold errorsAt
  revert h
  generalize readDescriptor descriptor = x
  generalize readDescriptor written = y
  rintro (⟨hlike⟩ | ⟨hviolation⟩)
  · simp only [duplicateAt_alike hplaced hlike, preflightAt_alike hplaced hlike]
    exact List.forall₂_same.mpr fun error _ => ⟨rfl, L.violation_refl _⟩
  · exact .cons ⟨rfl, hviolation⟩ .nil

theorem errorsFrom_alike {descriptors written : List Json}
    (h : List.Forall₂ (fun d e => Alike L.violation (ServiceProxy.Like L.value)
      (readDescriptor d) (readDescriptor e)) descriptors written)
    (hplaced : List.Forall₂ (PlacedLike L.value) placed others) (start : Nat) :
    List.Forall₂ (SchemaError.Like L.violation)
      (errorsFrom placed start descriptors)
      (errorsFrom others start written) := by
  induction h generalizing start with
  | nil => exact .nil
  | cons hread _ ih =>
      exact List.rel_append (errorsAt_alike hread hplaced start) (ih _)

/-- Lists whose descriptors are read alike are read alike. -/
theorem parse_alike {descriptors written : List Json}
    (h : List.Forall₂ (fun d e => Alike L.violation (ServiceProxy.Like L.value)
      (readDescriptor d) (readDescriptor e)) descriptors written) :
    Alike (fun d e => List.Forall₂ (SchemaError.Like L.violation)
      d.errors e.errors) (List.Forall₂ (ServiceProxy.Like L.value)) (parse
      descriptors) (parse written) := by
  have hplaced := placedFrom_alike h 0
  have herrors := errorsFrom_alike h hplaced 0
  simp only [parse_eq]
  revert herrors
  generalize errorsFrom (placedFrom 0 descriptors) 0 descriptors = errors
  generalize errorsFrom (placedFrom 0 written) 0 written = more
  rintro (- | ⟨hfirst, hothers⟩)
  · refine .ok ?_
    rw [List.forall₂_map_left_iff, List.forall₂_map_right_iff]
    exact hplaced.imp fun _ _ => And.right
  · exact .error (.cons hfirst hothers)

end Schema

end GatewayStack
