import GatewayStack.Proofs.Conflicts
import GatewayStack.Proofs.Sections

/-!
# The schema accepts exactly the grammar

The reader of each part of a descriptor succeeds exactly on the mappings that
the grammar describes there. Most parts are sequences of independent checks, and
the proof goes down the sequence once. Two are not: the kind of authorization is
compared with what else is there, and so is the action on an item of a table.
For those the results of the earlier steps are named and compared.

A list of one descriptor can fail in one more way than the descriptor itself, by
claiming the verb of its own preflight (`parse_accepts_iff`).
-/

namespace GatewayStack

open Grammar (Given Present Required Optional Closed Spells IsText)

/-! ## Spellings -/

/-- Searching all of some kinds for a spelling finds the kind that is so
spelled. -/
theorem find?_spelled {α : Type} {all : List α} {text : α → String}
    (complete : ∀ a, a ∈ all) (injective : ∀ a b, text a = text b → a = b)
    {s : String} {a : α} :
    (all.find? fun kind => text kind = s) = some a ↔ text a = s := by
  have spells : ∀ {found}, (all.find? fun kind => text kind = s) = some found →
      text found = s := fun h => by simpa using List.find?_some h
  refine ⟨spells, fun h => ?_⟩
  cases hfind : all.find? fun kind => text kind = s with
  | none => exact absurd (decide_eq_true h) (List.find?_eq_none.mp hfind
    a (complete a))
  | some found => rw [injective found a ((spells hfind).trans h.symm)]

theorem Verb.mem_all (a : Verb) : a ∈ Verb.all := by
  cases a <;> decide

theorem Verb.ofString?_eq_some {s : String} {verb : Verb} :
    Verb.ofString? s = some verb ↔ verb.lower = Text.asciiLower s :=
  find?_spelled Verb.mem_all fun a b => by cases a <;> cases b <;> decide

theorem Service.mem_all (a : Service) : a ∈ Service.all := by
  cases a <;> decide

theorem Service.ofTag?_eq_some {s : String} {service : Service} :
    Service.ofTag? s = some service ↔ service.tag = s :=
  find?_spelled Service.mem_all fun a b => by cases a <;> cases b <;> decide

theorem Authorization.mem_all (a : Authorization) : a ∈ Authorization.all := by
  cases a <;> decide

theorem Authorization.ofString?_eq_some {s : String} {kind : Authorization} :
    Authorization.ofString? s = some kind ↔ kind.text = s :=
  find?_spelled Authorization.mem_all fun a b =>
    by cases a <;> cases b <;> decide

theorem StreamAction.mem_all (a : StreamAction) : a ∈ StreamAction.all := by
  cases a <;> decide

theorem StreamAction.ofString?_eq_some {s : String} {action : StreamAction} :
    StreamAction.ofString? s = some action ↔ action.text = s :=
  find?_spelled StreamAction.mem_all fun a b =>
    by cases a <;> cases b <;> decide

theorem ObjectAction.mem_all (a : ObjectAction) : a ∈ ObjectAction.all := by
  cases a <;> decide

theorem ObjectAction.ofString?_eq_some {s : String} {action : ObjectAction} :
    ObjectAction.ofString? s = some action ↔ action.text = s :=
  find?_spelled ObjectAction.mem_all fun a b =>
    by cases a <;> cases b <;> decide

theorem ItemAction.mem_all (a : ItemAction) : a ∈ ItemAction.all := by
  cases a <;> decide

theorem ItemAction.ofString?_eq_some {s : String} {action : ItemAction} :
    ItemAction.ofString? s = some action ↔ action.text = s :=
  find?_spelled ItemAction.mem_all fun a b => by cases a <;> cases b <;> decide

namespace Section

variable {α β : Type} {body : Section} {name : String} {all : List α}
  {text : α → String} {ofString? : String → Option α}

theorem spells_iff (complete : ∀ a, a ∈ all)
    (spelled : ∀ {s a}, ofString? s = some a ↔ text a = s) {s : String} :
    (∃ a, ofString? s = some a) ↔ s ∈ all.map text := by
  simp only [spelled, List.mem_map]
  exact ⟨fun ⟨a, h⟩ => ⟨a, complete a, h⟩, fun ⟨a, _, h⟩ => ⟨a, h⟩⟩

theorem exists_choice_eq_ok (complete : ∀ a, a ∈ all)
    (spelled : ∀ {s a}, ofString? s = some a ↔ text a = s)
    {allowed : List String} :
    (∃ given, body.requiredString name = .ok given ∧
      ∃ a, body.choice name ofString? allowed given = .ok a) ↔
      Required body.fields name (Spells (all.map text)) := by
  simp only [requiredString_eq_ok, choice_eq_ok, spells_iff complete spelled]
  exact ⟨fun ⟨given, hgiven, hmem⟩ => ⟨_, hgiven, given, hmem, rfl⟩,
    fun ⟨_, hgiven, given, hmem, heq⟩ => ⟨given, heq ▸ hgiven, hmem⟩⟩

theorem succeeds_choice? (complete : ∀ a, a ∈ all)
    (spelled : ∀ {s a}, ofString? s = some a ↔ text a = s)
    {f : Option String → Except Violation β} (absent : Succeeds (f none))
    (present : ∀ given, Succeeds (f (some given)) ↔ ∃ a,
      ofString? given = some a) :
    Succeeds (body.string? name >>= f) ↔
      Optional body.fields name (Spells (all.map text)) := by
  simp only [succeeds_bind, string?_eq_ok]
  refine ⟨fun ⟨given, hgiven, h⟩ value hvalue => ?_, fun h => ?_⟩
  · rcases hgiven with ⟨habsent, -⟩ | ⟨given, hgiven, rfl⟩
    · exact absurd ⟨value, hvalue⟩ habsent
    · refine ⟨given, (spells_iff complete spelled).mp ((present given).mp h),
        ?_⟩
      exact Option.some.inj (hvalue.1.symm.trans hgiven.1)
  · by_cases hthere : Present body.fields name
    · obtain ⟨value, hvalue⟩ := hthere
      obtain ⟨given, hmem, rfl⟩ := h value hvalue
      refine ⟨some given, Or.inr ⟨given, hvalue, rfl⟩, (present given).mpr ?_⟩
      exact (spells_iff complete spelled).mpr hmem
    · exact ⟨none, Or.inl ⟨hthere, rfl⟩, absent⟩

end Section

namespace Schema

open Grammar

variable {body : Section}

/-! ## The part that every service has -/

theorem readVerb_eq_ok {verb : Verb} :
    readVerb body = .ok verb ↔
      ∃ s, Given body.fields "method" (.str s) ∧
        verb.lower = Text.asciiLower s := by
  unfold readVerb
  simp only [bind_eq_ok, Section.requiredString_eq_ok, Section.choice_eq_ok,
    Verb.ofString?_eq_some]

theorem succeeds_readVerb : Succeeds (readVerb body) ↔
    Required body.fields "method" IsVerb := by
  unfold Succeeds Required IsVerb
  simp only [readVerb_eq_ok]
  refine ⟨fun ⟨verb, s, hgiven, heq⟩ => ⟨_, hgiven, s, rfl, ?_⟩,
    fun ⟨_, hgiven, s, hs, hmem⟩ => ?_⟩
  · rw [← heq]
    cases verb <;> decide
  · have hall : verbs = Verb.all.map Verb.lower := rfl
    rw [hall] at hmem
    obtain ⟨verb, -, hverb⟩ := List.mem_map.mp hmem
    exact ⟨verb, s, hs ▸ hgiven, hverb⟩

theorem succeeds_readCorsSettings {cors : Section} :
    Succeeds (readCorsSettings cors) ↔ Grammar.CorsSettings cors.fields := by
  have steps : Succeeds (readCorsSettings cors) ↔
      Succeeds (cors.allowOnly corsFields) ∧
        Succeeds (cors.exclusive "origin" "origins") ∧
      Succeeds (cors.optional .positiveInteger Json.positive? "maxAge") ∧
      Succeeds (cors.string? "origin") ∧ Succeeds (cors.stringList? "origins") ∧
      Succeeds (cors.stringList? "methods") ∧
      Succeeds (cors.stringList? "headers") ∧
      Succeeds (cors.flag "allowCredentials") ∧
      Succeeds (cors.string? "cacheControl") := by
    unfold readCorsSettings
    simp only [succeeds_bind, succeeds_pure, exists_and_right, and_true]
    rfl
  have count : Succeeds (cors.optional .positiveInteger
      Json.positive? "maxAge") ↔
      Optional cors.fields "maxAge" IsCount :=
    Section.succeeds_optional fun _ => Json.isCount_iff
  rw [steps, count, Section.succeeds_allowOnly, Section.succeeds_exclusive,
    Section.succeeds_string?, Section.succeeds_stringList?,
    Section.succeeds_stringList?, Section.succeeds_stringList?,
    Section.succeeds_flag, Section.succeeds_string?]
  constructor
  · rintro ⟨closed, exclusive, maxAge, origin, origins, methods, headers,
      credentials, cache⟩
    exact ⟨closed, exclusive, origin, origins, methods, headers, credentials,
      maxAge, cache⟩
  · rintro ⟨closed, exclusive, origin, origins, methods, headers, credentials,
      maxAge, cache⟩
    exact ⟨closed, exclusive, maxAge, origin, origins, methods, headers,
      credentials, cache⟩

theorem succeeds_readCors : Succeeds (readCors body) ↔
    Optional body.fields "cors" IsCors := by
  refine Section.succeeds_when_present (fun hget => ?_) fun value hget => ?_
  · unfold readCors
    rw [hget]
    exact succeeds_ok none
  · unfold readCors
    rw [hget]
    cases value with
    | bool b => cases b <;> exact iff_of_true (succeeds_ok _) (Or.inl ⟨_, rfl⟩)
    | obj fields =>
        have settings :
            Succeeds (readCorsSettings ⟨body.service,
              body.fieldPath "cors", fields⟩) ↔
            Grammar.CorsSettings fields := succeeds_readCorsSettings
        have nested : body.nested "cors" (.obj fields)
            = .ok ⟨body.service, body.fieldPath "cors", fields⟩ := rfl
        simp only [succeeds_bind, nested, Except.ok.injEq, exists_eq_left',
          succeeds_pure, and_true]
        refine settings.trans ⟨fun h => Or.inr ⟨fields, rfl, h⟩, fun h => ?_⟩
        obtain ⟨b, hb⟩ | ⟨other, hother, h⟩ := h
        · cases hb
        · cases hother
          exact h
    | _ => simp [not_succeeds_error, IsCors, IsTruth, IsMapping]

/-- CORS is asked for by anything but `false`. -/
theorem isSome_of_readCors {choice : Option CorsChoice}
    (h : readCors body = .ok choice) :
    choice.isSome ↔ ∃ cors, Given body.fields "cors" cors ∧
      cors ≠ .bool false := by
  simp only [← Section.get?_eq_some]
  unfold readCors at h
  split at h
  · next hget =>
      rw [hget, ← Except.ok.inj h]
      simp
  · next hget =>
      rw [hget, ← Except.ok.inj h]
      simp
  · next hget =>
      rw [hget, ← Except.ok.inj h]
      simp
  · next fields hget =>
      obtain ⟨cors, -, h⟩ := bind_eq_ok.mp h
      obtain ⟨settings, -, h⟩ := bind_eq_ok.mp h
      rw [hget, ← Except.ok.inj h]
      simp
  · cases h

/-! ## Who may call -/

theorem readAuthorization_eq_ok {result : Option Authorization} :
    readAuthorization body = .ok result ↔
      (¬ Present body.fields "authorizationType" ∧ result = none) ∨
        ∃ kind : Authorization, Given body.fields "authorizationType"
          (.str kind.text) ∧
          result = some kind := by
  unfold readAuthorization
  simp only [bind_eq_ok, Section.string?_eq_ok]
  refine ⟨fun ⟨given, hgiven, h⟩ => ?_, fun h => ?_⟩
  · rcases hgiven with ⟨habsent, rfl⟩ | ⟨text, hgiven, rfl⟩
    · exact Or.inl ⟨habsent, (Except.ok.inj h).symm⟩
    · obtain ⟨kind, hchoice, h⟩ := map_eq_ok.mp h
      have htext := Authorization.ofString?_eq_some.mp
        (Section.choice_eq_ok.mp hchoice)
      exact Or.inr ⟨kind, htext ▸ hgiven, h.symm⟩
  · rcases h with ⟨habsent, rfl⟩ | ⟨kind, hgiven, rfl⟩
    · exact ⟨none, Or.inl ⟨habsent, rfl⟩, rfl⟩
    · refine ⟨some kind.text, Or.inr ⟨kind.text, hgiven, rfl⟩,
        map_eq_ok.mpr ⟨kind, ?_, rfl⟩⟩
      exact Section.choice_eq_ok.mpr (Authorization.ofString?_eq_some.mpr rfl)

theorem readAuthorization_eq_some {kind : Authorization} :
    readAuthorization body = .ok (some kind) ↔
      Given body.fields "authorizationType" (.str kind.text) := by
  rw [readAuthorization_eq_ok]
  refine ⟨fun h => ?_, fun hgiven => Or.inr ⟨kind, hgiven, rfl⟩⟩
  rcases h with ⟨-, hnone⟩ | ⟨other, hother, hsome⟩
  · cases hnone
  · rw [Option.some.inj hsome]
    exact hother

theorem succeeds_readAuthorization :
    Succeeds (readAuthorization body) ↔ Optional body.fields "authorizationType"
      (Spells ["NONE", "AWS_IAM", "CUSTOM", "COGNITO_USER_POOLS"]) := by
  refine Section.succeeds_choice? Authorization.mem_all
    Authorization.ofString?_eq_some (succeeds_ok none) fun given => ?_
  show Succeeds (Except.map some (body.choice _ _ _ given)) ↔ _
  rw [succeeds_map]
  unfold Succeeds
  simp only [Section.choice_eq_ok]

/-- What is read of the access, and how the parts are compared. -/
theorem succeeds_readAccess_iff :
    Succeeds (readAccess body) ↔ Succeeds (body.exclusive "authorizerId"
      "authorizationScopes") ∧ ∃ authorizerId,
      body.intrinsic? "authorizerId" = .ok authorizerId ∧
      ∃ scopes, body.stringList? "authorizationScopes" = .ok scopes ∧
      ∃ authorization, readAuthorization body = .ok authorization ∧
        (authorizerId.isSome → authorization = some .custom) ∧
        (scopes.isSome → authorization = some .cognitoUserPools) := by
  unfold readAccess
  simp only [succeeds_bind, succeeds_unless, succeeds_pure, and_true,
    exists_and_right, not_and, ne_eq, Decidable.not_not]
  rfl

theorem succeeds_readAccess : Succeeds (readAccess body) ↔
    Grammar.Access body.fields := by
  rw [succeeds_readAccess_iff, Section.succeeds_exclusive]
  refine ⟨fun ⟨hexclusive, authorizerId, hid, scopes, hscopes, authorization,
    hauthorization, hcustom, hpools⟩ => ?_, fun h => ?_⟩
  · refine ⟨hexclusive, Section.succeeds_intrinsic?.mp ⟨_, hid⟩,
      Section.succeeds_stringList?.mp ⟨_, hscopes⟩,
      succeeds_readAuthorization.mp ⟨_, hauthorization⟩, fun hthere => ?_,
      fun hthere => ?_⟩
    · rw [hcustom ((Section.isSome_of_optional hid).mpr hthere)]
        at hauthorization
      exact readAuthorization_eq_some.mp hauthorization
    · rw [hpools ((Section.isSome_of_optional hscopes).mpr hthere)]
        at hauthorization
      exact readAuthorization_eq_some.mp hauthorization
  · obtain ⟨authorizerId, hid⟩ := Section.succeeds_intrinsic?.mpr h.authorizerId
    obtain ⟨scopes, hscopes⟩ := Section.succeeds_stringList?.mpr h.scopes
    obtain ⟨authorization, hauthorization⟩ :=
      succeeds_readAuthorization.mpr h.authorizationType
    refine ⟨h.exclusive, authorizerId, hid, scopes, hscopes, authorization,
      hauthorization, fun hsome => ?_, fun hsome => ?_⟩
    · have hcustom : readAuthorization body = .ok (some .custom) :=
        readAuthorization_eq_some.mpr
          (h.custom ((Section.isSome_of_optional hid).mp hsome))
      exact Except.ok.inj (hauthorization.symm.trans hcustom)
    · have hpools : readAuthorization body = .ok (some .cognitoUserPools) :=
        readAuthorization_eq_some.mpr
          (h.userPools ((Section.isSome_of_optional hscopes).mp hsome))
      exact Except.ok.inj (hauthorization.symm.trans hpools)

/-! ## Templates -/

theorem succeeds_readRequest :
    Succeeds (readRequest body) ↔
      Optional body.fields "request" (IsMapping fun request =>
        Closed request ["template"] ∧
          Optional request "template" (IsMapTo IsText)) := by
  refine Section.succeeds_when_present (fun hget => ?_) fun value hget => ?_
  · rw [readRequest, hget]
    exact succeeds_ok []
  · rw [readRequest, hget]
    refine Section.succeeds_nested fun fields => ?_
    simp only [succeeds_bind, exists_and_right]
    exact and_congr Section.succeeds_allowOnly Section.succeeds_stringMap

theorem succeeds_readResponse :
    Succeeds (readResponse body) ↔
      Optional body.fields "response" (IsMapping fun response =>
        Closed response ["template"] ∧
          Optional response "template" (IsMapping fun template =>
            Closed template ["success", "clientError", "serverError"] ∧
              Optional template "success" IsText ∧
              Optional template "clientError" IsText ∧
              Optional template "serverError" IsText)) := by
  refine Section.succeeds_when_present (fun hget => ?_) fun value hget => ?_
  · rw [readResponse, hget]
    exact succeeds_ok none
  · rw [readResponse, hget]
    refine Section.succeeds_nested fun fields => ?_
    simp only [succeeds_bind, exists_and_right]
    refine and_congr Section.succeeds_allowOnly ?_
    refine Section.succeeds_when_present
      (s := ⟨body.service, body.fieldPath "response", fields⟩) (fun hget => ?_)
      fun value hget => ?_
    · rw [hget]
      exact succeeds_ok _
    · rw [hget]
      refine Section.succeeds_nested fun fields => ?_
      simp only [succeeds_bind, succeeds_pure, exists_and_right, and_true]
      exact and_congr Section.succeeds_allowOnly
        (and_congr Section.succeeds_string?
          (and_congr Section.succeeds_string? Section.succeeds_string?))

theorem hasTemplates_iff {service : Service} :
    hasTemplates service = true ↔ service ≠ .s3 := by
  cases service <;> decide

theorem succeeds_readTemplates :
    Succeeds (readTemplates body) ↔
      (body.service ≠ .s3 → Grammar.Templates body.fields) := by
  unfold readTemplates
  split
  · next h =>
      have templated := hasTemplates_iff.mp h
      simp only [succeeds_bind, succeeds_pure, exists_and_right, and_true]
      refine (and_congr succeeds_readRequest succeeds_readResponse).trans ?_
      exact ⟨fun ⟨request, response⟩ _ => ⟨request, response⟩,
        fun h => ⟨(h templated).request, (h templated).response⟩⟩
  · next h =>
      exact iff_of_true (succeeds_ok _) fun other =>
        absurd (hasTemplates_iff.mpr other) h

theorem succeeds_readBinding :
    Succeeds (readBinding body) ↔ Grammar.Common body.fields ∧
      (body.service ≠ .s3 → Grammar.Templates body.fields) := by
  have steps : Succeeds (readBinding body) ↔
      Succeeds (body.requiredString "path") ∧
      Succeeds (readVerb body) ∧ Succeeds (readCors body) ∧
      Succeeds (readAccess body) ∧
      Succeeds (readTemplates body) ∧ Succeeds (body.flag "private") ∧
      Succeeds (body.intrinsic? "roleArn") := by
    unfold readBinding
    simp only [succeeds_bind, succeeds_pure, exists_and_right, and_true]
    rfl
  rw [steps, Section.succeeds_requiredString, succeeds_readVerb,
    succeeds_readCors, succeeds_readAccess, succeeds_readTemplates,
    Section.succeeds_flag, Section.succeeds_intrinsic?]
  exact ⟨fun ⟨path, method, cors, access, templates, keyRequired, roleArn⟩ =>
      ⟨⟨path, method, cors, access, keyRequired, roleArn⟩, templates⟩,
    fun ⟨⟨path, method, cors, access, keyRequired, roleArn⟩, templates⟩ =>
      ⟨path, method, cors, access, templates, keyRequired, roleArn⟩⟩

/-! ## The part that the service decides -/

theorem succeeds_readTopic : Succeeds (readTopic body) ↔
    Grammar.Topic body.fields := by
  unfold readTopic
  simp only [succeeds_bind, succeeds_pure, and_true]
  exact Section.succeeds_resourceName.trans ⟨fun h => ⟨h⟩, fun ⟨h⟩ => h⟩

theorem succeeds_readQueue : Succeeds (readQueue body) ↔
    Grammar.Queue body.fields := by
  unfold readQueue
  simp only [succeeds_bind, succeeds_pure, exists_and_right, and_true]
  refine (and_congr Section.succeeds_resourceName
    (and_congr Section.succeeds_stringMap Section.succeeds_boolMap)).trans ?_
  exact ⟨fun ⟨queue, request, accept⟩ => ⟨queue, request, accept⟩,
    fun ⟨queue, request, accept⟩ => ⟨queue, request, accept⟩⟩

theorem succeeds_readBus : Succeeds (readBus body) ↔
    Grammar.Bus body.fields := by
  have steps : Succeeds (readBus body) ↔
      Succeeds (body.resourceName .ref "eventBusName") ∧
      (∃ value, body.required "source" = .ok value ∧
        Succeeds (body.source "source" true value)) ∧
      Succeeds (body.source? "detailType" true) ∧
      Succeeds (body.source? "detail" false) := by
    unfold readBus
    simp only [succeeds_bind, succeeds_pure, and_true, ← and_assoc,
      exists_and_right]
    simp only [and_assoc]
    rfl
  simp only [Section.required_eq_ok, Section.succeeds_source] at steps
  rw [steps, Section.succeeds_resourceName,
    Section.succeeds_source? fun _ => Section.succeeds_source,
    Section.succeeds_source? fun _ => Section.succeeds_source_false]
  exact ⟨fun ⟨bus, source, detailType, detail⟩ =>
    ⟨bus, source, detailType, detail⟩,
    fun ⟨bus, source, detailType, detail⟩ => ⟨bus, source, detailType, detail⟩⟩

theorem succeeds_readStreamAction :
    Succeeds (readStreamAction body) ↔
      Optional body.fields "action" (Spells ["PutRecord", "PutRecords"]) := by
  refine Section.succeeds_choice? StreamAction.mem_all
    StreamAction.ofString?_eq_some (succeeds_ok _) fun given => ?_
  unfold Succeeds
  simp only [Section.choice_eq_ok]

theorem succeeds_readStream : Succeeds (readStream body) ↔
    Grammar.Stream body.fields := by
  unfold readStream
  simp only [succeeds_bind, succeeds_pure, and_true, exists_and_right]
  refine (and_congr Section.succeeds_resourceName (and_congr
    (Section.succeeds_source? fun _ => Section.succeeds_source)
    succeeds_readStreamAction)).trans ?_
  exact ⟨fun ⟨stream, key, action⟩ => ⟨stream, key, action⟩,
    fun ⟨stream, key, action⟩ => ⟨stream, key, action⟩⟩

theorem succeeds_readObjectKey :
    Succeeds (readObjectKey body) ↔ Required body.fields "key" IsObjectKey := by
  unfold readObjectKey Required
  simp only [succeeds_bind, Section.required_eq_ok]
  refine exists_congr fun value => and_congr_right fun _ => ?_
  cases value with
  | str key => exact iff_of_true (succeeds_ok _) (Or.inl ⟨key, rfl⟩)
  | obj fields =>
      refine succeeds_bind.trans ?_
      simp only [succeeds_pure, and_true]
      refine Section.succeeds_urlParam.trans ⟨Or.inr, fun h =>
        h.resolve_left fun ⟨s, hs⟩ => ?_⟩
      cases hs
  | _ =>
      refine iff_of_false (not_succeeds_error _) ?_
      simp [IsObjectKey, IsText, IsChoice, IsMapping]

theorem succeeds_readObject : Succeeds (readObject body) ↔
    Grammar.Bucket body.fields := by
  unfold readObject
  simp only [succeeds_bind, succeeds_pure, and_true, ← and_assoc,
    exists_and_right]
  simp only [and_assoc]
  refine (and_congr
    (Section.exists_choice_eq_ok ObjectAction.mem_all
      ObjectAction.ofString?_eq_some)
    (and_congr Section.succeeds_resourceName (and_congr succeeds_readObjectKey
      (and_congr Section.succeeds_flag Section.succeeds_stringMap)))).trans ?_
  exact ⟨fun ⟨action, bucket, key, part, request⟩ =>
    ⟨action, bucket, key, part, request⟩,
    fun ⟨action, bucket, key, part, request⟩ =>
      ⟨action, bucket, key, part, request⟩⟩

theorem succeeds_readItem_iff :
    Succeeds (readItem body) ↔ Succeeds (body.resourceName .ref "tableName") ∧
      ∃ action : ItemAction, Given body.fields "action" (.str action.text) ∧
      ∃ hashKey, body.tableKey? "hashKey" = .ok hashKey ∧
        (hashKey.isNone → action = .putItem) ∧
        Succeeds (body.tableKey? "rangeKey") ∧
      ∃ condition, body.string? "condition" = .ok condition ∧
        (condition.isSome → ¬ action = .getItem) := by
  unfold readItem
  simp only [succeeds_bind, succeeds_unless, succeeds_pure, and_true,
    exists_and_right, not_and, ne_eq, Decidable.not_not,
    Section.requiredString_eq_ok, Section.choice_eq_ok,
    ItemAction.ofString?_eq_some]
  refine and_congr_right fun _ => ⟨fun ⟨_, hgiven, action, heq, h⟩ =>
    ⟨action, heq ▸ hgiven, h⟩, fun ⟨action, hgiven, h⟩ =>
      ⟨_, hgiven, action, rfl, h⟩⟩

theorem given_action_iff {action other : ItemAction}
    (h : Given body.fields "action" (.str action.text)) :
    Given body.fields "action" (.str other.text) ↔ action = other := by
  refine ⟨fun hother => ?_, fun heq => heq ▸ h⟩
  have htext := Json.str.inj (Option.some.inj (h.1.symm.trans hother.1))
  exact Option.some.inj ((ItemAction.ofString?_eq_some.mpr htext).symm.trans
    (ItemAction.ofString?_eq_some.mpr rfl))

theorem succeeds_readItem : Succeeds (readItem body) ↔
    Grammar.Item body.fields := by
  rw [succeeds_readItem_iff, Section.succeeds_resourceName,
    Section.succeeds_tableKey?]
  refine ⟨fun ⟨table, action, hgiven, hashKey, hkey, hneeded, rangeKey,
    condition, hcondition, hallowed⟩ => ?_, fun h => ?_⟩
  · refine ⟨table, ⟨_, hgiven, action.text, by cases action <;> decide, rfl⟩,
      Section.succeeds_tableKey?.mp ⟨_, hkey⟩, ?_, rangeKey,
      Section.succeeds_string?.mp ⟨_, hcondition⟩, fun hthere => ?_⟩
    · cases hashKey with
      | none => exact Or.inr ((given_action_iff hgiven).mpr (hneeded rfl))
      | some key => exact Or.inl ((Section.isSome_of_tableKey? hkey).mp rfl)
    · have hget := hallowed ((Section.isSome_of_optional hcondition).mpr hthere)
      exact fun hgetItem => hget ((given_action_iff hgiven).mp hgetItem)
  · obtain ⟨_, hgiven, text, hmem, rfl⟩ := h.action
    obtain ⟨action, -, rfl⟩ : ∃ action ∈ ItemAction.all, action.text = text :=
      List.mem_map.mp hmem
    obtain ⟨hashKey, hkey⟩ := Section.succeeds_tableKey?.mpr h.hashKey
    obtain ⟨condition, hcondition⟩ := Section.succeeds_string?.mpr h.condition
    refine ⟨h.tableName, action, hgiven, hashKey, hkey, fun hnone => ?_,
      h.rangeKey, condition, hcondition, fun hsome hget => ?_⟩
    · have habsent : ¬ Present body.fields "hashKey" := by
        rw [← Section.isSome_of_tableKey? hkey,
          Option.isNone_iff_eq_none.mp hnone]
        simp
      exact (given_action_iff hgiven).mp (h.hashKeyNeeded.resolve_left habsent)
    · have hthere := (Section.isSome_of_optional hcondition).mp hsome
      exact h.unconditional hthere ((given_action_iff hgiven).mpr hget)

theorem succeeds_readTarget :
    Succeeds (readTarget body) ↔ Grammar.Target body.service body.fields := by
  obtain ⟨service, path, fields⟩ := body
  cases service with
  | kinesis => exact succeeds_map.trans succeeds_readStream
  | sqs => exact succeeds_map.trans succeeds_readQueue
  | s3 => exact succeeds_map.trans succeeds_readObject
  | sns => exact succeeds_map.trans succeeds_readTopic
  | dynamodb => exact succeeds_map.trans succeeds_readItem
  | eventBridge => exact succeeds_map.trans succeeds_readBus

/-! ## The whole descriptor -/

theorem bodyFields_eq (service : Service) :
    bodyFields service = commonNames ++ targetNames service ++
      templateNames service := by
  cases service <;> rfl

theorem succeeds_readBody :
    Succeeds (readBody body) ↔ Grammar.Body body.service body.fields := by
  unfold readBody
  simp only [succeeds_bind, succeeds_pure, and_true, exists_and_right]
  refine (and_congr succeeds_readBinding (and_congr succeeds_readTarget
    Section.succeeds_allowOnly)).trans ?_
  rw [bodyFields_eq]
  exact ⟨fun ⟨⟨common, templates⟩, target, closed⟩ =>
    ⟨closed, common, templates, target⟩,
    fun ⟨closed, common, templates, target⟩ =>
      ⟨⟨common, templates⟩, target, closed⟩⟩

/-- Every part of a body is what its reader makes of it. -/
theorem readBody_steps {proxy : ServiceProxy} (h : readBody body = .ok proxy) :
    readBinding body = .ok proxy.http ∧ readTarget body = .ok proxy.target := by
  obtain ⟨http, hhttp, h⟩ := bind_eq_ok.mp h
  obtain ⟨target, htarget, h⟩ := bind_eq_ok.mp h
  obtain ⟨-, -, h⟩ := bind_eq_ok.mp h
  obtain rfl := Except.ok.inj h
  exact ⟨hhttp, htarget⟩

theorem readBinding_steps {http : Binding} (h : readBinding body = .ok http) :
    readVerb body = .ok http.verb ∧ readCors body = .ok http.cors ∧
      readAccess body = .ok ⟨http.authorization, http.authorizerId,
        http.authorizationScopes⟩ ∧
      readTemplates body = .ok (http.requestTemplates, http.responseTemplates) ∧
      body.intrinsic? "roleArn" = .ok http.roleArn := by
  obtain ⟨path, -, h⟩ := bind_eq_ok.mp h
  obtain ⟨verb, hverb, h⟩ := bind_eq_ok.mp h
  obtain ⟨cors, hcors, h⟩ := bind_eq_ok.mp h
  obtain ⟨access, haccess, h⟩ := bind_eq_ok.mp h
  obtain ⟨templates, htemplates, h⟩ := bind_eq_ok.mp h
  obtain ⟨keyRequired, -, h⟩ := bind_eq_ok.mp h
  obtain ⟨roleArn, hrole, h⟩ := bind_eq_ok.mp h
  obtain rfl := Except.ok.inj h
  exact ⟨hverb, hcors, haccess, htemplates, hrole⟩

/-- Who may call, with what the two checks on the kind of
authorization leave. -/
theorem readAccess_steps {access : Access} (h : readAccess body = .ok access) :
    body.intrinsic? "authorizerId" = .ok access.authorizerId ∧
      (access.authorizerId.isSome → access.authorization = some .custom) ∧
      (access.scopes.isSome →
        access.authorization = some .cognitoUserPools) := by
  obtain ⟨-, -, h⟩ := bind_eq_ok.mp h
  obtain ⟨authorizerId, hid, h⟩ := bind_eq_ok.mp h
  obtain ⟨scopes, -, h⟩ := bind_eq_ok.mp h
  obtain ⟨authorization, -, h⟩ := bind_eq_ok.mp h
  obtain ⟨hcustom, h⟩ := unless_eq_ok.mp h
  obtain ⟨hpools, h⟩ := unless_eq_ok.mp h
  obtain rfl := Except.ok.inj h
  exact ⟨hid, fun hsome => not_not.mp fun hne => hcustom ⟨hsome, hne⟩,
    fun hsome => not_not.mp fun hne => hpools ⟨hsome, hne⟩⟩

theorem ownPreflight_iff {proxy : ServiceProxy}
    (h : readBody body = .ok proxy) :
    Grammar.OwnPreflight body.fields ↔ proxy.http.verb = .options ∧
      proxy.http.cors.isSome := by
  obtain ⟨hverb, hcors, -⟩ := readBinding_steps (readBody_steps h).1
  rw [isSome_of_readCors hcors]
  refine and_congr_left fun _ => ?_
  obtain ⟨s, hgiven, hlower⟩ := readVerb_eq_ok.mp hverb
  refine ⟨fun ⟨value, hvalue, text, htext, hoptions⟩ => ?_, fun hoptions => ?_⟩
  · rw [htext] at hvalue
    have hsame := Json.str.inj (Option.some.inj (hgiven.1.symm.trans hvalue.1))
    rw [hsame, hoptions] at hlower
    revert hlower
    cases proxy.http.verb <;> decide
  · rw [hoptions] at hlower
    exact ⟨_, hgiven, s, rfl, hlower.symm⟩

theorem readDescriptor_eq_ok {value : Json} {proxy : ServiceProxy} :
    readDescriptor value = .ok proxy ↔ ∃ service fields,
      value = .obj [(service.tag, .obj fields)] ∧ readBody ⟨service, [], fields⟩
        = .ok proxy := by
  refine ⟨fun h => ?_, fun ⟨service, fields, hvalue, h⟩ => ?_⟩
  · unfold readDescriptor at h
    split at h
    · cases h
    · next tag body =>
        split at h
        · cases h
        · next service htag =>
            split at h
            · next fields =>
                exact ⟨service, fields,
                  by rw [Service.ofTag?_eq_some.mp htag], h⟩
            · cases h
    · split at h <;> cases h
    · cases h
  · have htag : Service.ofTag? service.tag = some service :=
      Service.ofTag?_eq_some.mpr rfl
    rw [hvalue, readDescriptor, htag]
    exact h

end Schema

theorem Schema.accepted_singleton_iff {value : Json} {i : Nat}
    {proxy : ServiceProxy} :
    Schema.Accepted [value] i proxy ↔
      i = 0 ∧ Schema.readDescriptor value = .ok proxy := by
  unfold Schema.Accepted
  cases i with
  | zero => simp
  | succ i => simp

/-- A list of one descriptor is accepted when the descriptor is, and does not
stand in the way of its own preflight. -/
theorem succeeds_parse_singleton {value : Json} :
    Succeeds (parse [value]) ↔ ∃ proxy,
      Schema.readDescriptor value = .ok proxy ∧
      ¬ (proxy.http.verb = .options ∧ proxy.http.cors.isSome) := by
  unfold Succeeds
  simp only [Schema.parse_eq_ok_iff, exists_and_left, exists_eq, and_true]
  refine ⟨fun noFault => ?_, fun ⟨proxy, hread, hverb⟩ error faulty => ?_⟩
  · obtain ⟨proxy, hread⟩ :=
      Schema.accepted_of_not_faulty noFault value List.mem_cons_self
    refine ⟨proxy, hread, fun ⟨hoptions, hcors⟩ => ?_⟩
    have accepted : Schema.Accepted [value] 0 proxy :=
      Schema.accepted_singleton_iff.mpr ⟨rfl, hread⟩
    have least : IsLeast {j | ∃ other, Schema.Accepted [value] j other ∧
        other.http.cors.isSome ∧ other.path = proxy.path} 0 :=
      ⟨⟨proxy, accepted, hcors, rfl⟩, fun _ _ => Nat.zero_le _⟩
    exact noFault _ (.clash (.preflight accepted hoptions least))
  · cases faulty with
    | rejected found refused =>
        have hvalue := List.mem_singleton.mp (List.mem_of_getElem? found)
        rw [hvalue, hread] at refused
        cases refused
    | clash clash =>
        cases clash with
        | duplicate accepted least =>
            obtain ⟨rfl, -⟩ := Schema.accepted_singleton_iff.mp accepted
            exact absurd least.1.1 (Nat.not_lt_zero _)
        | preflight accepted hoptions least =>
            obtain ⟨-, hthis⟩ := Schema.accepted_singleton_iff.mp accepted
            obtain ⟨other, hother, hcors, -⟩ := least.1
            obtain ⟨-, hthat⟩ := Schema.accepted_singleton_iff.mp hother
            obtain rfl := Except.ok.inj (hread.symm.trans hthis)
            obtain rfl := Except.ok.inj (hread.symm.trans hthat)
            exact hverb ⟨hoptions, hcors⟩

/-- A list of one value is accepted exactly when the value is a mapping with the
tag of a service and a body in the grammar of that service, and the body does
not claim `OPTIONS` while it asks for a preflight. -/
theorem parse_accepts_iff (value : Json) :
    (∃ proxies, parse [value] = .ok proxies) ↔ ∃ service fields,
      value = .obj [(service.tag, .obj fields)] ∧ Grammar.Body service fields ∧
        ¬ Grammar.OwnPreflight fields := by
  refine succeeds_parse_singleton.trans ⟨fun ⟨proxy, hread, hverb⟩ => ?_,
    fun ⟨service, fields, hvalue, hbody, hverb⟩ => ?_⟩
  · obtain ⟨service, fields, hvalue, hbody⟩ :=
      Schema.readDescriptor_eq_ok.mp hread
    refine ⟨service, fields, hvalue, Schema.succeeds_readBody.mp ⟨proxy, hbody⟩,
      fun own => ?_⟩
    exact hverb ((Schema.ownPreflight_iff hbody).mp own)
  · obtain ⟨proxy, hread⟩ : Succeeds (Schema.readBody ⟨service, [], fields⟩) :=
      Schema.succeeds_readBody.mpr hbody
    refine ⟨proxy, Schema.readDescriptor_eq_ok.mpr
      ⟨service, fields, hvalue, hread⟩, fun own => ?_⟩
    exact hverb ((Schema.ownPreflight_iff hread).mpr own)

/-- The grammar alone does not decide: this queue is in it, and is refused for
the preflight that it asks for. -/
theorem preflight_queue_refused :
    Grammar.Body .sqs [("path", .str "q"), ("method", .str "options"),
        ("queueName", .str "q"), ("cors", .bool true)] ∧
      ¬ ∃ proxies, parse
        [.obj [("sqs", .obj [("path", .str "q"), ("method", .str "options"),
          ("queueName", .str "q"), ("cors", .bool true)])]] = .ok proxies := by
  have inGrammar : Succeeds (Schema.readBody ⟨.sqs, [], [("path", .str "q"),
      ("method", .str "options"), ("queueName", .str "q"),
      ("cors", .bool true)]⟩) := ⟨_, rfl⟩
  refine ⟨Schema.succeeds_readBody.mp inGrammar, fun ⟨proxies, accepted⟩ => ?_⟩
  have refused :
      (parse [.obj [("sqs", .obj [("path", .str "q"),
        ("method", .str "options"), ("queueName", .str "q"),
        ("cors", .bool true)])]]).isOk = false := by decide
  rw [accepted] at refused
  cases refused

end GatewayStack
