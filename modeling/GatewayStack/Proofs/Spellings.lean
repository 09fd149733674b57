import GatewayStack.Endpoints
import GatewayStack.Proofs.Path
import GatewayStack.Proofs.Routes
import GatewayStack.Proofs.SameFields
import GatewayStack.Proofs.Stages

/-!
# The outer slashes of a path

A path can be written with a slash in front, behind, on both sides or on
neither, and it is meant to be the same path. The proxy keeps the text as it was
configured, but everything reads it through `Path.strip`.

The text goes in where a descriptor is read, and there the proxies of two
spellings differ, but their events do not (`readDescriptor_respelled`). From
there on the events are all that counts. A conflict is found by a search
through the accepted proxies, and what it looks for and what it reports are in
the events, so every error is the same (`parse_congr`); and the compiler is
given nothing else.

Existing resources are looked up by normalized path. Their keys are kept in
the order of the texts, so other spellings may put them in another order, and
of two keys for one path the later one counts. Hence the keys have to be
different paths.
-/

namespace GatewayStack

/-! ## Spellings -/

/-- No slash at either end. -/
def Unslashed (path : String) : Prop :=
  path.toList.head? ≠ some '/' ∧ path.toList.getLast? ≠ some '/'

instance (path : String) : Decidable (Unslashed path) :=
  inferInstanceAs (Decidable (_ ∧ _))

/-- The ways to write a path. -/
def spellings (path : String) : List String :=
  [path, "/" ++ path, path ++ "/", "/" ++ path ++ "/"]

/-- Two texts that spell one path. -/
def SamePath (a b : String) : Prop :=
  ∃ path, Unslashed path ∧ a ∈ spellings path ∧ b ∈ spellings path

theorem strip_of_mem_spellings {path text : String} (h : Unslashed path)
    (hmem : text ∈ spellings path) : Path.strip text = path := by
  obtain ⟨hhead, hlast⟩ := h
  suffices Path.stripChars text.toList = path.toList by
    rw [Path.strip, this, String.ofList_toList]
  unfold spellings at hmem
  simp only [List.mem_cons, List.not_mem_nil, or_false] at hmem
  rcases hmem with rfl | rfl | rfl | rfl
  · rw [Path.stripChars, Path.dropLeading_of_head hhead,
      Path.dropTrailing_of_last hlast]
  · rw [String.toList_append]
    exact Path.dropTrailing_of_last hlast
  · rw [String.toList_append]
    exact Path.stripChars_concat hhead
  · rw [String.toList_append, String.toList_append]
    exact Path.dropTrailing_concat path.toList

theorem SamePath.strip {a b : String} (h : SamePath a b) :
    Path.strip a = Path.strip b := by
  obtain ⟨path, unslashed, ha, hb⟩ := h
  rw [strip_of_mem_spellings unslashed ha, strip_of_mem_spellings unslashed hb]

/-! ## Descriptors -/

/-- A body, and the same with its path in another spelling. -/
inductive SameBody : Json → Json → Prop
  | same (body : Json) : SameBody body body
  | respelled {fields : Fields Json} {a b : String}
      (h : Fields.get? fields "path" = some (.str a)) (same : SamePath a b) :
      SameBody (.obj fields) (.obj (Fields.set fields "path" (.str b)))

/-- A descriptor, and the same with paths in other spellings. -/
inductive SameDescriptor : Json → Json → Prop
  | same (descriptor : Json) : SameDescriptor descriptor descriptor
  | respelled {fields others : Fields Json}
      (h : List.Forall₂ (fun a b => a.1 = b.1 ∧ SameBody a.2 b.2)
        fields others) :
      SameDescriptor (.obj fields) (.obj others)

namespace Schema

/-- The spelling of the path is not in the event. -/
theorem ofProxy_respelled {proxy : ServiceProxy} {path : String}
    (h : Path.strip path = proxy.path) :
    Event.ofProxy { proxy with http := { proxy.http with path } }
      = Event.ofProxy proxy := by
  unfold Event.ofProxy
  rw [← h]
  rfl

theorem path_of_readBody {body : Section} {path : String} {proxy : ServiceProxy}
    (hpath : body.get? "path" = some (.str path))
    (h : readBody body = .ok proxy) :
    proxy.http.path = path := by
  have same : Section.SameBut "path" body body := ⟨rfl, rfl, fun _ _ => rfl⟩
  have hread := readBody_congr same rfl hpath hpath
  rw [h] at hread
  have hproxy := Except.ok.inj hread
  rw [hproxy]

theorem readBody_respelled {service : Service} {place : FieldPath}
    {fields : Fields Json} {a b : String}
    (h : Fields.get? fields "path" = some (.str a)) (same : SamePath a b) :
    (readBody ⟨service, place, Fields.set fields "path" (.str b)⟩).map
        Event.ofProxy
      = (readBody ⟨service, place, fields⟩).map Event.ofProxy := by
  have hbut : Section.SameBut "path" ⟨service, place, fields⟩
      ⟨service, place, Fields.set fields "path" (.str b)⟩ := by
    refine ⟨rfl, rfl, fun other hne => ?_⟩
    unfold Section.get?
    rw [Fields.get?_set_of_ne fields _ hne.symm]
  have hkeys : Fields.keys (Fields.set fields "path" (.str b))
      = Fields.keys fields := by
    rw [Fields.keys_set, if_pos (Fields.mem_keys_of_mem (Fields.mem_of_get? h))]
  have ha : (⟨service, place, fields⟩ : Section).get? "path"
      = some (.str a) := by
    unfold Section.get?
    rw [h]
    rfl
  have hb : (⟨service, place, Fields.set fields "path" (.str b)⟩ :
      Section).get? "path"
        = some (.str b) := by
    unfold Section.get?
    rw [Fields.get?_set_self]
    rfl
  rw [readBody_congr hbut hkeys ha hb]
  cases hread : readBody ⟨service, place, fields⟩ with
  | error violation => rfl
  | ok proxy =>
      have hstrip : Path.strip b = proxy.path := by
        rw [ServiceProxy.path, path_of_readBody ha hread, same.strip]
      exact congrArg Except.ok (ofProxy_respelled hstrip)

/-- A descriptor with one key is read as the service that the key names. -/
theorem readDescriptor_singleton (tag : String) (fields : Fields Json) :
    readDescriptor (.obj [(tag, .obj fields)]) =
      match Service.ofTag? tag with
      | none => .error (topLevel (.unsupportedProxy tag))
      | some service => readBody ⟨service, [], fields⟩ := rfl

/-- A descriptor with several keys is refused for the keys. -/
theorem readDescriptor_cons_cons (first second : String × Json)
    (rest : Fields Json) :
    readDescriptor (.obj (first :: second :: rest)) =
      match (Fields.keys (first :: second :: rest)).find? fun tag =>
        (Service.ofTag? tag).isNone with
      | some unknown => .error (topLevel (.unsupportedProxy unknown))
      | none => .error (topLevel
        (.multipleServices (Fields.keys (first :: second :: rest)))) := rfl

/-- Both are refused for the same reason, or they stand for the same event. -/
inductive ReadAlike (a b : Json) : Prop
  | refused {violation : Violation}
      (first : readDescriptor a = .error violation)
      (second : readDescriptor b = .error violation) : ReadAlike a b
  | accepted {proxy other : ServiceProxy} (first : readDescriptor a = .ok proxy)
      (second : readDescriptor b = .ok other)
      (same : Event.ofProxy other = Event.ofProxy proxy) : ReadAlike a b

theorem readAlike_of_map_eq {a b : Json}
    (h : (readDescriptor b).map Event.ofProxy
      = (readDescriptor a).map Event.ofProxy) : ReadAlike a b := by
  cases ha : readDescriptor a with
  | error violation =>
      cases hb : readDescriptor b with
      | error other =>
          rw [ha, hb] at h
          obtain rfl : other = violation := Except.error.inj h
          exact .refused ha hb
      | ok other =>
          rw [ha, hb] at h
          cases h
  | ok proxy =>
      cases hb : readDescriptor b with
      | error violation =>
          rw [ha, hb] at h
          cases h
      | ok other =>
          rw [ha, hb] at h
          exact .accepted ha hb (Except.ok.inj h)

theorem keys_eq_of_forall₂ {fields others : Fields Json}
    (h : List.Forall₂ (fun a b => a.1 = b.1 ∧ SameBody a.2 b.2) fields others) :
    Fields.keys others = Fields.keys fields := by
  induction h with
  | nil => rfl
  | cons hfirst _ ih => rw [Fields.keys_cons, Fields.keys_cons, ih, hfirst.1]

theorem readDescriptor_respelled {a b : Json} (h : SameDescriptor a b) :
    (readDescriptor b).map Event.ofProxy
      = (readDescriptor a).map Event.ofProxy := by
  cases h with
  | same => rfl
  | respelled h =>
      have hkeys := keys_eq_of_forall₂ h
      -- The bodies are looked at only when there is a single one.
      cases h with
      | nil => rfl
      | @cons first other rest others hfirst hrest =>
          cases hrest with
          | nil =>
              obtain ⟨tag, body⟩ := first
              obtain ⟨_, body'⟩ := other
              obtain ⟨rfl, hbody⟩ : tag = _ ∧ SameBody body body' := hfirst
              cases hbody with
              | same => rfl
              | respelled hpath same =>
                  rw [readDescriptor_singleton, readDescriptor_singleton]
                  cases Service.ofTag? tag with
                  | none => rfl
                  | some service => exact readBody_respelled hpath same
          | cons => rw [readDescriptor_cons_cons,
            readDescriptor_cons_cons, hkeys]

/-! ## Lists of descriptors -/

/-- The positions of proxies with the events that they stand for. -/
def placedEvents (placed : List Placed) : List (Nat × Event) :=
  placed.map (Prod.map id Event.ofProxy)

theorem placedEvents_congr {descriptors others : List Json}
    (h : List.Forall₂ ReadAlike descriptors others) (start : Nat) :
    placedEvents (placedFrom start others)
      = placedEvents (placedFrom start descriptors) := by
  induction h generalizing start with
  | nil => rfl
  | cons alike _ ih =>
      unfold placedFrom
      cases alike with
      | refused first second =>
          rw [first, second]
          exact ih (start + 1)
      | accepted first second same =>
          rw [first, second]
          exact congrArg₂ List.cons (congrArg (Prod.mk start) same)
            (ih (start + 1))

/-- Where the first proxy stands whose event fits. -/
theorem find?_congr {placed others : List Placed}
    (h : placedEvents others = placedEvents placed) (fits : Event → Bool) :
    (others.find? fun other => fits (Event.ofProxy other.2)).map Prod.fst
      = (placed.find? fun other => fits (Event.ofProxy other.2)).map
        Prod.fst := by
  have first (items : List Placed) :
      (items.find? fun other => fits (Event.ofProxy other.2)).map Prod.fst
        = ((placedEvents items).find? fun other => fits other.2).map
          Prod.fst := by
    unfold placedEvents
    rw [List.find?_map, Option.map_map]
    rfl
  rw [first, first, h]

variable {placed others : List Placed} {proxy other : ServiceProxy}

theorem duplicateAt_eq (placed : List Placed) (index : Nat)
    (proxy : ServiceProxy) :
    duplicateAt placed index proxy =
      ((placed.find? fun other => sameRoute other.2 proxy).map
        Prod.fst).bind fun first =>
        if first < index then
          some ⟨index, some proxy.service, ["method"],
            .duplicateRoute first proxy.path proxy.http.verb⟩
        else none := by
  unfold duplicateAt
  cases placed.find? fun other => sameRoute other.2 proxy <;> rfl

theorem preflightAt_eq (placed : List Placed) (index : Nat)
    (proxy : ServiceProxy) :
    preflightAt placed index proxy =
      if proxy.http.verb = .options then
        ((placed.find? fun other => other.2.http.cors.isSome &&
          other.2.path = proxy.path).map Prod.fst).map fun enabledBy =>
          ⟨index, some proxy.service,
            [if enabledBy = index then "cors" else "method"],
            .preflightConflict enabledBy proxy.path⟩
      else none := by
  unfold preflightAt
  cases placed.find? fun other => other.2.http.cors.isSome &&
    other.2.path = proxy.path <;> rfl

theorem duplicateAt_congr (h : placedEvents others = placedEvents placed)
    (same : Event.ofProxy other = Event.ofProxy proxy) (index : Nat) :
    duplicateAt others index other = duplicateAt placed index proxy := by
  have hpath : other.path = proxy.path := congrArg Event.path same
  have hverb : other.http.verb = proxy.http.verb := congrArg Event.verb same
  have hservice : other.service = proxy.service := congrArg Event.service same
  have hfirst : (others.find? fun found => sameRoute found.2 proxy).map Prod.fst
      = (placed.find? fun found => sameRoute found.2 proxy).map Prod.fst :=
    find?_congr h fun event => event.path = proxy.path &&
      event.verb = proxy.http.verb
  have hroute (found : ServiceProxy) : sameRoute found other
      = sameRoute found proxy := by
    unfold sameRoute
    rw [hpath, hverb]
  simp only [duplicateAt_eq, hroute, hfirst, hpath, hverb, hservice]

theorem preflightAt_congr (h : placedEvents others = placedEvents placed)
    (same : Event.ofProxy other = Event.ofProxy proxy) (index : Nat) :
    preflightAt others index other = preflightAt placed index proxy := by
  have hpath : other.path = proxy.path := congrArg Event.path same
  have hverb : other.http.verb = proxy.http.verb := congrArg Event.verb same
  have hservice : other.service = proxy.service := congrArg Event.service same
  have hcors (found : ServiceProxy) : found.http.cors.isSome
      = (Event.ofProxy found).cors.isSome :=
    Option.isSome_map.symm
  have hfirst := find?_congr h fun event => event.cors.isSome &&
    event.path = proxy.path
  simp only [preflightAt_eq, hcors, hpath, hverb, hservice]
  exact congrArg (fun first => if proxy.http.verb = .options then
    Option.map _ first else none) hfirst

theorem errorsAt_congr
    (h : placedEvents others = placedEvents placed) {a b : Json}
    (alike : ReadAlike a b) (index : Nat) :
    errorsAt others index b = errorsAt placed index a := by
  unfold errorsAt
  cases alike with
  | refused first second => rw [first, second]
  | accepted first second same =>
      rw [first, second]
      show _ ++ _ = _ ++ _
      rw [duplicateAt_congr h same, preflightAt_congr h same]

theorem errorsFrom_congr (h : placedEvents others = placedEvents placed)
    {descriptors respelled : List Json}
    (alike : List.Forall₂ ReadAlike descriptors respelled) (start : Nat) :
    errorsFrom others start respelled
      = errorsFrom placed start descriptors := by
  induction alike generalizing start with
  | nil => rfl
  | cons first _ ih => rw [errorsFrom, errorsFrom, errorsAt_congr h first, ih]

end Schema

theorem Normalized.ofProxies_placed (placed : List Schema.Placed) :
    Normalized.ofProxies (placed.map Prod.snd) =
      let events := (Schema.placedEvents placed).map Prod.snd
      { events, preflights := events.foldl Normalized.addPreflight [] } := by
  unfold Normalized.ofProxies Schema.placedEvents
  rw [List.map_map, List.map_map]
  rfl

/-- Lists that read alike, position by position, have the same errors or
the same events. -/
theorem parse_congr {descriptors respelled : List Json}
    (alike : List.Forall₂ Schema.ReadAlike descriptors respelled) :
    (parse respelled).map Normalized.ofProxies
      = (parse descriptors).map Normalized.ofProxies := by
  have hplaced := Schema.placedEvents_congr alike 0
  simp only [Schema.parse_eq, Schema.errorsFrom_congr hplaced alike]
  cases Schema.errorsFrom (Schema.placedFrom 0 descriptors) 0 descriptors with
  | nil =>
      show Except.ok _ = Except.ok _
      rw [Normalized.ofProxies_placed, Normalized.ofProxies_placed, hplaced]
  | cons => rfl

/-! ## Existing resources -/

/-- Two APIs that say the same of every path. -/
structure Api.Agree (a b : Api) : Prop where
  restApiId : b.restApiId = a.restApiId
  isExisting : b.isExisting = a.isExisting
  resourceId : b.resourceId = a.resourceId

/-- Existing resources under paths of which some are spelled differently,
in any order. -/
def Respelled (resources others : Fields Json) : Prop :=
  ∃ respelled, List.Forall₂ (fun a b => (a.1 = b.1 ∨ SamePath a.1 b.1) ∧
    a.2 = b.2) resources respelled ∧ respelled.Perm others

/-- The resources that an API is asked for: by normalized path. -/
def stripped (resources : Fields Json) : Fields Json :=
  resources.map fun (path, id) => (Path.strip path, id)

def Provider.withResources (provider : Provider)
    (resources : Fields Json) : Provider :=
  { provider with gateway := { provider.gateway with resources } }

theorem Api.existing_ofProvider {provider : Provider}
    (distinct : Fields.Distinct (stripped provider.gateway.resources)) :
    (Api.ofProvider provider).existing = stripped provider.gateway.resources :=
  Fields.setAll_of_distinct distinct

theorem Respelled.stripped_perm {resources others : Fields Json}
    (h : Respelled resources others) :
    (stripped resources).Perm (stripped others) := by
  obtain ⟨respelled, hspelled, hperm⟩ := h
  have hsame : stripped respelled = stripped resources := by
    clear hperm
    induction hspelled with
    | nil => rfl
    | @cons a b _ _ hfirst _ ih =>
        have hpath : Path.strip a.1 = Path.strip b.1 := by
          rcases hfirst.1 with heq | same
          · rw [heq]
          · exact same.strip
        show (Path.strip b.1, b.2) :: stripped _ =
          (Path.strip a.1, a.2) :: stripped _
        rw [ih, hpath, hfirst.2]
  rw [← hsame]
  exact hperm.map _

theorem Api.agree_of_respelled {provider : Provider} {others : Fields Json}
    (distinct : Fields.Distinct (stripped provider.gateway.resources))
    (h : Respelled provider.gateway.resources others) :
    Agree (ofProvider provider)
      (ofProvider (provider.withResources others)) := by
  have hperm := h.stripped_perm
  have distinctOthers : Fields.Distinct (stripped others) :=
    (hperm.map Prod.fst).nodup_iff.mp distinct
  have hexisting (path : String) :
      Fields.get? (ofProvider (provider.withResources others)).existing path
        = Fields.get? (ofProvider provider).existing path := by
    rw [existing_ofProvider distinct, existing_ofProvider distinctOthers]
    exact Fields.get?_perm distinct hperm path
  refine ⟨rfl, funext fun path => ?_, funext fun path => ?_⟩
  · unfold isExisting Fields.contains
    rw [hexisting]
  · unfold resourceId
    rw [hexisting]
    rfl

namespace Api.Agree

variable {a b : Api}

theorem methodResource (h : Agree a b) :
    Method.resource b = Method.resource a := by
  unfold Method.resource Method.resourceOf
  rw [h.restApiId, h.resourceId]

theorem backendStage (h : Agree a b) : Backend.stage b = Backend.stage a := by
  unfold Backend.stage Backend.methodFragment
  rw [h.methodResource]

theorem pathStage (h : Agree a b) : PathTree.stage b = PathTree.stage a := by
  unfold PathTree.stage PathTree.resource
  rw [h.restApiId, h.isExisting, h.resourceId]

theorem preflightStage (h : Agree a b) :
    Preflight.stage b = Preflight.stage a := by
  unfold Preflight.stage Preflight.resource
  rw [h.restApiId, h.resourceId]

theorem deploymentStage (h : Agree a b) (provider : Provider)
    (resources : Fields Json) :
    Deployment.stage (provider.withResources resources) b
      = Deployment.stage provider a := by
  unfold Deployment.stage Deployment.resource Deployment.output
  rw [h.restApiId]
  rfl

theorem keysFrom (h : Agree a b) (provider : Provider) (resources : Fields Json)
    (deploymentId : String) (n : Nat) (names : List String) :
    ApiKeys.keysFrom (provider.withResources resources) b deploymentId n names
      = ApiKeys.keysFrom provider a deploymentId n names := by
  induction names generalizing n with
  | nil => rfl
  | cons name rest ih =>
      rw [ApiKeys.keysFrom, ApiKeys.keysFrom, ih,
        ApiKeys.keyResource, h.restApiId]
      rfl

theorem keysStage (h : Agree a b) (provider : Provider)
    (resources : Fields Json) (deploymentId : String) :
    ApiKeys.stage (provider.withResources resources) b deploymentId
      = ApiKeys.stage provider a deploymentId := by
  unfold ApiKeys.stage ApiKeys.planResource
  simp only [h.keysFrom, h.restApiId]
  rfl

end Api.Agree

/-- A run uses the existing resources only through what the API says of them. -/
theorem Compile.events_withResources {provider : Provider}
    {resources : Fields Json}
    (h : Api.Agree (Api.ofProvider provider)
      (Api.ofProvider (provider.withResources resources))) (normalized :
      Normalized) (template : Template) :
    events (provider.withResources resources) normalized template
      = events provider normalized template := by
  unfold events work earlyStages
  simp only [h.backendStage, h.pathStage, h.preflightStage,
    h.deploymentStage, h.keysStage]
  rfl

/-- A compilation goes by the normalized configuration only. -/
theorem compile_of_map_parse {provider : Provider}
    {descriptors others : List Json}
    (hlength : others.length = descriptors.length)
    (h : (parse others).map Normalized.ofProxies
      = (parse descriptors).map Normalized.ofProxies) (template : Template) :
    compile provider others template
      = compile provider descriptors template := by
  have hrun (list : List Json) : Compile.descriptors provider list template
      = ((parse list).map Normalized.ofProxies).mapError CompileError.invalid
        >>= fun normalized =>
          (Compile.events provider normalized template).mapError
            CompileError.misconfigured := by
    unfold Compile.descriptors
    cases parse list <;> rfl
  have hruns : Compile.descriptors provider others template
      = Compile.descriptors provider descriptors template := by
    rw [hrun, hrun, h]
  by_cases empty : descriptors = []
  · rw [empty] at hlength ⊢
    rw [List.eq_nil_of_length_eq_zero hlength]
  · have hempty : others ≠ [] := by
      rintro rfl
      exact empty (List.eq_nil_of_length_eq_zero hlength.symm)
    rw [Compile.compile_eq hempty, Compile.compile_eq empty, hruns]

/-- Which of its spellings a path has makes no difference: not to the errors,
not to the events and the policies of their paths, not to the list of endpoints,
and not to a compilation, whatever its provider and template. The same goes for
the paths of existing resources, if no two of them are the same path. -/
theorem outer_slashes_irrelevant {descriptors respelled : List Json}
    (h : List.Forall₂ SameDescriptor descriptors respelled) :
    (parse respelled).map Normalized.ofProxies
      = (parse descriptors).map Normalized.ofProxies ∧
    (∀ endpoint,
      (parse respelled).map (fun proxies =>
          Endpoints.report (Normalized.ofProxies proxies).events endpoint)
        = (parse descriptors).map fun proxies =>
          Endpoints.report (Normalized.ofProxies proxies).events endpoint) ∧
    (∀ provider template,
      compile provider respelled template
        = compile provider descriptors template) ∧
    ∀ (provider : Provider) resources template,
      Respelled provider.gateway.resources resources →
      Fields.Distinct (stripped provider.gateway.resources) →
        compile (provider.withResources resources) respelled template
          = compile provider descriptors template := by
  have alike : List.Forall₂ Schema.ReadAlike descriptors respelled :=
    List.Forall₂.imp (fun _ _ same =>
      Schema.readAlike_of_map_eq (Schema.readDescriptor_respelled same)) h
  have hparse := parse_congr alike
  have hcompile (provider : Provider) (template : Template) :
      compile provider respelled template
        = compile provider descriptors template :=
    compile_of_map_parse h.length_eq.symm hparse template
  refine ⟨hparse, fun endpoint => ?_, hcompile, ?_⟩
  · have hmap (list : List Json) : (parse list).map (fun proxies =>
        Endpoints.report (Normalized.ofProxies proxies).events endpoint)
          = ((parse list).map Normalized.ofProxies).map fun normalized =>
            Endpoints.report normalized.events endpoint := by
      cases parse list <;> rfl
    rw [hmap, hmap, hparse]
  · intro provider resources template hresources distinct
    have hagree := Api.agree_of_respelled distinct hresources
    rw [← hcompile]
    exact Compile.compile_congr fun proxies _ =>
      Compile.events_withResources hagree
        (Normalized.ofProxies proxies) template

/-- With slashes on both sides, below an existing resource that loses one. -/
theorem outer_slashes_irrelevant_below :
    let provider : Provider :=
      (Provider.ofStage "shop" "dev" "1").withResources [("/a", "existing")]
    List.Forall₂ SameDescriptor [topicDescriptor "a/b" "get"]
      [topicDescriptor "/a/b/" "get"] ∧
    Respelled provider.gateway.resources [("a", "existing")] ∧
    Fields.Distinct (stripped provider.gateway.resources) ∧
    compile (provider.withResources [("a", "existing")])
        [topicDescriptor "/a/b/" "get"] Template.empty
      = compile provider [topicDescriptor "a/b" "get"] Template.empty := by
  intro provider
  have hpath : SamePath "a/b" "/a/b/" :=
    ⟨"a/b", by decide, by decide, by decide⟩
  have hbody : SameBody
      (.obj [("path", "a/b"), ("method", "get"), ("topicName", "topic")])
      (.obj [("path", "/a/b/"), ("method", "get"), ("topicName", "topic")]) :=
    .respelled rfl hpath
  have hdescriptor : SameDescriptor (topicDescriptor "a/b" "get")
      (topicDescriptor "/a/b/" "get") :=
    .respelled (.cons ⟨rfl, hbody⟩ .nil)
  have h : List.Forall₂ SameDescriptor [topicDescriptor "a/b" "get"]
      [topicDescriptor "/a/b/" "get"] := .cons hdescriptor .nil
  have hkey : SamePath "/a" "a" := ⟨"a", by decide, by decide, by decide⟩
  have hresources : Respelled provider.gateway.resources [("a", "existing")] :=
    ⟨[("a", "existing")], .cons ⟨.inr hkey, rfl⟩ .nil, .refl _⟩
  have distinct : Fields.Distinct (stripped provider.gateway.resources) :=
    List.nodup_singleton _
  exact ⟨h, hresources, distinct,
    (outer_slashes_irrelevant h).2.2.2 provider _ Template.empty
      hresources distinct⟩

end GatewayStack
