import GatewayStack.Proofs.Routes
import GatewayStack.Proofs.Stages

/-!
# One method a route

A compilation makes one method for every route that is claimed, under an id made
from the verb and the fragment of the path. The check for clashing routes looks
at the paths themselves, and two paths may have the same fragment, so the check
can pass where two ids meet. One method is then merged into the other: the ids
that are tracked have a duplicate, and the template has a method too few.

When that happens is said here exactly (`methods_distinct_iff`). The ids that
are tracked are those of the claimed routes, none of which is claimed twice, so
they are distinct when no two routes share an id. And the methods in the
template are the distinct ids that are tracked, since no other stage makes a
resource under such an id, so one is missing as soon as two routes share one.
-/

namespace GatewayStack

open LogicalId

/-- The id of the method that a route gets. -/
def Route.id (route : Route) : String := LogicalId.method route.path route.verb

/-- Claimed routes with the same verb and the same fragment of a path are the
same route. -/
def FragmentsApart (proxies : List ServiceProxy) : Prop :=
  ∀ a b, Claimed proxies a → Claimed proxies b → a.verb = b.verb →
    LogicalId.path a.path = LogicalId.path b.path → a = b

/-- The ids of the resources of a type. -/
def Template.idsOfType (template : Template) (type : String) : List String :=
  Fields.keys (template.resources.filter fun entry =>
    entry.2.field? "Type" = some (.str type))

/-! ## The methods of a fragment are those it tracks -/

/-- The methods among the resources are those that are tracked. -/
def Fragment.Tracks (fragment : Fragment) : Prop :=
  ∀ id, id ∈ fragment.methodIds ↔ id ∈ Fields.keys fragment.resources ∧
    OfKind .method id

namespace Fragment

theorem tracks_of_kinded {kinds : Kind → Prop} {fragment : Fragment}
    (h : Kinded kinds fragment.resources) (other : ¬ kinds .method)
    (untracked : fragment.methodIds = []) : fragment.Tracks := by
  intro id
  rw [untracked]
  refine ⟨fun hmem => absurd hmem List.not_mem_nil, fun ⟨hmem, hid⟩ => ?_⟩
  exact absurd hmem (h.not_mem_keys hid other)

theorem tracks_empty : Fragment.empty.Tracks :=
  fun _ => ⟨fun hmem => absurd hmem List.not_mem_nil, fun ⟨hmem, _⟩ => hmem⟩

theorem tracks_addMethods {fragment : Fragment} (h : fragment.Tracks)
    {entries : List (String × Json)} (methods : ∀ id ∈ Fields.keys entries,
      OfKind .method id) :
    (fragment.addMethods entries).Tracks := by
  intro id
  rw [methodIds_addMethods, resources_addMethods, Fields.keys_setAll,
    FirstSeen.mem_union, List.mem_append, h id, or_and_right]
  refine or_congr_right ⟨fun hmem => ⟨hmem, methods id hmem⟩,
    fun ⟨hmem, _⟩ => hmem⟩

theorem tracks_append {fragment other : Fragment} (h : fragment.Tracks)
    (hother : other.Tracks) :
    (fragment.append other).Tracks := by
  intro id
  show id ∈ fragment.methodIds ++ other.methodIds ↔
    id ∈ Fields.keys (Fields.setAll fragment.resources other.resources) ∧ _
  rw [Fields.keys_setAll, FirstSeen.mem_union, List.mem_append, h id,
    hother id, or_and_right]

end Fragment

theorem Preflight.tracks (api : Api) (preflights : Fields CorsPolicy) :
    (Preflight.stage api preflights).Tracks := by
  refine Fragment.tracks_addMethods Fragment.tracks_empty fun id hmem => ?_
  obtain ⟨entry, hentry, rfl⟩ := List.mem_map.mp hmem
  obtain ⟨preflight, -, rfl⟩ := List.mem_map.mp hentry
  exact .method preflight.1 .options

theorem Backend.methodIds_roleFragment (service : Service)
    (events : List Event) :
    (Backend.roleFragment service events).methodIds = [] := by
  unfold Backend.roleFragment
  split <;> rfl

theorem Backend.tracks (api : Api) (normalized : Normalized)
    (service : Service) :
    (Backend.stage api normalized service).Tracks := by
  refine Fragment.tracks_append ?_ ?_
  · exact Fragment.tracks_of_kinded (Backend.kinded_roleFragment service _)
      (by decide) (Backend.methodIds_roleFragment service _)
  · refine Fragment.tracks_addMethods Fragment.tracks_empty fun id hmem => ?_
    obtain ⟨entry, hentry, rfl⟩ := List.mem_map.mp hmem
    obtain ⟨event, -, rfl⟩ := List.mem_map.mp hentry
    exact .method event.path event.verb

/-! ## The ids of a run -/

namespace Compile

variable {provider : Provider} {normalized : Normalized} {restApi : Fragment}

theorem tracks_stages (h : RestApi.stage provider = .ok restApi) :
    ∀ fragment ∈ stages provider normalized restApi, fragment.Tracks := by
  refine forall_stages ?_ ?_ ?_ fun service => ?_
  · exact Fragment.tracks_of_kinded (RestApi.kinded h) (by decide)
      (RestApi.methodIds_eq_nil h)
  · exact Fragment.tracks_of_kinded (PathTree.kinded _ _) (by decide) rfl
  · exact Preflight.tracks _ _
  · exact Backend.tracks _ _ service

/-- The tracked ids are those of the claimed routes. -/
theorem methodIds_stages (h : RestApi.stage provider = .ok restApi) :
    (stages provider normalized restApi).flatMap Fragment.methodIds
      = normalized.routes.map Route.id := by
  have preflights : (Preflight.stage (Api.ofProvider provider)
        normalized.preflights).methodIds
      = ((Fields.keys normalized.preflights).map fun path =>
          (⟨path, .options⟩ : Route)).map Route.id := by
    unfold Preflight.stage
    rw [Fragment.methodIds_addMethods, Fields.keys, Fields.keys,
      List.map_map, List.map_map, List.map_map]
    rfl
  have services : ∀ service,
      (Backend.stage (Api.ofProvider provider) normalized service).methodIds
        = ((normalized.eventsFor service).map Event.route).map Route.id := by
    intro service
    show (Backend.roleFragment service _).methodIds ++
      (Backend.methodFragment _ _).methodIds = _
    unfold Backend.methodFragment
    rw [Backend.methodIds_roleFragment, Fragment.methodIds_addMethods,
      Fields.keys, List.map_map, List.map_map]
    rfl
  unfold stages Normalized.routes
  rw [List.map_append, List.map_flatMap, ← preflights]
  simp only [List.flatMap_cons, RestApi.methodIds_eq_nil h,
    List.flatMap_map, services]
  rfl

theorem mem_idsOfType {kinds : Kind → Prop} {template : Template}
    (h : Kinded kinds template.resources) (kind : Kind) {id : String} :
    id ∈ template.idsOfType kind.type ↔ id ∈ Fields.keys template.resources ∧
      OfKind kind id := by
  refine ⟨fun hmem => ?_, fun ⟨hmem, hid⟩ => ?_⟩
  · obtain ⟨entry, hentry, rfl⟩ := List.mem_map.mp hmem
    obtain ⟨hentry, htype⟩ := List.mem_filter.mp hentry
    exact ⟨Fields.mem_keys_of_mem hentry,
      (h.field_type_iff hentry).mp (of_decide_eq_true htype)⟩
  · obtain ⟨entry, hentry, rfl⟩ := List.mem_map.mp hmem
    have htype := (h.field_type_iff hentry).mpr hid
    exact Fields.mem_keys_of_mem
      (List.mem_filter.mpr ⟨hentry, decide_eq_true htype⟩)

/-- The methods in the template of a run are the distinct ids that it tracks. -/
theorem idsOfType_method_perm {report : Report} {compiled : Template}
    (h : events provider normalized Template.empty = .ok (report, compiled)) :
    (compiled.idsOfType "AWS::ApiGateway::Method").Perm
      report.methodIds.dedup := by
  have distinct : (compiled.idsOfType "AWS::ApiGateway::Method").Nodup :=
    (nodup_keys_events_empty h).sublist (List.filter_sublist.map Prod.fst)
  refine (List.perm_ext_iff_of_nodup distinct (List.nodup_dedup _)).mpr
    fun id => ?_
  have ofMethod : id ∈ compiled.idsOfType "AWS::ApiGateway::Method" ↔
      id ∈ Fields.keys compiled.resources ∧ OfKind .method id :=
    mem_idsOfType (kinded_events_empty h) .method
  rw [List.mem_dedup, ofMethod]
  obtain ⟨restApi, keys, hapi, hkeys, rfl, rfl⟩ := events_empty_eq_ok h
  have early : ∀ fragment ∈ stages provider normalized restApi,
      fragment.Tracks :=
    tracks_stages hapi
  rw [mem_keys_mergeAll]
  refine ⟨fun ⟨hmem, hid⟩ => ?_, fun hmem => ?_⟩
  · obtain ⟨fragment, hfragment, hmem⟩ := hmem.resolve_left List.not_mem_nil
    rcases List.mem_append.mp hfragment with hfragment | hfragment
    · have htracked := (early fragment hfragment id).mpr ⟨hmem, hid⟩
      exact List.mem_flatMap.mpr ⟨fragment, hfragment, htracked⟩
    rcases List.mem_cons.mp hfragment with rfl | hfragment
    · exact absurd hmem ((Deployment.kinded_creation _ _ _).not_mem_keys
        hid (by decide))
    · rw [List.mem_singleton.mp hfragment] at hmem
      exact absurd hmem ((ApiKeys.kinded hkeys).not_mem_keys hid (by decide))
  · obtain ⟨fragment, hfragment, hmem⟩ := List.mem_flatMap.mp hmem
    obtain ⟨hmem, hid⟩ := (early fragment hfragment id).mp hmem
    exact ⟨Or.inr ⟨fragment, List.mem_append_left _ hfragment, hmem⟩, hid⟩

end Compile

/-! ## When two methods meet -/

theorem Route.id_eq_iff {a b : Route} :
    a.id = b.id ↔ LogicalId.path a.path = LogicalId.path b.path ∧
      a.verb = b.verb :=
  LogicalId.method_eq_iff

/-- What a compilation into an empty template tracks, and what it makes. -/
theorem Compile.methods_eq {provider : Provider} {descriptors : List Json}
    {proxies : List ServiceProxy} {report : Report} {template : Template}
    (hparse : parse descriptors = .ok proxies)
    (h : compile provider descriptors Template.empty = (.ok report, template)) :
    report.methodIds = (Normalized.ofProxies proxies).routes.map Route.id ∧
      (template.idsOfType "AWS::ApiGateway::Method").Perm
        report.methodIds.dedup := by
  by_cases empty : descriptors = []
  · subst empty
    obtain ⟨hreport, rfl⟩ := Prod.mk.inj h
    obtain rfl := Except.ok.inj hreport
    obtain rfl := Except.ok.inj hparse
    exact ⟨rfl, List.Perm.refl _⟩
  · obtain ⟨found, hfound, hevents⟩ := Compile.compile_eq_ok empty h
    rw [hparse] at hfound
    obtain rfl := Except.ok.inj hfound
    refine ⟨?_, Compile.idsOfType_method_perm hevents⟩
    obtain ⟨restApi, keys, hapi, -, rfl, -⟩ :=
      Compile.events_empty_eq_ok hevents
    exact Compile.methodIds_stages hapi

theorem length_dedup_eq_iff {α : Type} [DecidableEq α]
    {items : List α} {n : Nat} (h : items.length = n) :
    items.dedup.length = n ↔ items.Nodup := by
  rw [← h, ← List.dedup_eq_self]
  exact ⟨(List.dedup_sublist items).eq_of_length, congrArg List.length⟩

/-- The claimed routes have distinct ids exactly when their fragments are
apart. -/
theorem nodup_ids_iff {descriptors : List Json} {proxies : List ServiceProxy}
    (hparse : parse descriptors = .ok proxies) :
    ((Normalized.ofProxies proxies).routes.map Route.id).Nodup ↔
      FragmentsApart proxies := by
  rw [List.nodup_map_iff_inj_on (nodup_claims hparse)]
  simp only [mem_routes_iff hparse, Route.id_eq_iff]
  exact ⟨fun h a b ha hb hverb hpath => h a ha b hb ⟨hpath, hverb⟩,
    fun h a ha b hb hab => h a b ha hb hab.2 hab.1⟩

/-- A compilation into an empty template has distinct method ids, and a method
for every descriptor and every path with CORS, and an id of its own for every
claimed route, each of them exactly when the claimed routes with one verb have
paths with different fragments. -/
theorem methods_distinct_iff {provider : Provider} {descriptors : List Json}
    {proxies : List ServiceProxy} {report : Report} {template : Template}
    (hparse : parse descriptors = .ok proxies)
    (h : compile provider descriptors Template.empty = (.ok report, template)) :
    (report.methodIds.Nodup ↔ FragmentsApart proxies) ∧
      ((template.idsOfType "AWS::ApiGateway::Method").length
          = descriptors.length + (corsPaths proxies).length ↔
          FragmentsApart proxies) ∧
      ((∀ a b, Claimed proxies a → Claimed proxies b → a ≠ b → a.id ≠ b.id) ↔
        FragmentsApart proxies) := by
  obtain ⟨hids, hperm⟩ := Compile.methods_eq hparse h
  have hnodup : report.methodIds.Nodup ↔ FragmentsApart proxies := by
    rw [hids]
    exact nodup_ids_iff hparse
  have hlength : report.methodIds.length
      = descriptors.length + (corsPaths proxies).length := by
    rw [hids, List.length_map, length_routes hparse]
  refine ⟨hnodup, ?_, fun hdiffer a b ha hb hverb hpath => ?_,
    fun apart a b ha hb hne hid => ?_⟩
  · rw [hperm.length_eq, length_dedup_eq_iff hlength]
    exact hnodup
  · exact Decidable.byContradiction fun hne =>
      hdiffer a b ha hb hne (Route.id_eq_iff.mpr ⟨hpath, hverb⟩)
  · obtain ⟨hpath, hverb⟩ := Route.id_eq_iff.mp hid
    exact hne (apart a b ha hb hverb hpath)

/-- Two letters that differ in more than their case keep their methods apart. -/
theorem methods_apart_a_b :
    ∃ proxies report template,
      parse [topicDescriptor "a" "get", topicDescriptor "b" "get"]
        = .ok proxies ∧
      compile (Provider.ofStage "shop" "dev" "1")
        [topicDescriptor "a" "get", topicDescriptor "b" "get"] Template.empty
          = (.ok report, template) ∧
      FragmentsApart proxies ∧
      (template.idsOfType "AWS::ApiGateway::Method").length
        = 2 + (corsPaths proxies).length ∧
      ∀ a b, Claimed proxies a → Claimed proxies b → a ≠ b → a.id ≠ b.id := by
  have accepted : (parse [topicDescriptor "a" "get",
    topicDescriptor "b" "get"]).isOk := by decide
  have report : (compile (Provider.ofStage "shop" "dev" "1")
      [topicDescriptor "a" "get", topicDescriptor "b" "get"] Template.empty).1
        = .ok ⟨2, ["ApiGatewayMethodAGet", "ApiGatewayMethodBGet"],
          some "ApiGatewayDeployment1"⟩ := by decide
  cases hparse : parse [topicDescriptor "a" "get",
      topicDescriptor "b" "get"] with
  | error error =>
      rw [hparse] at accepted
      cases accepted
  | ok proxies =>
      obtain ⟨hnodup, hcount, hids⟩ :=
        methods_distinct_iff hparse (Prod.ext report rfl)
      have apart : FragmentsApart proxies := hnodup.mp (by decide)
      exact ⟨proxies, _, _, rfl, Prod.ext report rfl, apart, hcount.mpr apart,
        hids.mpr apart⟩

/-- Two routes that differ in the case of a letter are accepted and share one
method. -/
theorem methods_meet_a_A :
    (parse [topicDescriptor "a" "get", topicDescriptor "A" "get"]).isOk ∧
      ∃ template, compile (Provider.ofStage "shop" "dev" "1")
        [topicDescriptor "a" "get", topicDescriptor "A" "get"] Template.empty
          = (.ok ⟨2, ["ApiGatewayMethodAGet", "ApiGatewayMethodAGet"],
              some "ApiGatewayDeployment1"⟩, template) ∧
        template.idsOfType "AWS::ApiGateway::Method"
          = ["ApiGatewayMethodAGet"] :=
  ⟨by decide, _, Prod.ext (by decide) rfl, by decide⟩

end GatewayStack
