import GatewayStack.Event
import GatewayStack.Proofs.Conflicts
import GatewayStack.Proofs.Fields
import Mathlib.Data.List.Dedup
import Mathlib.Data.Nat.Find

/-!
# The routes that a list of proxies claims

A route is a normalized path with a verb. A proxy claims its own, and a proxy
that asks for CORS claims `OPTIONS` on its path besides, once for all the
proxies on that path.

The compiler claims them in an order of its own: the preflights in the order of
their paths, then the proxies service by service. That the two lists agree is
bookkeeping. What carries weight is that an accepted list claims no route twice
(`nodup_claims`), and it takes both conflicts that `parse` looks for: the one
between two proxies, and the one between an `OPTIONS` proxy and a preflight.
-/

namespace GatewayStack

open Schema

/-- A normalized path with a verb. -/
structure Route where
  path : String
  verb : Verb
  deriving DecidableEq, Repr

/-- The route of a proxy. -/
def ServiceProxy.route (proxy : ServiceProxy) : Route :=
  ⟨proxy.path, proxy.http.verb⟩

/-- The route of an event. -/
def Event.route (event : Event) : Route := ⟨event.path, event.verb⟩

/-- The normalized paths on which some proxy asks for CORS, each once. -/
def corsPaths (proxies : List ServiceProxy) : List String :=
  ((proxies.filter fun proxy => proxy.http.cors.isSome).map
    ServiceProxy.path).dedup

/-- A proxy claims the route, or it is the preflight of a path with CORS. -/
def Claimed (proxies : List ServiceProxy) (route : Route) : Prop :=
  route ∈ proxies.map ServiceProxy.route ∨
    route.path ∈ corsPaths proxies ∧ route.verb = .options

theorem mem_corsPaths {proxies : List ServiceProxy} {path : String} :
    path ∈ corsPaths proxies ↔
      ∃ proxy ∈ proxies, proxy.http.cors.isSome ∧ proxy.path = path := by
  simp only [corsPaths, List.mem_dedup, List.mem_map,
    List.mem_filter, and_assoc]

theorem nodup_corsPaths (proxies : List ServiceProxy) :
    (corsPaths proxies).Nodup :=
  List.nodup_dedup _

/-! ## An accepted list claims no route twice -/

theorem exists_isLeast {S : Set Nat} {n : Nat} (h : n ∈ S) :
    ∃ least, IsLeast S least := by
  classical
  exact ⟨Nat.find ⟨n, h⟩, Nat.find_spec ⟨n, h⟩,
    fun _ hm => Nat.find_min' ⟨n, h⟩ hm⟩

theorem accepted_of_mem {descriptors : List Json} {proxies : List ServiceProxy}
    (hparse : parse descriptors = .ok proxies) {proxy : ServiceProxy}
    (hmem : proxy ∈ proxies) :
    ∃ i, Accepted descriptors i proxy := by
  obtain ⟨-, rfl⟩ := parse_eq_ok_iff.mp hparse
  obtain ⟨⟨i, found⟩, hplaced, rfl⟩ := List.mem_map.mp hmem
  exact ⟨i, mem_placed.mp hplaced⟩

/-- Accepted proxies have routes of their own. -/
theorem nodup_routes {descriptors : List Json} {proxies : List ServiceProxy}
    (hparse : parse descriptors = .ok proxies) :
    (proxies.map ServiceProxy.route).Nodup := by
  obtain ⟨noFault, rfl⟩ := parse_eq_ok_iff.mp hparse
  rw [List.map_map]
  refine List.pairwise_map.mpr ?_
  refine (placedFrom_sorted 0 descriptors).imp_of_mem
    fun {a b} ha hb hlt heq => ?_
  obtain ⟨hpath, hverb⟩ := Route.mk.inj heq
  have earlier : a.1 ∈ {j | j < b.1 ∧ ∃ other, Accepted descriptors j other ∧
      other.path = b.2.path ∧ other.http.verb = b.2.http.verb} :=
    ⟨hlt, a.2, mem_placed.mp ha, hpath, hverb⟩
  obtain ⟨first, least⟩ := exists_isLeast earlier
  exact noFault _ (.clash (.duplicate (mem_placed.mp hb) least))

/-- An accepted proxy does not claim the verb of a preflight. -/
theorem path_not_mem_corsPaths {descriptors : List Json}
    {proxies : List ServiceProxy} (hparse : parse descriptors = .ok proxies)
    {proxy : ServiceProxy} (hmem : proxy ∈ proxies)
    (options : proxy.http.verb = .options) :
    proxy.path ∉ corsPaths proxies := by
  intro hcors
  obtain ⟨other, hother, enabled, hpath⟩ := mem_corsPaths.mp hcors
  obtain ⟨i, accepted⟩ := accepted_of_mem hparse hmem
  obtain ⟨j, acceptedOther⟩ := accepted_of_mem hparse hother
  have enabling : j ∈ {j | ∃ other, Accepted descriptors j other ∧
      other.http.cors.isSome ∧ other.path = proxy.path} :=
    ⟨other, acceptedOther, enabled, hpath⟩
  obtain ⟨enabledBy, least⟩ := exists_isLeast enabling
  exact (parse_eq_ok_iff.mp hparse).1
    _ (.clash (.preflight accepted options least))

theorem length_of_parse {descriptors : List Json} {proxies : List ServiceProxy}
    (hparse : parse descriptors = .ok proxies) :
    proxies.length = descriptors.length := by
  obtain ⟨noFault, rfl⟩ := parse_eq_ok_iff.mp hparse
  exact (forall₂_placedFrom (accepted_of_not_faulty noFault)).length_eq.symm

/-! ## The routes of the events and of the preflights -/

namespace Normalized

theorem map_route_events (proxies : List ServiceProxy) :
    (ofProxies proxies).events.map Event.route
      = proxies.map ServiceProxy.route := by
  show (proxies.map Event.ofProxy).map Event.route = _
  rw [List.map_map]
  rfl

theorem mem_keys_addPreflight {preflights : Fields CorsPolicy} {event : Event}
    {path : String} :
    path ∈ Fields.keys (addPreflight preflights event) ↔
      path ∈ Fields.keys preflights ∨ event.cors.isSome ∧
        event.path = path := by
  unfold addPreflight
  split
  · next h => simp [h]
  · next h =>
      rw [Fields.mem_keys_insertSorted, or_comm]
      simp [h, eq_comm]

theorem mem_keys_foldl_addPreflight {events : List Event}
    {preflights : Fields CorsPolicy} {path : String} :
    path ∈ Fields.keys (events.foldl addPreflight preflights) ↔
      path ∈ Fields.keys preflights ∨ ∃ event ∈ events, event.cors.isSome ∧
        event.path = path := by
  induction events generalizing preflights with
  | nil => simp
  | cons event rest ih =>
      rw [List.foldl_cons, ih, mem_keys_addPreflight]
      simp [or_assoc]

theorem pairwise_keys_foldl_addPreflight {events : List Event}
    {preflights : Fields CorsPolicy}
    (h : (Fields.keys preflights).Pairwise (· < ·)) :
    (Fields.keys (events.foldl addPreflight preflights)).Pairwise (· < ·) := by
  induction events generalizing preflights with
  | nil => exact h
  | cons event rest ih =>
      refine ih ?_
      unfold addPreflight
      split
      · exact h
      · exact Fields.pairwise_keys_insertSorted h _ _

/-- There is a preflight for every path with CORS, in the order of the paths. -/
theorem keys_preflights_perm (proxies : List ServiceProxy) :
    (Fields.keys (ofProxies proxies).preflights).Perm (corsPaths proxies) := by
  have sorted : (Fields.keys (ofProxies proxies).preflights).Pairwise (· < ·) :=
    pairwise_keys_foldl_addPreflight List.Pairwise.nil
  have distinct := sorted.imp ne_of_lt
  refine (List.perm_ext_iff_of_nodup distinct (nodup_corsPaths proxies)).mpr
    fun path => ?_
  show path ∈ Fields.keys ((proxies.map Event.ofProxy).foldl addPreflight []) ↔
    _
  rw [mem_keys_foldl_addPreflight, mem_corsPaths]
  simp [Event.ofProxy]

/-- Every event is compiled once, with those of its service. -/
theorem flatMap_eventsFor_perm {normalized : Normalized}
    (h : (normalized.events.map Event.route).Nodup) :
    (Service.all.flatMap normalized.eventsFor).Perm normalized.events := by
  have distinct : normalized.events.Nodup := h.of_map _
  have byService : (Service.all.flatMap normalized.eventsFor).Nodup := by
    refine List.nodup_flatMap.mpr ⟨fun service _ => distinct.filter _, ?_⟩
    have differ : Service.all.Pairwise (· ≠ ·) := by decide
    refine differ.imp fun {s t} hne event hs ht => hne ?_
    rw [← of_decide_eq_true (List.mem_filter.mp hs).2,
      of_decide_eq_true (List.mem_filter.mp ht).2]
  refine (List.perm_ext_iff_of_nodup byService distinct).mpr fun event => ?_
  have listed : event.service ∈ Service.all := by cases event.service <;> decide
  simp [eventsFor, List.mem_flatMap, listed]

end Normalized

/-- The routes in the order in which the compiler claims them. -/
def Normalized.routes (normalized : Normalized) : List Route :=
  (Fields.keys normalized.preflights).map (fun path => ⟨path, .options⟩) ++
    Service.all.flatMap fun service =>
      (normalized.eventsFor service).map Event.route

theorem routes_perm {descriptors : List Json} {proxies : List ServiceProxy}
    (hparse : parse descriptors = .ok proxies) :
    (Normalized.ofProxies proxies).routes.Perm
      ((corsPaths proxies).map (fun path => ⟨path, .options⟩) ++
        proxies.map ServiceProxy.route) := by
  have distinct := nodup_routes hparse
  rw [← Normalized.map_route_events] at distinct ⊢
  unfold Normalized.routes
  rw [← List.map_flatMap]
  exact ((Normalized.keys_preflights_perm proxies).map _).append
    ((Normalized.flatMap_eventsFor_perm distinct).map _)

theorem mem_routes_iff {descriptors : List Json} {proxies : List ServiceProxy}
    (hparse : parse descriptors = .ok proxies) {route : Route} :
    route ∈ (Normalized.ofProxies proxies).routes ↔ Claimed proxies route := by
  rw [(routes_perm hparse).mem_iff, List.mem_append, or_comm]
  refine or_congr_right ⟨fun h => ?_, fun ⟨hpath, hverb⟩ => ?_⟩
  · obtain ⟨path, hpath, rfl⟩ := List.mem_map.mp h
    exact ⟨hpath, rfl⟩
  · refine List.mem_map.mpr ⟨route.path, hpath, ?_⟩
    rw [← hverb]

/-- No route is claimed twice. -/
theorem nodup_claims {descriptors : List Json} {proxies : List ServiceProxy}
    (hparse : parse descriptors = .ok proxies) :
    (Normalized.ofProxies proxies).routes.Nodup := by
  rw [(routes_perm hparse).nodup_iff, List.nodup_append]
  refine ⟨?_, nodup_routes hparse, fun a ha b hb hab => ?_⟩
  · exact (nodup_corsPaths proxies).map fun p q hpq => (Route.mk.inj hpq).1
  · obtain ⟨path, hpath, rfl⟩ := List.mem_map.mp ha
    obtain ⟨proxy, hproxy, rfl⟩ := List.mem_map.mp hb
    obtain ⟨rfl, hverb⟩ := Route.mk.inj hab
    exact path_not_mem_corsPaths hparse hproxy hverb.symm hpath

/-- There are as many routes as proxies and paths with CORS. -/
theorem length_routes {descriptors : List Json} {proxies : List ServiceProxy}
    (hparse : parse descriptors = .ok proxies) :
    (Normalized.ofProxies proxies).routes.length
      = descriptors.length + (corsPaths proxies).length := by
  rw [(routes_perm hparse).length_eq, List.length_append, List.length_map,
    List.length_map, length_of_parse hparse, Nat.add_comm]

/-- A proxy in front of a topic, with nothing but what it needs. -/
def topicDescriptor (path method : String) : Json :=
  .obj [("sns", .obj [("path", path), ("method", method),
    ("topicName", "topic")])]

end GatewayStack
