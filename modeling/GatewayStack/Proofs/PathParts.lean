import GatewayStack.Proofs.Generated
import GatewayStack.Proofs.Urls

/-!
# The parts of the paths in the tree

Every resource of the tree has as its part what stands after the last slash of
its path, and a path that gets a resource is a stage of the path of an event. So
a part is always one of the segments that the path of an event has
(`Path.leaf_mem_segments`).

A segment may be empty, because only one slash is taken away at each end of a
path, and then a stage may be empty or end with a slash and its part is empty as
well. Such a resource is in the fragment unless a later path with the same id is
written over it. That is why the condition of `path_parts_real_iff` is about the
paths that are written last.
-/

namespace GatewayStack

open GatewayStack.Path

theorem getLast?_filter_eq_some_iff {α : Type} {p : α → Bool}
    {items : List α} {a : α} :
    (items.filter p).getLast? = some a ↔
      ∃ before after, items = before ++ a :: after ∧ p a = true ∧
        ∀ other ∈ after, ¬ p other := by
  rw [List.getLast?_eq_some_iff]
  refine ⟨fun ⟨front, h⟩ => ?_, fun ⟨before, after, hitems, ha, hafter⟩ => ?_⟩
  · obtain ⟨before, last, rfl, -, hlast⟩ := List.filter_eq_append_iff.mp h
    obtain ⟨between, after, rfl, -, ha, hafter⟩ :=
      List.filter_eq_cons_iff.mp hlast
    exact ⟨before ++ between, after, (List.append_assoc _ _ _).symm, ha,
      List.filter_eq_nil_iff.mp hafter⟩
  · refine ⟨before.filter p, ?_⟩
    rw [hitems, List.filter_append, List.filter_cons_of_pos ha,
      List.filter_eq_nil_iff.mpr hafter]

namespace PathTree

variable {api : Api} {events : List Event}

/-- The paths that get a resource. -/
def needed (api : Api) (events : List Event) : List String :=
  (paths events).filter fun path => !api.isExisting path

/-- The path is written last of those with its id. -/
def WrittenLast (paths : List String) (path : String) : Prop :=
  ∃ before after, paths = before ++ path :: after ∧
    ∀ other ∈ after, LogicalId.resource other ≠ LogicalId.resource path

/-- The stage has the resources of the paths that are written last. -/
theorem mem_stage_iff {id : String} {value : Json} :
    (id, value) ∈ (stage api events).resources ↔ ∃ path,
      WrittenLast (needed api events) path ∧
      id = LogicalId.resource path ∧ value = resource api path := by
  have hget : Fields.get? (stage api events).resources id
      = (((needed api events).filter fun path =>
          LogicalId.resource path = id).getLast?).map (resource api) := by
    show Fields.get? (Fields.setAll [] ((needed api events).map _)) id = _
    rw [Fields.get?_setAll, Fields.get?_reverse_map, Fields.get?_nil,
      Option.or_none]
  rw [← Fields.get?_eq_some_iff (distinct_stage api events), hget,
    Option.map_eq_some_iff]
  refine exists_congr fun path => ?_
  rw [getLast?_filter_eq_some_iff]
  simp only [decide_eq_true_eq]
  refine ⟨?_, ?_⟩
  · rintro ⟨⟨before, after, hpaths, rfl, hafter⟩, rfl⟩
    exact ⟨⟨before, after, hpaths, hafter⟩, rfl, rfl⟩
  · rintro ⟨⟨before, after, hpaths, hafter⟩, rfl, rfl⟩
    exact ⟨⟨before, after, hpaths, rfl, hafter⟩, rfl⟩

theorem WrittenLast.mem {paths : List String} {path : String}
    (h : WrittenLast paths path) : path ∈ paths := by
  obtain ⟨before, after, rfl, -⟩ := h
  exact List.mem_append_right _ List.mem_cons_self

/-- The part of a path that gets a resource is a segment of the path of an
event. -/
theorem exists_segment {path : String} (h : path ∈ paths events) :
    ∃ event ∈ events, event.path ≠ "" ∧
      leaf path.toList ∈ segments event.path.toList := by
  obtain ⟨event, hevent, hpath, hstage⟩ := mem_paths.mp h
  exact ⟨event, hevent, hpath, leaf_mem_segments hstage⟩

theorem at?_part (api : Api) (path : String) :
    (resource api path).at? ["Properties", "PathPart"]
      = some (.str (String.ofList (leaf path.toList))) := rfl

theorem part_eq_empty_iff {path : String} :
    (resource api path).at? ["Properties", "PathPart"] = some (.str "") ↔
      path = "" ∨ path.toList.getLast? = some '/' := by
  rw [at?_part, Option.some.injEq, Json.str.injEq, String.ofList_eq_empty_iff,
    leaf_eq_nil_iff, String.toList_eq_nil_iff]

end PathTree

/-- Every resource of the tree has a part without a slash that is a segment of
the path of some proxy. No part is empty exactly when every path that is written
last under its id has something after its last slash; that is so when no path of
a proxy has an empty segment. -/
theorem path_parts_real_iff (provider : Provider)
    (proxies : List ServiceProxy) :
    let api := Api.ofProvider provider
    let events := (Normalized.ofProxies proxies).events
    let resources := (PathTree.stage api events).resources
    (∀ id resource, (id, resource) ∈ resources →
      resource.field? "Type" = some (.str "AWS::ApiGateway::Resource") ∧
      ∃ part, resource.at? ["Properties", "PathPart"] = some (.str part) ∧
        '/' ∉ part.toList ∧ ∃ proxy ∈ proxies,
          part.toList ∈ segments proxy.path.toList) ∧
    ((∀ id resource, (id, resource) ∈ resources →
        resource.at? ["Properties", "PathPart"] ≠ some (.str "")) ↔
      ∀ path, PathTree.WrittenLast (PathTree.needed api events) path →
        path ≠ "" ∧ path.toList.getLast? ≠ some '/') ∧
    ((∀ proxy ∈ proxies, proxy.path ≠ "" → [] ∉ segments proxy.path.toList) →
      ∀ id resource, (id, resource) ∈ resources →
        resource.at? ["Properties", "PathPart"] ≠ some (.str "")) := by
  intro api events resources
  have segment : ∀ path ∈ PathTree.needed api events, ∃ proxy ∈ proxies,
      proxy.path ≠ "" ∧
      leaf path.toList ∈ segments proxy.path.toList := by
    intro path hpath
    obtain ⟨event, hevent, hroot, hleaf⟩ :=
      PathTree.exists_segment (List.mem_of_mem_filter hpath)
    obtain ⟨proxy, hproxy, rfl⟩ := List.mem_map.mp hevent
    exact ⟨proxy, hproxy, hroot, hleaf⟩
  refine ⟨fun id resource h => ?_,
    ⟨fun full path last => ?_, fun full id resource h => ?_⟩,
    fun full id resource h => ?_⟩
  · obtain ⟨path, last, rfl, rfl⟩ := PathTree.mem_stage_iff.mp h
    obtain ⟨proxy, hproxy, -, hleaf⟩ := segment path last.mem
    refine ⟨rfl, _, PathTree.at?_part api path, ?_⟩
    rw [String.toList_ofList]
    exact ⟨slash_not_mem_leaf _, proxy, hproxy, hleaf⟩
  · exact not_or.mp (mt PathTree.part_eq_empty_iff.mpr
      (full _ _ (PathTree.mem_stage_iff.mpr ⟨path, last, rfl, rfl⟩)))
  · obtain ⟨path, last, rfl, rfl⟩ := PathTree.mem_stage_iff.mp h
    exact mt PathTree.part_eq_empty_iff.mp (not_or.mpr (full path last))
  · obtain ⟨path, last, rfl, rfl⟩ := PathTree.mem_stage_iff.mp h
    obtain ⟨proxy, hproxy, hroot, hleaf⟩ := segment path last.mem
    intro hempty
    have hnil := leaf_eq_nil_iff.mpr
      ((PathTree.part_eq_empty_iff.mp hempty).imp_left
        String.toList_eq_nil_iff.mpr)
    rw [hnil] at hleaf
    exact full proxy hproxy hroot hleaf

/-- A path configured with two slashes at its front: a resource for nothing. -/
theorem empty_part_slash_a :
    let provider := Provider.ofStage "shop" "dev" "1"
    let run := compile provider [topicDescriptor "//a" "get"] Template.empty
    ∃ proxies, parse [topicDescriptor "//a" "get"] = .ok proxies ∧
      run.1 = .ok ⟨1, ["ApiGatewayMethodAGet"], some "ApiGatewayDeployment1"⟩ ∧
      ∃ resource, ("ApiGatewayResource", resource) ∈
          (PathTree.stage (Api.ofProvider provider)
            (Normalized.ofProxies proxies).events).resources ∧
        run.2.resource? "ApiGatewayResource" = some resource ∧
        resource.field? "Type" = some (.str "AWS::ApiGateway::Resource") ∧
        resource.at? ["Properties", "PathPart"] = some (.str "") := by
  intro provider run
  let topic : ServiceProxy :=
    ⟨⟨"//a", .get, none, none, none, none, false, none, [], none⟩,
      .sns ⟨.literal "topic"⟩⟩
  exact ⟨[topic],
    by decide, by decide, PathTree.resource (Api.ofProvider provider) "",
    by decide, by decide, rfl, rfl⟩

end GatewayStack
