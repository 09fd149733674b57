import GatewayStack.Proofs.LogicalId
import GatewayStack.Proofs.Path
import GatewayStack.Stack.PathTree
import GatewayStack.Template.Basic

/-!
# Where a method is deployed

The URL of a method is read off the template by following references: from the
resource of the method to its parent, from there to the next one, up to the root
of the API. What the resources on the way call themselves is the path.

The compiler writes one resource for every stage of every path, under an id made
from the fragment of the stage. A stage whose fragment another one has is
overwritten, and then the way up from it is the other one's. This file says
exactly when every method is deployed at its path (`deployed_iff`): no two
stages share a fragment, no path begins with a slash, and the root is not itself
a reference to one of the stages.

The one idea is to speak of a stage by its segments (`Reached`). A way up that
spells the segments of a stage spells, one step further, the segments of its
parent, and this holds even where the stage was overwritten, since the leaf is
spelled right and a fragment is made segment by segment (`reached_of_concat`).
So a right URL vouches for all stages of its path, and two stages with the same
fragment are vouched for by the same way up.
-/

namespace GatewayStack

open LogicalId GatewayStack.Path

/-- The id in a reference. -/
def Intrinsic.refId? : Json → Option String
  | .obj [(name, .str id)] => if name = "Ref" then some id else none
  | _ => none

/-- The parent and the path part of the API resource that a value refers to. -/
def Template.parentOf? (template : Template) (value : Json) :
    Option (Json × String) := do
  let id ← Intrinsic.refId? value
  let resource ← template.resource? id
  guard (resource.field? "Type" = some (.str "AWS::ApiGateway::Resource"))
  let properties ← resource.field? "Properties"
  let parent ← properties.field? "ParentId"
  let part ← (properties.field? "PathPart").bind Json.string?
  return (parent, part)

/-- Following parents from a value, as far as that goes, ends at the root, and
these are the path parts on the way, from the root down. -/
inductive Leads (template : Template) (root : Json) : Json → List String → Prop
  | root (top : template.parentOf? root = none) : Leads template root root []
  | step {value parent : Json} {part : String} {parts : List String}
      (up : template.parentOf? value = some (parent, part))
      (rest : Leads template root parent parts) :
      Leads template root value (parts ++ [part])

/-- The method of an event is deployed at the path of the event. -/
def Deployed (api : Api) (template : Template) (event : Event) : Prop :=
  ∃ parts, Leads template api.rootResourceId (api.resourceId event.path) parts ∧
    String.intercalate "/" parts = event.path

/-- What it takes for every event to be deployed at its path. -/
structure PathTree.Faithful (api : Api) (events : List Event) : Prop where
  /-- No two stages share a fragment. -/
  apart : ∀ p ∈ paths events, ∀ q ∈ paths events,
    LogicalId.path p = LogicalId.path q → p = q
  /-- No path begins with a slash. -/
  unslashed : ∀ event ∈ events, event.path.toList.head? ≠ some '/'
  /-- The root is none of the stages. -/
  external : ∀ q ∈ paths events,
    api.rootResourceId ≠ Intrinsic.ref (LogicalId.resource q)

/-! ## Following parents -/

theorem Intrinsic.refId?_eq_some {value : Json} {id : String}
    (h : refId? value = some id) : value = ref id := by
  unfold refId? at h
  split at h
  · split at h
    · next hname =>
        rw [Option.some.inj h, hname]
        rfl
    · cases h
  · cases h

/-- What can be followed is a reference to a resource of the API. -/
theorem Template.exists_of_parentOf?_eq_some {template : Template}
    {value : Json} {above : Json × String}
    (h : template.parentOf? value = some above) :
    ∃ id resource, value = Intrinsic.ref id ∧
      template.resource? id = some resource ∧
      resource.field? "Type" = some (.str "AWS::ApiGateway::Resource") := by
  obtain ⟨id, hid, h⟩ := Option.bind_eq_some_iff.mp h
  obtain ⟨resource, hresource, h⟩ := Option.bind_eq_some_iff.mp h
  refine ⟨id, resource, Intrinsic.refId?_eq_some hid, hresource, ?_⟩
  by_cases htype : resource.field? "Type"
    = some (.str "AWS::ApiGateway::Resource")
  · exact htype
  · rw [guard, if_neg htype] at h
    cases h

namespace Leads

variable {template : Template} {root value : Json} {parts : List String}

theorem top (h : Leads template root value parts) :
    template.parentOf? root = none := by
  induction h with
  | root top => exact top
  | step up rest ih => exact ih

theorem concat_inv {part : String}
    (h : Leads template root value (parts ++ [part])) :
    ∃ parent, template.parentOf? value = some (parent, part) ∧
      Leads template root parent parts := by
  generalize hparts : parts ++ [part] = all at h
  cases h with
  | root top =>
      exact absurd hparts (List.append_ne_nil_of_right_ne_nil _ (by simp))
  | step up rest =>
      obtain ⟨rfl, hpart⟩ := List.append_inj' hparts rfl
      obtain rfl := List.singleton_inj.mp hpart
      exact ⟨_, up, rest⟩

theorem root_parts (h : Leads template root root parts) : parts = [] := by
  have htop := h.top
  cases h with
  | root top => rfl
  | step up rest =>
      rw [htop] at up
      cases up

/-- The way up from a value is determined. -/
theorem unique {other : List String} (h : Leads template root value parts)
    (hother : Leads template root value other) : parts = other := by
  induction h generalizing other with
  | root top => exact hother.root_parts.symm
  | step up rest ih =>
      cases hother with
      | root top =>
          rw [top] at up
          cases up
      | step up' rest' =>
          rw [up] at up'
          obtain ⟨rfl, rfl⟩ := Prod.mk.inj (Option.some.inj up')
          rw [ih rest']

end Leads

/-! ## A template with a resource for every stage -/

/-- The template has a resource under the id of every path, it is the resource
of one of them, and there are no other resources of the API. -/
structure HoldsTree (api : Api) (paths : List String)
    (template : Template) : Prop where
  noneExists : api.existing = []
  found : ∀ p ∈ paths, ∃ parent part,
    template.parentOf? (Intrinsic.ref (LogicalId.resource p))
      = some (parent, part)
  only : ∀ {value parent part}, template.parentOf? value = some (parent, part) →
    ∃ w ∈ paths, value = Intrinsic.ref (LogicalId.resource w) ∧
      parent = api.resourceId (String.ofList (Path.parent w.toList)) ∧
      part = String.ofList (Path.leaf w.toList)

/-- The resource of a stage, given by the segments of the stage. -/
def Api.node (api : Api) (parts : List (List Char)) : Json :=
  if parts = [] then api.rootResourceId
  else Intrinsic.ref (LogicalId.resource (String.ofList (join parts)))

/-- The way up from a stage spells its segments. -/
def Reached (api : Api) (template : Template)
    (parts : List (List Char)) : Prop :=
  Leads template api.rootResourceId (api.node parts) (parts.map String.ofList)

theorem ref_inj {p q : String} :
    Intrinsic.ref (LogicalId.resource p)
      = Intrinsic.ref (LogicalId.resource q) ↔
      pathChars p.toList = pathChars q.toList := by
  have hpath : LogicalId.path p = LogicalId.path q ↔
      pathChars p.toList = pathChars q.toList :=
    String.ofList_inj
  rw [← hpath, ← resource_eq_iff]
  unfold Intrinsic.ref
  simp

namespace HoldsTree

variable {api : Api} {paths : List String} {template : Template}

theorem resourceId_of_ne (tree : HoldsTree api paths template) {path : String}
    (h : path ≠ "") :
    api.resourceId path = Intrinsic.ref (LogicalId.resource path) := by
  unfold Api.resourceId
  rw [if_neg h, tree.noneExists]
  rfl

theorem resourceId_eq_node (tree : HoldsTree api paths template)
    {path : List Char} (h : path ≠ []) :
    api.resourceId (String.ofList path) = api.node (segments path) := by
  have hne : String.ofList path ≠ "" := fun heq =>
    h (String.ofList_eq_empty_iff.mp heq)
  rw [tree.resourceId_of_ne hne, Api.node, if_neg (segments_ne_nil path),
    join_segments]

/-- A stage that is reached is reached through its parent, overwritten or
not. -/
theorem reached_of_concat (tree : HoldsTree api paths template)
    {parts : List (List Char)} {last : List Char}
    (hslash : ∀ part ∈ parts ++ [last], '/' ∉ part)
    (h : Reached api template (parts ++ [last])) :
    Reached api template parts := by
  unfold Reached at h
  rw [List.map_append, List.map_singleton] at h
  obtain ⟨parent, up, rest⟩ := h.concat_inv
  obtain ⟨w, -, hvalue, rfl, hleaf⟩ := tree.only up
  have hparts : ∀ part ∈ parts, '/' ∉ part :=
    fun part hpart => hslash part (List.mem_append_left _ hpart)
  by_cases hnil : parts = []
  · subst hnil
    exact Leads.root rest.top
  · have hparent : Path.parent w.toList ≠ [] := by
      intro heq
      rw [heq] at rest
      have hroot : api.resourceId (String.ofList []) = api.rootResourceId := rfl
      rw [hroot] at rest
      exact hnil (List.map_eq_nil_iff.mp rest.root_parts)
    -- the leaf is spelled right, so what is left of the fragment is the
    -- parent's
    rw [Api.node, if_neg (List.append_ne_nil_of_left_ne_nil hnil _), ref_inj,
      String.toList_ofList, pathChars_join hslash, partsChars_concat,
      pathChars_parent_leaf, ← String.ofList_injective hleaf] at hvalue
    have hfragment := List.append_cancel_right hvalue
    rw [tree.resourceId_eq_node hparent, Api.node, if_neg (segments_ne_nil _),
      join_segments] at rest
    have hnode : api.node parts
        = Intrinsic.ref (LogicalId.resource
          (String.ofList (Path.parent w.toList))) := by
      rw [Api.node, if_neg hnil, ref_inj, String.toList_ofList,
        String.toList_ofList, pathChars_join hparts, hfragment]
    unfold Reached
    rw [hnode]
    exact rest

theorem reached_of_run (tree : HoldsTree api paths template)
    {parts all : List (List Char)} (hslash : ∀ part ∈ all, '/' ∉ part)
    (hrun : parts <+: all) (h : Reached api template all) :
    Reached api template parts := by
  obtain ⟨more, rfl⟩ := hrun
  induction more using List.reverseRecOn with
  | nil => rwa [List.append_nil] at h
  | append_singleton more last ih =>
      rw [← List.append_assoc] at h hslash
      refine ih (fun part hpart =>
        hslash part (List.mem_append_left _ hpart)) ?_
      exact tree.reached_of_concat hslash h

theorem slash_not_mem_of_leads (tree : HoldsTree api paths template)
    {root value : Json} {parts : List String}
    (h : Leads template root value parts) :
    ∀ part ∈ parts, '/' ∉ part.toList := by
  induction h with
  | root top => simp
  | step up rest ih =>
      intro part hmem
      obtain ⟨w, -, -, -, hleaf⟩ := tree.only up
      rcases List.mem_append.mp hmem with hmem | hmem
      · exact ih part hmem
      · rw [List.mem_singleton.mp hmem, hleaf, String.toList_ofList]
        exact slash_not_mem_leaf w.toList

/-- An event with a path is deployed there when its path is reached. -/
theorem deployed_iff_reached (tree : HoldsTree api paths template)
    {event : Event} (h : event.path ≠ "") :
    Deployed api template event ↔
      Reached api template (segments event.path.toList) := by
  have hchars : event.path.toList ≠ [] := fun heq =>
    h (String.toList_eq_nil_iff.mp heq)
  have hid : api.resourceId event.path
      = api.node (segments event.path.toList) := by
    rw [← tree.resourceId_eq_node hchars, String.ofList_toList]
  unfold Deployed Reached
  rw [hid]
  refine ⟨fun ⟨parts, leads, hjoin⟩ => ?_, fun leads => ⟨_, leads, ?_⟩⟩
  · have hlist : event.path.toList = join (parts.map String.toList) := by
      rw [← hjoin, String.toList_intercalate]
      rfl
    have hne : parts.map String.toList ≠ [] := by
      intro heq
      rw [heq, join_nil] at hlist
      exact hchars hlist
    have hslash : ∀ part ∈ parts.map String.toList, '/' ∉ part := by
      intro part hpart
      obtain ⟨text, htext, rfl⟩ := List.mem_map.mp hpart
      exact tree.slash_not_mem_of_leads leads text htext
    have hparts : (segments event.path.toList).map String.ofList = parts := by
      rw [hlist, segments_join hne hslash, List.map_map]
      simp
    rw [hparts]
    exact leads
  · have hlist : ((segments event.path.toList).map String.ofList).map
          String.toList
        = segments event.path.toList := by simp
    rw [← String.toList_inj, String.toList_intercalate, hlist]
    exact join_segments event.path.toList

theorem reached_unique {a b : List (List Char)} (ha : Reached api template a)
    (hb : Reached api template b) (h : api.node a = api.node b) : a = b := by
  unfold Reached at ha hb
  rw [h] at ha
  have hmap := ha.unique hb
  exact List.map_injective_iff.mpr (fun _ _ => String.ofList_injective) hmap

end HoldsTree

/-! ## When every event is deployed at its path -/

/-- Keeping each once and sorting loses none of the stages that the events
need. -/
theorem PathTree.mem_paths_iff_needed {events : List Event} {path : String} :
    path ∈ paths events ↔ path.toList ∈ events.flatMap eventPaths := by
  unfold paths
  rw [List.mem_map, ← FirstSeen.mem_distinct]
  refine ⟨fun ⟨chars, hmem, heq⟩ => ?_, fun hmem =>
    ⟨path.toList, ?_, String.ofList_toList⟩⟩
  · rw [← heq, String.toList_ofList]
    exact StableSort.mem_sort.mp hmem
  · exact StableSort.mem_sort.mpr hmem

/-- The stages are those of the paths of the events, but for the root. -/
theorem PathTree.mem_paths {events : List Event} {path : String} :
    path ∈ paths events ↔
      ∃ event ∈ events, event.path ≠ "" ∧
        path.toList ∈ prefixes event.path.toList := by
  rw [mem_paths_iff_needed, List.mem_flatMap]
  refine exists_congr fun event => and_congr_right fun _ => ?_
  unfold eventPaths
  split
  · next h => simp [h]
  · next h => simp [h]

namespace HoldsTree

variable {api : Api} {events : List Event} {template : Template}

/-- What is deployed right vouches for every stage of every path. -/
theorem reached_of_mem_paths
    (tree : HoldsTree api (PathTree.paths events) template)
    (deployed : ∀ event ∈ events, Deployed api template event) {w : String}
    (hw : w ∈ PathTree.paths events) (hne : w ≠ "") :
    ∃ k, Reached api template (List.replicate k [] ++ segments w.toList) := by
  obtain ⟨event, hevent, hpath, hrun⟩ := PathTree.mem_paths.mp hw
  have hchars : w.toList ≠ [] := fun heq =>
    hne (String.toList_eq_nil_iff.mp heq)
  obtain ⟨k, hinitial⟩ := exists_replicate_of_mem_prefixes hrun hchars
  have reached := (tree.deployed_iff_reached hpath).mp (deployed event hevent)
  have hslash : ∀ part ∈ segments event.path.toList, '/' ∉ part :=
    fun part hpart => slash_not_mem_of_mem_segments hpart
  exact ⟨k, tree.reached_of_run hslash hinitial reached⟩

theorem node_replicate_append (w : List Char) (k : Nat) :
    api.node (List.replicate k [] ++ segments w)
      = Intrinsic.ref (LogicalId.resource (String.ofList w)) := by
  have hslash : ∀ part ∈ List.replicate k [] ++ segments w, '/' ∉ part := by
    intro part hpart
    rcases List.mem_append.mp hpart with hpart | hpart
    · rw [List.eq_of_mem_replicate hpart]
      exact List.not_mem_nil
    · exact slash_not_mem_of_mem_segments hpart
  have hne := List.append_ne_nil_of_right_ne_nil (List.replicate k [])
    (segments_ne_nil w)
  rw [Api.node, if_neg hne, ref_inj, String.toList_ofList, String.toList_ofList,
    pathChars_join hslash, partsChars_replicate_append, pathChars_eq]

/-- A path that begins with a slash is not deployed right: its first step down
from the root would have to be a resource with an empty name. -/
theorem unslashed_of_deployed
    (tree : HoldsTree api (PathTree.paths events) template)
    (deployed : ∀ event ∈ events, Deployed api template event) :
    ∀ event ∈ events, event.path.toList.head? ≠ some '/' := by
  intro event hevent hslash
  obtain ⟨rest, hrest⟩ := List.head?_eq_some_iff.mp hslash
  have hpath : event.path ≠ "" := by
    intro heq
    rw [heq] at hrest
    cases hrest
  obtain ⟨second, more, hsecond⟩ :=
    List.exists_cons_of_ne_nil (segments_ne_nil rest)
  have hsegments : segments event.path.toList = [] :: second :: more := by
    rw [hrest, segments, if_pos rfl, hsecond]
  have hrun : [[], second] <+: segments event.path.toList :=
    ⟨more, hsegments.symm⟩
  have reached : Reached api template [[], second] :=
    tree.reached_of_run (fun part hpart =>
      slash_not_mem_of_mem_segments hpart) hrun
      ((tree.deployed_iff_reached hpath).mp (deployed event hevent))
  have leads : Leads template api.rootResourceId (api.node [[], second])
      ([""] ++ [String.ofList second]) := reached
  obtain ⟨parent, up, above⟩ := leads.concat_inv
  obtain ⟨w, hw, hvalue, rfl, -⟩ := tree.only up
  have hparent : Path.parent w.toList ≠ [] := by
    intro heq
    rw [heq] at above
    cases above.root_parts
  have hne : w ≠ "" := by
    intro heq
    subst heq
    exact hparent rfl
  -- the stage that wrote this resource is reached too, so it spells the same
  obtain ⟨k, hreached⟩ := tree.reached_of_mem_paths deployed hw hne
  have hsame : [[], second] = List.replicate k [] ++ segments w.toList := by
    refine reached_unique reached hreached ?_
    rw [hvalue, node_replicate_append, String.ofList_toList]
  exact hparent (parent_eq_nil hsame)

/-- When no path begins with a slash, the stages are reached under their own
segments. -/
theorem reached_of_unslashed
    (tree : HoldsTree api (PathTree.paths events) template)
    (deployed : ∀ event ∈ events, Deployed api template event) {w : String}
    (hw : w ∈ PathTree.paths events) :
    Reached api template (segments w.toList) := by
  obtain ⟨event, hevent, hpath, hrun⟩ := PathTree.mem_paths.mp hw
  have hchars : event.path.toList ≠ [] := fun heq =>
    hpath (String.toList_eq_nil_iff.mp heq)
  have unslashed := tree.unslashed_of_deployed deployed event hevent
  obtain ⟨parts, hne, hinitial, hjoin⟩ :=
    (mem_prefixes_iff hchars unslashed).mp hrun
  have hslash : ∀ part ∈ segments event.path.toList, '/' ∉ part :=
    fun part hpart => slash_not_mem_of_mem_segments hpart
  rw [hjoin, segments_join hne (slash_not_mem_of_run hinitial)]
  exact tree.reached_of_run hslash hinitial
    ((tree.deployed_iff_reached hpath).mp (deployed event hevent))

theorem faithful_of_deployed
    (tree : HoldsTree api (PathTree.paths events) template)
    (deployed : ∀ event ∈ events, Deployed api template event) :
    PathTree.Faithful api events where
  apart := by
    intro p hp q hq hfragment
    have hnode : api.node (segments p.toList)
        = api.node (segments q.toList) := by
      have hchars : pathChars p.toList = pathChars q.toList :=
        String.ofList_inj.mp hfragment
      rw [Api.node, Api.node, if_neg (segments_ne_nil _),
        if_neg (segments_ne_nil _), join_segments, join_segments, ref_inj,
        String.toList_ofList, String.toList_ofList, hchars]
    have hsegments := reached_unique (tree.reached_of_unslashed deployed hp)
      (tree.reached_of_unslashed deployed hq) hnode
    have hjoin := congrArg join hsegments
    rw [join_segments, join_segments] at hjoin
    exact String.toList_inj.mp hjoin
  unslashed := tree.unslashed_of_deployed deployed
  external := by
    intro q hq hroot
    have reached : Leads _ _ _ _ := tree.reached_of_unslashed deployed hq
    rw [Api.node, if_neg (segments_ne_nil _), join_segments,
      String.ofList_toList, ← hroot] at reached
    exact segments_ne_nil _ (List.map_eq_nil_iff.mp reached.root_parts)

/-- The root refers to no resource of the template. -/
theorem parentOf?_root (tree : HoldsTree api (PathTree.paths events) template)
    (faithful : PathTree.Faithful api events) :
    template.parentOf? api.rootResourceId = none := by
  cases hroot : template.parentOf? api.rootResourceId with
  | none => rfl
  | some above =>
      obtain ⟨w, hw, hvalue, -⟩ := tree.only hroot
      exact absurd hvalue (faithful.external w hw)

/-- Without clashes every initial run of segments is reached, one segment after
the other. -/
theorem reached_of_faithful
    (tree : HoldsTree api (PathTree.paths events) template)
    (faithful : PathTree.Faithful api events) {event : Event}
    (hevent : event ∈ events) (hpath : event.path ≠ "")
    (parts : List (List Char)) (hrun : parts <+: segments event.path.toList) :
    Reached api template parts := by
  have hchars : event.path.toList ≠ [] := fun heq =>
    hpath (String.toList_eq_nil_iff.mp heq)
  have unslashed := faithful.unslashed event hevent
  induction parts using List.reverseRecOn with
  | nil => exact Leads.root (tree.parentOf?_root faithful)
  | append_singleton parts last ih =>
      have hshorter : parts <+: segments event.path.toList :=
        (List.prefix_append parts [last]).trans hrun
      have hslash := slash_not_mem_of_run hrun
      have hne : parts ++ [last] ≠ [] :=
        List.append_ne_nil_of_right_ne_nil _ (by simp)
      have hmem : String.ofList (join (parts ++ [last])) ∈
          PathTree.paths events := by
        refine PathTree.mem_paths.mpr ⟨event, hevent, hpath, ?_⟩
        rw [String.toList_ofList]
        exact (mem_prefixes_iff hchars unslashed).mpr ⟨_, hne, hrun, rfl⟩
      obtain ⟨parent, part, up⟩ := tree.found _ hmem
      obtain ⟨w, hw, hvalue, rfl, rfl⟩ := tree.only up
      have hfragment := ref_inj.mp hvalue
      have hpart := faithful.apart _ hmem w hw (String.ofList_inj.mpr hfragment)
      rw [← hpart, String.toList_ofList] at up
      obtain ⟨front, hfront, hparent⟩ :=
        exists_segments_concat (join (parts ++ [last]))
      rw [segments_join hne hslash] at hfront
      obtain ⟨rfl, hleaf⟩ := List.append_inj' hfront rfl
      obtain hleaf := List.singleton_inj.mp hleaf
      rw [hparent, ← hleaf] at up
      have hid : api.resourceId (String.ofList (join parts))
          = api.node parts := by
        by_cases hnil : parts = []
        · subst hnil
          rfl
        · have hjoin : join parts ≠ [] :=
            join_ne_nil_of_run hchars unslashed hnil hshorter
          rw [tree.resourceId_eq_node hjoin,
            segments_join hnil (slash_not_mem_of_run hshorter)]
      unfold Reached
      rw [List.map_append, List.map_singleton, Api.node, if_neg hne]
      rw [hid] at up
      exact Leads.step up (ih hshorter)

end HoldsTree

/-- With a resource for every stage, every event is deployed at its path exactly
when no two stages share a fragment, no path begins with a slash, and the root
is none of the stages. -/
theorem HoldsTree.deployed_iff {api : Api} {events : List Event}
    {template : Template}
    (tree : HoldsTree api (PathTree.paths events) template) :
    (∀ event ∈ events, Deployed api template event) ↔
      PathTree.Faithful api events := by
  refine ⟨tree.faithful_of_deployed, fun faithful event hevent => ?_⟩
  by_cases hpath : event.path = ""
  · have hroot : api.resourceId event.path = api.rootResourceId := if_pos hpath
    refine ⟨[], ?_, ?_⟩
    · rw [hroot]
      exact Leads.root (tree.parentOf?_root faithful)
    · rw [hpath]
      rfl
  · refine (tree.deployed_iff_reached hpath).mpr ?_
    exact tree.reached_of_faithful faithful hevent hpath _ List.prefix_rfl

end GatewayStack
