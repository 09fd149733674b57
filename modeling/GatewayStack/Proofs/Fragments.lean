import GatewayStack.Proofs.Stages

/-!
# What fragments and templates keep

A fragment has its methods twice, as resources and as the list of ids that it
tracks, and a template takes over the one and hands on the other. Nothing that
is done with fragments lets the two drift apart. Each step keeps the ids that
are tracked among those of the resources (`Fragment.Sound`), and what is tracked
at the end of a session is what was added in it since the last merge, in that
order (`Session.Step.tracked`).

Adding to a fragment and merging it into a template do the same to names: those
that are there keep their positions, and new ones come behind them. They differ
in what becomes of a value that is there, which is replaced in a fragment and
merged in a template. Both are said by `Fields.Joined`, of one operation on
values or the other.
-/

namespace GatewayStack

/-! ## New fields behind old ones -/

/-- The names of the old fields, then the new ones in their order; a value that
is under one name in both is combined from the two. -/
structure Fields.Joined {α : Type} (combine : α → α → α)
    (old new result : Fields α) : Prop where
  keys : keys result = keys old ++ (keys new).filter fun name => name ∉ keys old
  get? : ∀ name, get? result name
    = Option.merge combine (get? old name) (get? new name)

/-- A value that is set counts alone. -/
def replacing {α : Type} (_old new : α) : α := new

theorem Fields.joined_setAll {α : Type} (old : Fields α) {new : Fields α}
    (distinct : Distinct new) :
    Joined replacing old new (setAll old new) where
  keys := by rw [keys_setAll, FirstSeen.union_of_nodup distinct]
  get? name := by
    rw [get?_setAll, get?_reverse distinct]
    cases Fields.get? new name <;> cases Fields.get? old name <;> rfl

theorem Fields.joined_set {α : Type} (old : Fields α)
    (name : String) (value : α) :
    Joined replacing old [(name, value)] (set old name value) :=
  joined_setAll old (List.nodup_singleton _)

theorem Json.joined_mergeFields (old : Fields Json) {new : Fields Json}
    (distinct : Fields.Distinct new) :
    Fields.Joined merge old new (mergeFields old new) where
  keys := by rw [keys_mergeFields, FirstSeen.union_of_nodup distinct]
  get? := get?_mergeFields distinct

/-! ## Fragments -/

namespace Fragment

/-- No name is there twice, and what is tracked is there. -/
structure Sound (fragment : Fragment) : Prop where
  resources : Fields.Distinct fragment.resources
  outputs : Fields.Distinct fragment.outputs
  tracked : ∀ id ∈ fragment.methodIds, id ∈ Fields.keys fragment.resources

section sound

variable {fragment other : Fragment}

theorem sound_empty : Sound empty :=
  ⟨Fields.distinct_nil, Fields.distinct_nil, fun _ h =>
    absurd h List.not_mem_nil⟩

theorem Sound.addResource (h : fragment.Sound) (id : String) (resource : Json) :
    (fragment.addResource id resource).Sound where
  resources := Fields.distinct_setAll h.resources [(id, resource)]
  outputs := h.outputs
  tracked other hother := by
    show other ∈ Fields.keys (Fields.set fragment.resources id resource)
    rw [Fields.keys_set_eq_add, FirstSeen.mem_add]
    exact Or.inl (h.tracked other hother)

theorem Sound.addMethod (h : fragment.Sound) (id : String) (resource : Json) :
    (fragment.addMethod id resource).Sound where
  resources := (h.addResource id resource).resources
  outputs := h.outputs
  tracked other hother := by
    rcases List.mem_append.mp hother with hother | hother
    · exact (h.addResource id resource).tracked other hother
    · rw [List.mem_singleton.mp hother]
      show id ∈ Fields.keys (Fields.set fragment.resources id resource)
      rw [Fields.keys_set_eq_add, FirstSeen.mem_add]
      exact Or.inr rfl

theorem Sound.addOutput (h : fragment.Sound) (name : String) (output : Json) :
    (fragment.addOutput name output).Sound where
  resources := h.resources
  outputs := Fields.distinct_setAll h.outputs [(name, output)]
  tracked := h.tracked

theorem Sound.append (h : fragment.Sound) (hother : other.Sound) :
    (fragment.append other).Sound where
  resources := Fields.distinct_setAll h.resources other.resources
  outputs := Fields.distinct_setAll h.outputs other.outputs
  tracked id hid := by
    show id ∈ Fields.keys (Fields.setAll fragment.resources other.resources)
    rw [Fields.keys_setAll, FirstSeen.mem_union]
    exact (List.mem_append.mp hid).imp (h.tracked id) (hother.tracked id)

theorem Sound.methodIds_of_isEmpty (h : fragment.Sound)
    (empty : fragment.isEmpty = true) :
    fragment.methodIds = [] := by
  have none : fragment.resources = [] := by
    unfold isEmpty at empty
    exact List.isEmpty_iff.mp (Bool.and_eq_true_iff.mp empty).1
  refine List.eq_nil_iff_forall_not_mem.mpr fun id hid => ?_
  have hmem := h.tracked id hid
  rw [none] at hmem
  cases hmem

end sound

/-- How a fragment is built. -/
inductive Build where
  | empty
  | resource (build : Build) (id : String) (resource : Json)
  | method (build : Build) (id : String) (resource : Json)
  | output (build : Build) (name : String) (output : Json)
  | append (build other : Build)

namespace Build

/-- The fragment that is built. -/
def fragment : Build → Fragment
  | .empty => Fragment.empty
  | .resource build id value => build.fragment.addResource id value
  | .method build id value => build.fragment.addMethod id value
  | .output build name value => build.fragment.addOutput name value
  | .append build other => build.fragment.append other.fragment

/-- The ids of the methods that are added, in order. -/
def methods : Build → List String
  | .empty => []
  | .resource build _ _ => build.methods
  | .method build id _ => build.methods ++ [id]
  | .output build _ _ => build.methods
  | .append build other => build.methods ++ other.methods

theorem sound (build : Build) : build.fragment.Sound := by
  induction build with
  | empty => exact sound_empty
  | resource build id resource ih => exact ih.addResource id resource
  | method build id resource ih => exact ih.addMethod id resource
  | output build name output ih => exact ih.addOutput name output
  | append build other ih ihOther => exact ih.append ihOther

theorem methodIds_fragment (build : Build) :
    build.fragment.methodIds = build.methods := by
  induction build with
  | empty => rfl
  | resource build id resource ih => exact ih
  | method build id resource ih => exact congrArg (· ++ [id]) ih
  | output build name output ih => exact ih
  | append build other ih ihOther => exact congrArg₂ (· ++ ·) ih ihOther

end Build

end Fragment

/-! ## Sessions -/

/-- A template, the fragment that is under construction, and the ids that the
merges so far have returned. -/
structure Session where
  template : Template
  fragment : Fragment
  returned : List (List String)

namespace Session

open Fragment (Build)

/-- What can be done in a session. -/
inductive Step where
  | resource (id : String) (resource : Json)
  | method (id : String) (resource : Json)
  | output (name : String) (output : Json)
  | append (other : Build)
  /-- The fragment is merged into the template, its ids are returned, and
  another one is begun. -/
  | merge

namespace Step

/-- The ids of the methods that the step adds. -/
def methods : Step → List String
  | .method id _ => [id]
  | .append other => other.methods
  | _ => []

/-- The ids that are to be tracked after the step. -/
def tracked (ids : List String) : Step → List String
  | .merge => []
  | step => ids ++ step.methods

end Step

def step (session : Session) : Step → Session
  | .resource id resource =>
    { session with fragment := session.fragment.addResource id resource }
  | .method id resource =>
    { session with fragment := session.fragment.addMethod id resource }
  | .output name output =>
    { session with fragment := session.fragment.addOutput name output }
  | .append other =>
    { session with fragment := session.fragment.append other.fragment }
  | .merge =>
    let (ids, template) := session.template.absorb session.fragment
    ⟨template, Fragment.empty, session.returned ++ [ids]⟩

/-- A session that begins with a template and an empty fragment. -/
def run (start : Template) (steps : List Step) : Session :=
  steps.foldl step ⟨start, Fragment.empty, []⟩

/-- The fragment is sound, and what the merges have returned is in the
template. -/
structure Sound (session : Session) : Prop where
  fragment : session.fragment.Sound
  returned : ∀ ids ∈ session.returned, ∀ id ∈ ids,
    id ∈ Fields.keys session.template.resources

theorem mem_keys_merge {template : Template} {fragment : Fragment}
    {id : String} :
    id ∈ Fields.keys (template.merge fragment).resources ↔
      id ∈ Fields.keys template.resources ∨
        id ∈ Fields.keys fragment.resources := by
  rw [Compile.keys_merge, FirstSeen.mem_union]

variable {session : Session}

theorem Sound.step (h : session.Sound) (step : Step) :
    (session.step step).Sound := by
  cases step with
  | resource id resource =>
      exact ⟨h.fragment.addResource id resource, h.returned⟩
  | method id resource => exact ⟨h.fragment.addMethod id resource, h.returned⟩
  | output name output => exact ⟨h.fragment.addOutput name output, h.returned⟩
  | append other => exact ⟨h.fragment.append other.sound, h.returned⟩
  | merge =>
      refine ⟨Fragment.sound_empty,
        fun ids hids id hid => mem_keys_merge.mpr ?_⟩
      rcases List.mem_append.mp hids with hids | hids
      · exact Or.inl (h.returned ids hids id hid)
      · rw [List.mem_singleton.mp hids] at hid
        exact Or.inr (h.fragment.tracked id hid)

theorem Sound.steps (h : session.Sound) (steps : List Step) :
    (steps.foldl Session.step session).Sound := by
  induction steps generalizing session with
  | nil => exact h
  | cons step rest ih => exact ih (h.step step)

theorem sound_run (start : Template) (steps : List Step) :
    (run start steps).Sound :=
  Sound.steps ⟨Fragment.sound_empty, fun _ h => absurd h List.not_mem_nil⟩ steps

theorem methodIds_step (session : Session) (step : Step) :
    (session.step step).fragment.methodIds
      = step.tracked session.fragment.methodIds := by
  cases step with
  | resource | output => exact (List.append_nil _).symm
  | method id resource => rfl
  | append other =>
      exact congrArg (session.fragment.methodIds ++ ·) other.methodIds_fragment
  | merge => rfl

theorem methodIds_steps (session : Session) (steps : List Step) :
    (steps.foldl Session.step session).fragment.methodIds
      = steps.foldl Step.tracked session.fragment.methodIds := by
  induction steps generalizing session with
  | nil => rfl
  | cons step rest ih =>
      rw [List.foldl_cons, ih, methodIds_step, List.foldl_cons]

/-- Every id of a method that was added has been returned or is tracked. -/
def handled (session : Session) : List String :=
  session.returned.flatten ++ session.fragment.methodIds

theorem handled_step (session : Session) (step : Step) :
    (session.step step).handled = session.handled ++ step.methods := by
  unfold handled
  rw [methodIds_step]
  cases step with
  | merge =>
      show (session.returned ++ [session.fragment.methodIds]).flatten ++ [] = _
      rw [List.flatten_append, List.flatten_singleton]
      rfl
  | _ => exact (List.append_assoc _ _ _).symm

theorem handled_steps (session : Session) (steps : List Step) :
    (steps.foldl Session.step session).handled
      = session.handled ++ steps.flatMap Step.methods := by
  induction steps generalizing session with
  | nil => exact (List.append_nil _).symm
  | cons step rest ih =>
      rw [List.foldl_cons, ih, handled_step, List.append_assoc,
        List.flatMap_cons]

/-- What a session keeps track of, after some steps. -/
structure Keeps (steps : List Step) (session : Session) : Prop where
  /-- What is tracked is what was added since the last merge, in order. -/
  tracked : session.fragment.methodIds = steps.foldl Step.tracked []
  present : ∀ id ∈ session.fragment.methodIds,
    id ∈ Fields.keys session.fragment.resources
  empty : session.fragment.isEmpty = true → session.fragment.methodIds = []
  /-- A merge returns what is tracked, and all of it is in the template then. -/
  returns : (session.step .merge).returned
    = session.returned ++ [session.fragment.methodIds]
  arrives : ∀ id ∈ session.fragment.methodIds,
    id ∈ Fields.keys (session.step .merge).template.resources
  /-- A merge puts new names behind those of the template and merges values. -/
  mergedResources : Fields.Joined Json.merge session.template.resources
    session.fragment.resources (session.step .merge).template.resources
  mergedOutputs : Fields.Joined Json.merge session.template.outputs
    session.fragment.outputs (session.step .merge).template.outputs
  /-- Adding puts a new name behind those of the fragment and replaces
  values. -/
  addedResource : ∀ id resource,
    Fields.Joined replacing session.fragment.resources
    [(id, resource)] (session.step (.resource id resource)).fragment.resources
  addedMethod : ∀ id resource,
    Fields.Joined replacing session.fragment.resources
    [(id, resource)] (session.step (.method id resource)).fragment.resources
  addedOutput : ∀ name output, Fields.Joined replacing session.fragment.outputs
    [(name, output)] (session.step (.output name output)).fragment.outputs
  appendedResources : ∀ other : Build,
    Fields.Joined replacing session.fragment.resources other.fragment.resources
      (session.step (.append other)).fragment.resources
  appendedOutputs : ∀ other : Build,
    Fields.Joined replacing session.fragment.outputs other.fragment.outputs
      (session.step (.append other)).fragment.outputs
  /-- Of all the methods that were added none is lost, neither before a
  merge nor after. -/
  handled : session.handled = steps.flatMap Step.methods
  stays : ∀ ids ∈ session.returned, ∀ id ∈ ids,
    id ∈ Fields.keys session.template.resources

end Session

/-- Whatever is done in a session, the ids that the fragment tracks are ids of
its resources, and they are the methods that were added since the last merge, in
order. A merge returns them, and in the template they are ids of resources then
and ever after. Names that are there keep their positions, when they are added
again, appended or merged. -/
theorem session_keeps_ids (start : Template) (steps : List Session.Step) :
    (Session.run start steps).Keeps steps := by
  have sound := Session.sound_run start steps
  exact {
    tracked := Session.methodIds_steps _ steps
    present := sound.fragment.tracked
    empty := sound.fragment.methodIds_of_isEmpty
    returns := rfl
    arrives := fun id hid =>
      Session.mem_keys_merge.mpr (Or.inr (sound.fragment.tracked id hid))
    mergedResources := Json.joined_mergeFields _ sound.fragment.resources
    mergedOutputs := Json.joined_mergeFields _ sound.fragment.outputs
    addedResource := Fields.joined_set _
    addedMethod := Fields.joined_set _
    addedOutput := Fields.joined_set _
    appendedResources := fun other =>
      Fields.joined_setAll _ other.sound.resources
    appendedOutputs := fun other => Fields.joined_setAll _ other.sound.outputs
    handled := Session.handled_steps _ steps
    stays := sound.returned }

/-- A method that is added again keeps its position, and it is tracked twice. -/
example :
    let steps : List Session.Step :=
      [.method "A" .null, .resource "B" .null, .method "A" (.bool true), .merge]
    let session := Session.run Template.empty steps
    session.template.resources = [("A", .bool true), ("B", .null)] ∧
      session.returned = [["A", "A"]] := by decide

end GatewayStack
