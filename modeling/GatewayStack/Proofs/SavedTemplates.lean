import GatewayStack.Proofs.Frame

/-!
# Saving a template and loading it again

Loading a document takes its two sections out of it, and taking an entry out
moves the last one into its place. So a document that is loaded and saved need
not keep the order of its entries. A template does keep it. The sections are the
last two entries of what it is saved as, and when the resources are taken out
from there, the outputs move into their place, if there are any, and are taken
out from there in turn. What is left is the head as it was.

The one thing this needs is that the head has no section in it. That is so of
the empty template and of what is loaded from a document, and merging and
compiling leave the head alone (`Template.Reached.parted`).
-/

namespace GatewayStack

namespace Fields

variable {α : Type}

/-! ## Taking an entry out -/

theorem swapRemove_append {front : Fields α} {name : String}
    (h : name ∉ keys front) (fields : Fields α) :
    swapRemove (front ++ fields) name = front ++ swapRemove fields name := by
  induction front with
  | nil => rfl
  | cons entry rest ih =>
      obtain ⟨hne, hrest⟩ := not_or.mp fun hmem => h (List.mem_cons.mpr hmem)
      rw [List.cons_append, swapRemove, if_neg (Ne.symm hne), ih hrest,
        List.cons_append]

/-- Only the order of what is left changes. -/
theorem perm_swapRemove {fields : Fields α} {name : String} {value : α}
    (h : get? fields name = some value) :
    fields.Perm ((name, value) :: swapRemove fields name) := by
  induction fields with
  | nil => cases h
  | cons entry rest ih =>
      obtain ⟨k, v⟩ := entry
      rw [get?] at h
      rw [swapRemove]
      split at h
      · next hk =>
          obtain rfl := Option.some.inj h
          rw [if_pos hk, hk]
          cases hlast : rest.getLast? with
          | none =>
              rw [List.getLast?_eq_none_iff.mp hlast]
          | some last =>
              have hsplit := List.dropLast_append_getLast? last hlast
              have hmoved : rest.Perm (last :: rest.dropLast) := by
                conv_lhs => rw [← hsplit]
                exact List.perm_append_comm
              exact hmoved.cons _
      · next hk =>
          rw [if_neg hk]
          exact ((ih h).cons _).trans (List.Perm.swap _ _ _)

variable {fields : Fields α} {name : String} {value : α}

theorem distinct_swapRemove (distinct : Distinct fields)
    (h : get? fields name = some value) :
    Distinct (swapRemove fields name) ∧
      name ∉ keys (swapRemove fields name) := by
  have hkeys : (keys fields).Perm (name :: keys (swapRemove fields name)) :=
    (perm_swapRemove h).map Prod.fst
  obtain ⟨fresh, hrest⟩ := List.nodup_cons.mp (hkeys.nodup_iff.mp distinct)
  exact ⟨hrest, fresh⟩

theorem get?_swapRemove (distinct : Distinct fields)
    (h : get? fields name = some value) {other : String} (hne : other ≠ name) :
    get? (swapRemove fields name) other = get? fields other := by
  have hperm := get?_perm distinct (perm_swapRemove h) other
  rwa [get?, if_neg (Ne.symm hne)] at hperm

end Fields

namespace Template

/-! ## Taking a section out -/

/-- What a section is loaded from: nothing, `null`, or a mapping. -/
inductive LoadsTo : Option Json → Fields Json → Prop
  | missing : LoadsTo none []
  | null : LoadsTo (some .null) []
  | mapping (fields : Fields Json) : LoadsTo (some (.obj fields)) fields

/-- The entry is neither missing nor `null` nor a mapping. -/
def Misplaced (document : Fields Json) (name : String) : Prop :=
  ∃ value, Fields.get? document name = some value ∧ value ≠ .null ∧
    value.fields? = none

variable {document taken rest : Fields Json} {name : String}

theorem takeSection_eq_ok (distinct : Fields.Distinct document)
    (h : takeSection document name = .ok (taken, rest)) :
    LoadsTo (Fields.get? document name) taken ∧ Fields.Distinct rest ∧
      name ∉ Fields.keys rest ∧
      ∀ other ≠ name, Fields.get? rest other = Fields.get? document other := by
  unfold takeSection at h
  split at h
  · next hnone =>
      cases h
      rw [hnone]
      exact ⟨.missing, distinct, Fields.get?_eq_none_iff.mp hnone,
        fun _ _ => rfl⟩
  · next hnull =>
      cases h
      obtain ⟨hrest, fresh⟩ := Fields.distinct_swapRemove distinct hnull
      rw [hnull]
      exact ⟨.null, hrest, fresh, fun _ =>
        Fields.get?_swapRemove distinct hnull⟩
  · next fields hfields =>
      cases h
      obtain ⟨hrest, fresh⟩ := Fields.distinct_swapRemove distinct hfields
      rw [hfields]
      exact ⟨.mapping _, hrest, fresh, fun _ =>
        Fields.get?_swapRemove distinct hfields⟩
  · cases h

theorem exists_takeSection_error_iff :
    (∃ reason, takeSection document name = .error reason) ↔
      Misplaced document name := by
  unfold takeSection Misplaced
  cases Fields.get? document name with
  | none => simp
  | some value => cases value <;> simp [Json.fields?]

/-! ## Templates that keep their sections apart -/

/-- The head has no section in it. -/
def Parted (template : Template) : Prop :=
  "Resources" ∉ Fields.keys template.head ∧
    "Outputs" ∉ Fields.keys template.head

/-- Templates that merging and compiling, in any order, make of an empty one or
of one that was loaded. -/
inductive Reached : Template → Prop
  | empty : Reached Template.empty
  | loaded {document : Fields Json} {template : Template}
      (distinct : Fields.Distinct document)
      (h : ofJson (.obj document) = .ok template) : Reached template
  | merged {template : Template} (reached : Reached template)
      (fragment : Fragment) :
      Reached (template.merge fragment)
  | compiled {template : Template} (reached : Reached template)
      (provider : Provider) (descriptors : List Json) :
      Reached (compile provider descriptors template).2

theorem ofJson_eq_ok {template : Template} (distinct : Fields.Distinct document)
    (h : ofJson (.obj document) = .ok template) :
    template.Parted ∧ Fields.Distinct template.head ∧
      LoadsTo (Fields.get? document "Resources") template.resources ∧
      LoadsTo (Fields.get? document "Outputs") template.outputs ∧
      ∀ name, name ≠ "Resources" → name ≠ "Outputs" →
        Fields.get? template.head name = Fields.get? document name := by
  obtain ⟨⟨resources, rest⟩, hresources, h⟩ := bind_eq_ok.mp h
  obtain ⟨⟨outputs, head⟩, houtputs, h⟩ := bind_eq_ok.mp h
  obtain rfl := Except.ok.inj h
  obtain ⟨resourcesFrom, hrest, noResources, hsame⟩ :=
    takeSection_eq_ok distinct hresources
  obtain ⟨outputsFrom, hhead, noOutputs, hkept⟩ :=
    takeSection_eq_ok hrest houtputs
  have noResources : "Resources" ∉ Fields.keys head := by
    rw [← Fields.get?_eq_none_iff] at noResources ⊢
    rwa [hkept _ (by decide)]
  rw [hsame _ (by decide)] at outputsFrom
  refine ⟨⟨noResources, noOutputs⟩, hhead, resourcesFrom, outputsFrom,
    fun name hr ho => ?_⟩
  rw [hkept name ho, hsame name hr]

end Template

theorem Compile.head_compile (provider : Provider) (descriptors : List Json)
    (template : Template) : (compile provider descriptors template).2.head
    = template.head := by
  by_cases empty : descriptors = []
  · rw [empty, Compile.compile_nil]
  cases hrun : compile provider descriptors template with
  | mk result compiled =>
      cases result with
      | ok report =>
          obtain ⟨proxies, -, hevents⟩ := Compile.compile_eq_ok empty hrun
          obtain ⟨restApi, keys, -, -, -, rfl⟩ := Compile.events_eq_ok hevents
          exact Compile.head_mergeAll _ _
      | error reason =>
          rw [Compile.compile_eq empty] at hrun
          split at hrun
          · cases hrun
          · rw [← (Prod.mk.inj hrun).2]

namespace Template

theorem Reached.parted {template : Template} (h : template.Reached) :
    template.Parted := by
  induction h with
  | empty => exact ⟨by decide, by decide⟩
  | loaded distinct h => exact (ofJson_eq_ok distinct h).1
  | merged _ _ ih => exact ih
  | compiled _ provider descriptors ih =>
      unfold Parted
      rw [Compile.head_compile]
      exact ih

/-! ## Loading what was saved -/

/-- The outputs as an entry of the document; empty ones are left out. -/
def outputsEntry (template : Template) : Fields Json :=
  if template.outputs.isEmpty then [] else [("Outputs", .obj template.outputs)]

/-- A template is saved as its head, its resources and its outputs. -/
theorem toJson_of_parted {template : Template} (h : template.Parted) :
    template.toJson
    = .obj (template.head ++ ("Resources", .obj template.resources) ::
      template.outputsEntry) := by
  obtain ⟨noResources, noOutputs⟩ := h
  have fresh : "Outputs" ∉
      Fields.keys (template.head ++
        [("Resources", .obj template.resources)]) := by
    simp [noOutputs]
  rw [toJson, Fields.set_of_not_mem noResources, outputsEntry]
  split
  · rfl
  · show Json.obj (Fields.set (template.head ++ [_]) "Outputs" _) = _
    rw [Fields.set_of_not_mem fresh, List.append_assoc]
    rfl

theorem takeSection_of_get? {fields : Fields Json}
    (h : Fields.get? document name = some (.obj fields)) :
    takeSection document name
      = .ok (fields, Fields.swapRemove document name) := by
  rw [takeSection, h]

/-- The outputs move into the place of the resources. -/
theorem takeSection_resources {template : Template} (h : template.Parted) :
    takeSection (template.head ++ ("Resources", .obj template.resources) ::
      template.outputsEntry) "Resources" = .ok (template.resources,
      template.head ++ template.outputsEntry) := by
  have hfound : Fields.get? (template.head
      ++ ("Resources", .obj template.resources) ::
        template.outputsEntry) "Resources"
          = some (.obj template.resources) := by
    rw [Fields.get?_append, Fields.get?_eq_none_iff.mpr h.1,
      Option.none_or, Fields.get?, if_pos rfl]
  rw [takeSection_of_get? hfound, Fields.swapRemove_append h.1,
    Fields.swapRemove, if_pos rfl]
  by_cases hempty : template.outputs.isEmpty
  · rw [outputsEntry, if_pos hempty, List.getLast?_nil]
  · rw [outputsEntry, if_neg hempty]
    rfl

theorem takeSection_outputs {template : Template} (h : template.Parted) :
    takeSection (template.head ++ template.outputsEntry) "Outputs"
      = .ok (template.outputs, template.head) := by
  have hhead := Fields.get?_eq_none_iff.mpr h.2
  by_cases hempty : template.outputs.isEmpty
  · rw [outputsEntry, if_pos hempty, List.append_nil, takeSection, hhead,
      List.isEmpty_iff.mp hempty]
  · have hfound : Fields.get? (template.head ++ template.outputsEntry) "Outputs"
        = some (.obj template.outputs) := by
      rw [outputsEntry, if_neg hempty, Fields.get?_append, hhead,
        Option.none_or, Fields.get?, if_pos rfl]
    rw [takeSection_of_get? hfound, Fields.swapRemove_append h.2, outputsEntry,
      if_neg hempty, Fields.swapRemove, if_pos rfl, List.getLast?_nil,
      List.append_nil]

theorem ofJson_toJson {template : Template} (h : template.Parted) :
    ofJson template.toJson = .ok template := by
  rw [toJson_of_parted h, ofJson, takeSection_resources h]
  show (takeSection (template.head ++ template.outputsEntry)
    "Outputs").bind _ = _
  rw [takeSection_outputs h]
  rfl

/-! ## Saving what was loaded -/

theorem exists_ofJson_error_iff (distinct : Fields.Distinct document) :
    (∃ reason, ofJson (.obj document) = .error reason) ↔
      Misplaced document "Resources" ∨ Misplaced document "Outputs" := by
  cases hresources : takeSection document "Resources" with
  | error reason =>
      refine iff_of_true ⟨reason, ?_⟩
        (Or.inl (exists_takeSection_error_iff.mp ⟨_, hresources⟩))
      rw [ofJson, hresources]
      rfl
  | ok sections =>
      obtain ⟨resources, rest⟩ := sections
      have placed : ¬ Misplaced document "Resources" := by
        rw [← exists_takeSection_error_iff, hresources]
        rintro ⟨reason, ⟨⟩⟩
      have hsame : Misplaced document "Outputs" ↔ Misplaced rest "Outputs" := by
        obtain ⟨-, -, -, hsame⟩ := takeSection_eq_ok distinct hresources
        unfold Misplaced
        rw [hsame "Outputs" (by decide)]
      rw [or_iff_right placed, hsame, ← exists_takeSection_error_iff,
        ofJson, hresources]
      show (∃ reason, (takeSection rest "Outputs").bind _ = .error reason) ↔ _
      cases takeSection rest "Outputs" with
      | error reason => exact iff_of_true ⟨reason, rfl⟩ ⟨reason, rfl⟩
      | ok sections =>
          exact iff_of_false (by rintro ⟨reason, ⟨⟩⟩) (by rintro ⟨reason, ⟨⟩⟩)

/-- What a document has under a name when it was loaded and saved:
missing or `null` resources become empty ones, and `null` or empty
outputs become missing. -/
def settled (document : Fields Json) (name : String) : Option Json :=
  let found := Fields.get? document name
  if name = "Resources" ∧ (found = none ∨ found = some .null) then
    some Json.empty
  else if name = "Outputs" ∧ (found = some .null ∨ found = some Json.empty) then
    none
  else found

theorem LoadsTo.resources {fields : Fields Json}
    (h : LoadsTo (Fields.get? document "Resources") fields) :
    settled document "Resources" = some (.obj fields) := by
  unfold settled
  generalize Fields.get? document "Resources" = found at h
  cases h <;> simp [Json.empty]

theorem LoadsTo.outputs {fields : Fields Json}
    (h : LoadsTo (Fields.get? document "Outputs") fields) :
    settled document "Outputs"
      = if fields.isEmpty then none else some (.obj fields) := by
  unfold settled
  generalize Fields.get? document "Outputs" = found at h
  cases h with
  | missing | null => simp
  | mapping => cases fields <;> simp [Json.empty]

theorem settled_of_ne {name : String} (hr : name ≠ "Resources")
    (ho : name ≠ "Outputs") :
    settled document name = Fields.get? document name := by
  simp [settled, hr, ho]

theorem exists_saved {template : Template} (distinct : Fields.Distinct document)
    (h : ofJson (.obj document) = .ok template) :
    ∃ saved, template.toJson = .obj saved ∧ Fields.Distinct saved ∧
      ∀ name, Fields.get? saved name = settled document name := by
  obtain ⟨parted, hhead, resourcesFrom, outputsFrom, hkept⟩ :=
    ofJson_eq_ok distinct h
  refine ⟨_, toJson_of_parted parted, ?_, fun name => ?_⟩
  · have hresources := Fields.distinct_concat hhead parted.1
      (.obj template.resources)
    rw [← List.singleton_append, ← List.append_assoc]
    unfold outputsEntry
    split
    · rwa [List.append_nil]
    · exact Fields.distinct_concat hresources (by simp [parted.2]) _
  · rw [Fields.get?_append, Fields.get?]
    by_cases hr : name = "Resources"
    · subst hr
      rw [Fields.get?_eq_none_iff.mpr parted.1, if_pos rfl,
        resourcesFrom.resources]
      rfl
    rw [if_neg (Ne.symm hr)]
    by_cases ho : name = "Outputs"
    · subst ho
      rw [Fields.get?_eq_none_iff.mpr parted.2, Option.none_or,
        outputsFrom.outputs]
      unfold outputsEntry
      split <;> rfl
    · have habsent : Fields.get? template.outputsEntry name = none := by
        unfold outputsEntry
        split
        · rfl
        · rw [Fields.get?, if_neg (Ne.symm ho), Fields.get?_nil]
      rw [habsent, Option.or_none, hkept name hr ho, settled_of_ne hr ho]

end Template

/-- A template that was reached by merging and compiling is loaded from what
it is saved as, with everything in the same order, so that it is saved as the
same document again.

A value is refused if it is no mapping, or if one of its sections is neither a
mapping nor `null`. Any other one that repeats no name is saved, once it was
loaded, as a mapping that has the same under every name, except for sections
that are missing, `null` or empty. -/
theorem templates_survive_saving :
    (∀ template : Template, template.Reached →
      Template.ofJson template.toJson = .ok template) ∧
    (∀ value : Json, value.fields? = none → ∃ reason,
      Template.ofJson value = .error reason) ∧
    ∀ document : Fields Json, Fields.Distinct document →
      ((∃ reason, Template.ofJson (.obj document) = .error reason) ↔
        Template.Misplaced document "Resources" ∨
          Template.Misplaced document "Outputs") ∧
      ∀ template, Template.ofJson (.obj document) = .ok template →
        ∃ saved, template.toJson = .obj saved ∧ Fields.Distinct saved ∧
          ∀ name, Fields.get? saved name = Template.settled document name := by
  refine ⟨fun template h => Template.ofJson_toJson h.parted,
    fun value plain => ?_,
    fun document distinct => ⟨Template.exists_ofJson_error_iff distinct,
      fun template => Template.exists_saved distinct⟩⟩
  cases value with
  | obj fields => cases plain
  | _ => exact ⟨_, rfl⟩

/-- The sections stand before other entries and one of them is `null`. -/
theorem templates_survive_saving_transform :
    ∃ document template compiled,
      Fields.Distinct document ∧
      Fields.keys document = ["Outputs", "Description", "Resources",
        "Transform"] ∧
      Template.ofJson (.obj document) = .ok template ∧
      compile (Provider.ofStage "shop" "dev" "1")
          [topicDescriptor "a" "get"] template
        = (.ok ⟨1, ["ApiGatewayMethodAGet"], some "ApiGatewayDeployment1"⟩,
          compiled) ∧
      Template.ofJson compiled.toJson = .ok compiled ∧
      Template.settled document "Outputs" = none ∧
      ∃ saved, template.toJson = .obj saved ∧
        ∀ name, Fields.get? saved name = Template.settled document name := by
  let document : Fields Json := [("Outputs", .null), ("Description", "orders"),
    ("Resources", .obj [("Table", .obj [("Type", "AWS::DynamoDB::Table")])]),
    ("Transform", "AWS::Serverless-2016-10-31")]
  let template : Template := ⟨[("Transform", "AWS::Serverless-2016-10-31"),
    ("Description", "orders")],
    [("Table", .obj [("Type", "AWS::DynamoDB::Table")])], []⟩
  have distinct : Fields.Distinct document := by
    unfold Fields.Distinct
    decide
  have hload : Template.ofJson (.obj document) = .ok template := by decide
  have hreport : (compile (Provider.ofStage "shop" "dev" "1")
      [topicDescriptor "a" "get"] template).1 = .ok ⟨1,
      ["ApiGatewayMethodAGet"], some "ApiGatewayDeployment1"⟩ := by decide
  obtain ⟨hkept, -, hsaved⟩ := templates_survive_saving
  obtain ⟨saved, hjson, -, hsettled⟩ :=
    (hsaved document distinct).2 template hload
  exact ⟨document, template, _, distinct, rfl, hload,
    compile_eq_of_report hreport,
    hkept _ ((Template.Reached.loaded distinct hload).compiled _ _),
    by decide, saved, hjson, hsettled⟩

end GatewayStack
