import GatewayStack.Proofs.Generated
import GatewayStack.Proofs.KeyedMethods

/-!
# Generated resources repeat no name

What is true of the methods is true of everything that a run generates: a
mapping has each of its names once, given that the configured values do. The
other resources take over less of the configuration than the methods, only the
references to an existing API and the statements of its policy, and the latter
stand in a list, where no path of names leads.
-/

namespace GatewayStack

open LogicalId Json

@[simp] theorem Json.keyed_nat (n : Nat) : (Json.nat n).Keyed :=
  keyed_of_plain rfl

@[simp] theorem Json.keyed_strings (items : List String) :
    (Json.strings items).Keyed :=
  keyed_arr _

@[simp] theorem Intrinsic.keyed_ref (id : String) : (Intrinsic.ref id).Keyed :=
  keyed_obj (by simp [Fields.Distinct]) (by simp)

/-- A resource that has nothing but its type and its properties. -/
theorem keyed_of_properties {type : String} {properties : Json}
    (h : properties.Keyed) :
    (Json.obj [("Type", .str type), ("Properties", properties)]).Keyed :=
  keyed_obj (by simp [Fields.Distinct]) (by simp [h])

theorem RestApi.keyed_resource (provider : Provider) (type : EndpointType) :
    (RestApi.resource provider type).Keyed := by
  refine keyed_of_properties (keyed_obj ?_ ?_)
  · have distinctNames : List.Nodup ["Name", "EndpointConfiguration",
        "BinaryMediaTypes", "MinimumCompressionSize", "Policy"] := by decide
    refine distinctNames.sublist ?_
    cases provider.gateway.binaryMediaTypes
      <;> cases provider.gateway.minimumCompressionSize
      <;> cases provider.gateway.resourcePolicy <;> simp [optionalProperty]
  · simp only [List.forall_mem_append, List.forall_mem_cons, List.not_mem_nil,
      false_imp_iff, implies_true, and_true, keyed_str, true_and]
    refine ⟨⟨⟨keyed_obj (by simp [Fields.Distinct]) (by simp), ?_⟩, ?_⟩, ?_⟩
    · refine forall_optionalProperty fun value hvalue => ?_
      obtain ⟨types, -, rfl⟩ := Option.map_eq_some_iff.mp hvalue
      exact keyed_strings types
    · refine forall_optionalProperty fun value hvalue => ?_
      obtain ⟨size, -, rfl⟩ := Option.map_eq_some_iff.mp hvalue
      exact keyed_nat size
    · refine forall_optionalProperty fun value hvalue => ?_
      obtain ⟨statements, -, rfl⟩ := Option.map_eq_some_iff.mp hvalue
      exact keyed_obj (by simp [Fields.Distinct]) (by simp)

theorem PathTree.keyed_resource {provider : Provider}
    (hgateway : provider.gateway.Keyed) (path : String) :
    (PathTree.resource (Api.ofProvider provider) path).Keyed := by
  refine keyed_of_properties (keyed_obj (by simp [Fields.Distinct]) ?_)
  simp only [List.forall_mem_cons, List.not_mem_nil, false_imp_iff,
    implies_true, and_true, keyed_str, true_and]
  exact ⟨Api.keyed_resourceId hgateway _, Api.keyed_restApiId hgateway⟩

theorem Permission.keyed_role (service : Service) (targets : List Target) :
    (Permission.role service targets).Keyed := by
  refine keyed_of_properties (keyed_obj (by simp [Fields.Distinct]) ?_)
  simp only [List.forall_mem_cons, List.not_mem_nil, false_imp_iff,
    implies_true, and_true, keyed_arr]
  exact keyed_obj (by simp [Fields.Distinct]) (by simp)

namespace ApiKeys

variable {provider : Provider} {api : Api} {deploymentId : String}

theorem keyed_keyResource (name : String) :
    (keyResource provider api deploymentId name).Keyed := by
  refine keyed_obj (by simp [Fields.Distinct]) ?_
  simp only [List.forall_mem_cons, List.not_mem_nil, false_imp_iff,
    implies_true, and_true, keyed_str, true_and]
  exact keyed_obj (by simp [Fields.Distinct]) (by simp)

theorem keyed_quotaMembers (limits : Quota) : (quotaMembers limits).Keyed := by
  refine keyed_obj_of_plain ?_ ?_
  · have distinctNames : List.Nodup ["Limit", "Offset", "Period"] := by decide
    refine distinctNames.sublist ?_
    cases limits.limit <;> cases limits.offset <;> cases limits.period <;>
      simp [optionalProperty]
  · cases limits.limit <;> cases limits.offset <;> cases limits.period <;>
      simp [optionalProperty, Json.nat, Json.fields?]

theorem keyed_throttleMembers (limits : Throttle) :
    (throttleMembers limits).Keyed := by
  obtain ⟨burstLimit, rate⟩ := limits
  refine keyed_obj_of_plain ?_ ?_
  · cases burstLimit <;> cases rate <;> simp [Fields.Distinct, optionalProperty]
  · rcases rate with _ | _ | _ | _ <;> cases burstLimit <;>
      simp [optionalProperty, Json.nat, Rate.toJson, Rate.finite?, Json.fields?]

theorem keyed_planResource :
    (planResource provider api deploymentId).Keyed := by
  refine keyed_obj (by simp [Fields.Distinct]) ?_
  simp only [List.forall_mem_cons, List.not_mem_nil, false_imp_iff,
    implies_true, and_true, keyed_str, true_and]
  refine keyed_obj ?_ ?_
  · have distinctNames : List.Nodup
        ["ApiStages", "Description", "UsagePlanName", "Quota", "Throttle"] := by
      decide
    refine distinctNames.sublist ?_
    cases provider.usagePlan.bind (·.quota) <;> cases provider.usagePlan.bind
      (·.throttle) <;> simp [optionalProperty]
  · simp only [List.forall_mem_append, List.forall_mem_cons, List.not_mem_nil,
      false_imp_iff, implies_true, and_true, keyed_str, keyed_arr, true_and]
    refine ⟨forall_optionalProperty fun value hvalue => ?_,
      forall_optionalProperty fun value hvalue => ?_⟩
    · obtain ⟨limits, -, rfl⟩ := Option.map_eq_some_iff.mp hvalue
      exact keyed_quotaMembers limits
    · obtain ⟨limits, -, rfl⟩ := Option.map_eq_some_iff.mp hvalue
      exact keyed_throttleMembers limits

theorem keyed_bindingResource (n : Nat) : (bindingResource n).Keyed :=
  keyed_of_properties (keyed_obj (by simp [Fields.Distinct]) (by simp))

end ApiKeys

theorem Generated.keyed {provider : Provider} {normalized : Normalized}
    {deploymentId id : String} {kind : Kind} {value : Json}
    (hgateway : provider.gateway.Keyed)
    (hevents : ∀ event ∈ normalized.events, event.Keyed)
    (h : Generated provider normalized deploymentId kind id value) :
    value.Keyed := by
  cases h with
  | restApi => exact RestApi.keyed_resource provider _
  | resource => exact PathTree.keyed_resource hgateway _
  | preflight => exact Preflight.keyed_resource hgateway _ _
  | role => exact Permission.keyed_role _ _
  | method mem => exact Method.keyed_resource hgateway (hevents _ mem)
  | apiKey => exact ApiKeys.keyed_keyResource _
  | usagePlan => exact ApiKeys.keyed_planResource
  | usagePlanKey => exact ApiKeys.keyed_bindingResource _

/-! ## What the stages have under an id -/

namespace Compile

variable {provider : Provider} {normalized : Normalized} {restApi : Fragment}

theorem keyed_versions (hapi : RestApi.stage provider = .ok restApi)
    (hgateway : provider.gateway.Keyed)
    (hevents : ∀ event ∈ normalized.events, event.Keyed) (id : String) :
    ∀ version ∈ versions (stages provider normalized restApi) id,
      version.Keyed := by
  intro version hversion
  obtain ⟨fragment, hfragment, hmem⟩ := exists_mem_of_versions hversion
  -- No stage before the deployment mentions it, so any id does for it.
  obtain ⟨kind, -, hgenerated⟩ :=
    generated_of_mem_stages hapi "" fragment hfragment id version hmem
  exact hgenerated.keyed hgateway hevents

end Compile

theorem keyed_topicDescriptor (path method : String) :
    (topicDescriptor path method).Keyed := by
  refine keyed_obj (by simp [Fields.Distinct])
    (List.forall_mem_singleton.mpr ?_)
  exact keyed_obj (by simp [Fields.Distinct]) (by simp)

end GatewayStack
