import GatewayStack.Proofs.KeyedResources
import GatewayStack.Proofs.Methods

/-!
# Compiling into what was compiled before

A project is compiled again and again into the template that it wrote the last
time. A merge does not forget, so a method that is generated anew stands over
what was left of it: every value that it has takes effect, and a mapping that
the older one had more in keeps that.

Only the stages before the deployment write under the id of a method, and which
methods they write does not depend on the template. So the run that is compiled
into an older template and the one that is compiled into an empty template merge
the same versions, in the same order, the one onto what was there and the other
onto nothing (`Compile.resource?_early`), and what comes out of the two is
compared at every path.
-/

namespace GatewayStack

open LogicalId

/-! ## Runs that succeed together -/

namespace Compile

variable {provider : Provider} {normalized : Normalized}
  {template compiled : Template} {report : Report} {restApi : Fragment}

theorem compile_of_events {descriptors : List Json}
    {proxies : List ServiceProxy} (nonempty : descriptors ≠ [])
    (hparse : parse descriptors = .ok proxies)
    (h : events provider (Normalized.ofProxies proxies) template
      = .ok (report, compiled)) :
    compile provider descriptors template = (.ok report, compiled) := by
  have hrun : Compile.descriptors provider descriptors template
      = .ok (report, compiled) := by
    rw [Compile.descriptors, hparse]
    exact mapError_eq_ok.mpr h
  rw [compile_eq nonempty, hrun]

/-- Whether the keys can be made does not depend on the deployment. -/
theorem exists_keys {api : Api} {deploymentId : String} {keys : Fragment}
    (h : ApiKeys.stage provider api deploymentId = .ok keys) (other : String) :
    ∃ keys, ApiKeys.stage provider api other = .ok keys := by
  obtain ⟨names, hnames, -⟩ := ApiKeys.stage_eq_ok h
  unfold ApiKeys.stage
  rw [hnames]
  exact ⟨_, rfl⟩

/-- A run that succeeds on one template succeeds on every other, with the same
methods. -/
theorem exists_events
    (h : events provider normalized template = .ok (report, compiled))
    (other : Template) : ∃ report' compiled',
      events provider normalized other = .ok (report', compiled') ∧
        report'.methodIds = report.methodIds := by
  obtain ⟨restApi, keys, hapi, hkeys, rfl, -⟩ := events_eq_ok h
  obtain ⟨keys', hkeys'⟩ :=
    exists_keys hkeys (wired provider normalized other restApi).2
  exact ⟨_, _, (events_eq hapi).trans (congrArg (Except.map _) hkeys'), rfl⟩

end Compile

/-! ## The versions of a method -/

namespace Compile

variable {id : String}

theorem versions_ne_nil {fragments : List Fragment}
    (tracks : ∀ fragment ∈ fragments, fragment.Tracks)
    (hmem : id ∈ fragments.flatMap Fragment.methodIds) :
    versions fragments id ≠ [] := by
  obtain ⟨fragment, hfragment, hid⟩ := List.mem_flatMap.mp hmem
  intro hnil
  have hnone := List.filterMap_eq_nil_iff.mp hnil fragment hfragment
  exact Fields.get?_eq_none_iff.mp hnone
    ((tracks fragment hfragment id).mp hid).1

theorem length_versions_le {fragments : List Fragment}
    (tracks : ∀ fragment ∈ fragments, fragment.Tracks)
    (hid : OfKind .method id) :
    (versions fragments id).length ≤
      (fragments.flatMap Fragment.methodIds).count id := by
  induction fragments with
  | nil => exact Nat.le_refl _
  | cons fragment rest ih =>
      obtain ⟨hfirst, hrest⟩ := List.forall_mem_cons.mp tracks
      have hone :
          (Fields.get? fragment.resources id).toList.length ≤
            fragment.methodIds.count id := by
        cases hversion : Fields.get? fragment.resources id with
        | none => exact Nat.zero_le _
        | some version =>
            have hkey := Fields.mem_keys_of_mem (Fields.mem_of_get? hversion)
            exact List.one_le_count_iff.mpr ((hfirst id).mpr ⟨hkey, hid⟩)
      rw [versions_cons, List.length_append, List.flatMap_cons,
        List.count_append]
      exact Nat.add_le_add hone (ih hrest)

end Compile

/-- Compiled into what another configuration left, a configuration makes the
methods that it makes of nothing, each laid over what was there under its id:
what was generated takes effect at every path, and what is there besides was
there before. Where nothing was, the method is just the generated one, and one
that is generated once is merged over the old one once. -/
theorem recompiled_methods {a b : Provider} {as bs : List Json}
    {left report : Report} {middle final : Template}
    (keyed : ∀ descriptor ∈ bs, descriptor.Keyed) (hgateway : b.gateway.Keyed)
    (before : compile a as Template.empty = (.ok left, middle))
    (h : compile b bs middle = (.ok report, final)) :
    ∃ alone fresh, compile b bs Template.empty = (.ok alone, fresh) ∧
      alone.methodIds = report.methodIds ∧
      ∀ id ∈ report.methodIds, ∃ value result, fresh.resource? id = some value ∧
        final.resource? id = some result ∧
        Json.LaidOver (middle.resource? id) value result ∧
        (middle.resource? id = none → result = value) ∧
        ∀ old, middle.resource? id = some old → report.methodIds.count id = 1 →
          result = Json.merge old value := by
  by_cases empty : bs = []
  · subst empty
    obtain ⟨hreport, -⟩ := Prod.mk.inj h
    obtain rfl := Except.ok.inj hreport
    exact ⟨_, _, rfl, rfl, fun id hid => absurd hid List.not_mem_nil⟩
  have hmiddle : middle.Orderly :=
    Compile.orderly_compile before Template.orderly_empty
  obtain ⟨proxies, hparse, hevents⟩ := Compile.compile_eq_ok empty h
  obtain ⟨alone, fresh, halone, hids⟩ :=
    Compile.exists_events hevents Template.empty
  refine ⟨alone, fresh, Compile.compile_of_events empty hparse halone, hids,
    fun id hid => ?_⟩
  obtain ⟨restApi, -, hapi, -, rfl, -⟩ := Compile.events_eq_ok hevents
  have tracks : ∀ fragment ∈ Compile.stages b
      (Normalized.ofProxies proxies) restApi, fragment.Tracks :=
    Compile.tracks_stages hapi
  have hkind : OfKind .method id := by
    obtain ⟨fragment, hfragment, hmem⟩ := List.mem_flatMap.mp hid
    exact ((tracks fragment hfragment id).mp hmem).2
  have early : Compile.EarlyKind .method := Or.inr (Or.inr (Or.inl rfl))
  have hnonempty := Compile.versions_ne_nil tracks hid
  have hkeyed := Compile.keyed_versions hapi hgateway
    (keyed_events hparse keyed) id
  have hfresh := Compile.resource?_early hapi halone
    Template.orderly_empty hkind early
  have hfinal := Compile.resource?_early hapi hevents hmiddle hkind early
  obtain ⟨value, result, hvalue, hresult, hlaid⟩ :=
    Json.laidOver_mergeOnto hnonempty hkeyed (middle.resource? id)
  refine ⟨value, result, hfresh.trans hvalue, hfinal.trans hresult, hlaid,
    fun hnone => ?_, fun old hold honce => ?_⟩
  · rw [hnone, hvalue] at hresult
    exact (Option.some.inj hresult).symm
  · have hlength := Compile.length_versions_le tracks hkind
    rw [show List.count id _ = 1 from honce] at hlength
    obtain ⟨version, hversion⟩ :=
      List.length_eq_one_iff.mp
        (Nat.le_antisymm hlength (List.length_pos_iff.mpr hnonempty))
    rw [hversion] at hvalue hresult
    obtain rfl := Option.some.inj hvalue
    rw [hold] at hresult
    exact (Option.some.inj hresult).symm

/-- A proxy in front of a topic that brings a role of its own. -/
def ownRoleDescriptor (path role : String) : Json :=
  .obj [("sns", .obj [("path", path), ("method", "get"), ("topicName", "topic"),
    ("roleArn", Intrinsic.ref role)])]

/-- A role is configured for a method, and then no more. -/
theorem recompiled_without_role :
    ∃ left report middle final,
      (∀ descriptor ∈ [topicDescriptor "a" "get"], descriptor.Keyed) ∧
      (Provider.ofStage "shop" "dev" "1").gateway.Keyed ∧
      compile (Provider.ofStage "shop" "dev" "1") [ownRoleDescriptor "a" "Role"]
          Template.empty
        = (.ok left, middle) ∧
      compile (Provider.ofStage "shop" "dev" "1")
          [topicDescriptor "a" "get"] middle
        = (.ok report, final) ∧
      ∃ old value, middle.resource? "ApiGatewayMethodAGet" = some old ∧
        Json.LaidOver (some old) value (Json.merge old value) ∧
        final.resource? "ApiGatewayMethodAGet"
          = some (Json.merge old value) := by
  have keyed : ∀ descriptor ∈ [topicDescriptor "a" "get"], descriptor.Keyed :=
    List.forall_mem_singleton.mpr (keyed_topicDescriptor "a" "get")
  have hgateway : (Provider.ofStage "shop" "dev" "1").gateway.Keyed :=
    GatewaySettings.keyed_empty
  have first := compile_eq_of_report
    (show (compile (Provider.ofStage "shop" "dev" "1")
        [ownRoleDescriptor "a" "Role"] Template.empty).1
      = .ok ⟨1, ["ApiGatewayMethodAGet"],
        some "ApiGatewayDeployment1"⟩ by decide)
  have second :=
    compile_eq_of_report
      (show (compile (Provider.ofStage "shop" "dev" "1")
        [topicDescriptor "a" "get"] (compile (Provider.ofStage "shop" "dev" "1")
          [ownRoleDescriptor "a" "Role"] Template.empty).2).1
      = .ok ⟨1, ["ApiGatewayMethodAGet"],
        some "ApiGatewayDeployment1"⟩ by decide)
  have present :
      ((compile (Provider.ofStage "shop" "dev" "1")
        [ownRoleDescriptor "a" "Role"] Template.empty).2.resource?
        "ApiGatewayMethodAGet").isSome := by decide
  obtain ⟨old, hold⟩ := Option.isSome_iff_exists.mp present
  obtain ⟨alone, fresh, -, -, hmethods⟩ :=
    recompiled_methods keyed hgateway first second
  obtain ⟨value, result, -, hresult, hlaid, -, honce⟩ :=
    hmethods "ApiGatewayMethodAGet" List.mem_cons_self
  rw [honce old hold (by decide)] at hresult hlaid
  rw [hold] at hlaid
  exact ⟨_, _, _, _, keyed, hgateway, first, second, old, value, hold,
    hlaid, hresult⟩

/-- What is left of the role stands beside the shared one. -/
theorem credentials_of_both_roles :
    let provider := Provider.ofStage "shop" "dev" "1"
    let middle := (compile provider [ownRoleDescriptor "a" "Role"]
      Template.empty).2
    let fresh := compile provider [topicDescriptor "a" "get"] Template.empty
    let final := compile provider [topicDescriptor "a" "get"] middle
    let credentials (template : Template) : Option Json :=
      (template.resource? "ApiGatewayMethodAGet").bind fun method =>
        method.at? ["Properties", "Integration", "Credentials"]
    (compile provider [ownRoleDescriptor "a" "Role"] Template.empty).1
        = .ok ⟨1, ["ApiGatewayMethodAGet"], some "ApiGatewayDeployment1"⟩ ∧
      final.1 = .ok ⟨1, ["ApiGatewayMethodAGet"],
        some "ApiGatewayDeployment1"⟩ ∧
      fresh.1 = .ok ⟨1, ["ApiGatewayMethodAGet"],
        some "ApiGatewayDeployment1"⟩ ∧
      credentials fresh.2
        = some (.obj [("Fn::GetAtt", .arr ["ApigatewayToSnsRole", "Arn"])]) ∧
      credentials final.2 = some (.obj [("Ref", "Role"),
        ("Fn::GetAtt", .arr ["ApigatewayToSnsRole", "Arn"])]) ∧
      final.2.resource? "ApiGatewayMethodAGet"
        ≠ fresh.2.resource? "ApiGatewayMethodAGet" := by
  decide +kernel

end GatewayStack
