import GatewayStack.Proofs.Frame

/-!
# Letters and digits

The ids of a template are used as names by whoever deploys it, and a name is
letters and digits of ASCII, at least one. An id begins with the word of its
kind, so it is never empty, and of what follows the word everything is letters
and digits by its making: a path is reduced to them segment by segment, a verb
and a service are spelled in them, and a number is written in digits. Only the
token of a deployment goes into its id as it is.

A run therefore adds a single id for which the question depends on the
configuration, that of a deployment of its own, and the answer is that of its
token (`added_ids_alphanumeric_iff`).
-/

namespace GatewayStack

namespace LogicalId

/-- Digits and letters of ASCII, and nothing else. -/
def Alphanumeric (text : List Char) : Prop :=
  ∀ c ∈ text, ('0' ≤ c ∧ c ≤ '9') ∨ ('A' ≤ c ∧ c ≤ 'Z') ∨ ('a' ≤ c ∧ c ≤ 'z')

instance : DecidablePred Alphanumeric := fun text => List.decidableBAll _ text

/-- At least one digit or letter of ASCII, and nothing else. -/
def Name (id : String) : Prop := id ≠ "" ∧ Alphanumeric id.toList

instance : DecidablePred Name := fun id =>
    inferInstanceAs (Decidable (id ≠ "" ∧ _))

theorem alphanumeric_cons_iff {c : Char} {rest : List Char} :
    Alphanumeric (c :: rest) ↔ Alphanumeric [c] ∧ Alphanumeric rest := by
  unfold Alphanumeric
  rw [List.forall_mem_cons, List.forall_mem_singleton]

theorem alphanumeric_append_iff {a b : String} :
    Alphanumeric (a ++ b).toList ↔ Alphanumeric a.toList ∧
      Alphanumeric b.toList := by
  rw [String.toList_append]
  exact List.forall_mem_append

/-! ## What the texts after a word are made of -/

/-- There are few enough characters in ASCII to go through all. -/
theorem forall_ascii (P : Char → Prop)
    (h : ∀ n < 128, P (Char.ofNat n)) {c : Char}
    (ascii : c.toNat < 128) : P c := by
  rw [← Char.ofNat_toNat c]
  exact h c.toNat ascii

theorem alphanumeric_of_isAsciiAlphanumeric {c : Char}
    (h : Text.isAsciiAlphanumeric c = true) : Alphanumeric [c] := by
  have ascii : c.toNat < 128 := of_decide_eq_true (Bool.and_eq_true_iff.mp h).1
  exact forall_ascii (fun c => Text.isAsciiAlphanumeric c = true →
    Alphanumeric [c]) (by decide) ascii h

theorem alphanumeric_toUpper {c : Char} (h : Alphanumeric [c]) :
    Alphanumeric [c.toUpper] := by
  have below {last : Char} (h : c ≤ last) (hlast : last.toNat < 128) :
      c.toNat < 128 :=
    (UInt32.le_iff_toNat_le.mp h).trans_lt hlast
  refine forall_ascii (fun c => Alphanumeric [c] → Alphanumeric [c.toUpper])
    (by decide) ?_ h
  rcases List.forall_mem_singleton.mp h with digit | upper | lower
  · exact below digit.2 (by decide)
  · exact below upper.2 (by decide)
  · exact below lower.2 (by decide)

theorem alphanumeric_upperFirst {text : List Char} (h : Alphanumeric text) :
    Alphanumeric (Text.upperFirst text) := by
  cases text with
  | nil => exact h
  | cons c rest =>
      obtain ⟨hc, hrest⟩ := alphanumeric_cons_iff.mp h
      exact alphanumeric_cons_iff.mpr ⟨alphanumeric_toUpper hc, hrest⟩

theorem alphanumeric_segmentChars (segment : List Char) :
    Alphanumeric (segmentChars segment) := by
  refine alphanumeric_upperFirst fun c hc => ?_
  have hkept := alphanumeric_of_isAsciiAlphanumeric (List.mem_filter.mp hc).2
  exact hkept c List.mem_cons_self

theorem alphanumeric_path (text : String) :
    Alphanumeric (path text).toList := by
  intro c hc
  rw [path, String.toList_ofList] at hc
  obtain ⟨segment, -, hmem⟩ := List.mem_flatMap.mp hc
  exact alphanumeric_segmentChars segment c hmem

theorem alphanumeric_verb (v : Verb) : Alphanumeric (verb v).toList := by
  cases v <;> decide

theorem alphanumeric_number (n : Nat) : Alphanumeric (toString n).toList := by
  intro c hc
  rw [Nat.toString_eq_repr, Nat.toList_repr] at hc
  have digit := Nat.isDigit_of_mem_toDigits (by decide) (by decide) hc
  simp only [Char.isDigit, Bool.and_eq_true, decide_eq_true_eq] at digit
  exact Or.inl digit

/-! ## The ids of each kind -/

theorem OfKind.ne_empty {kind : Kind} {id : String} (h : OfKind kind id) :
    id ≠ "" := by
  rintro rfl
  have empty := List.prefix_nil.mp h.begins_with_word
  revert empty
  cases kind <;> decide

theorem Kind.alphanumeric_word (kind : Kind) :
    Alphanumeric kind.word.toList := by
  cases kind <;> decide

/-- What follows the word of a kind decides. -/
theorem alphanumeric_word_append_iff (kind : Kind) {text : String} :
    Alphanumeric (kind.word ++ text).toList ↔ Alphanumeric text.toList :=
  alphanumeric_append_iff.trans (and_iff_right kind.alphanumeric_word)

/-- All but the deployments are names, whatever they were made from. -/
theorem OfKind.name {kind : Kind} {id : String} (h : OfKind kind id)
    (other : kind ≠ .deployment) : Name id := by
  refine ⟨h.ne_empty, ?_⟩
  cases h with
  | restApi => exact Kind.alphanumeric_word .restApi
  | resource text =>
      exact (alphanumeric_word_append_iff .resource).mpr
        (alphanumeric_path text)
  | method text v =>
      have front := (alphanumeric_word_append_iff .method).mpr
        (alphanumeric_path text)
      exact alphanumeric_append_iff.mpr ⟨front, alphanumeric_verb v⟩
  | role service => cases service <;> decide
  | deployment token => exact absurd rfl other
  | apiKey n =>
      exact (alphanumeric_word_append_iff .apiKey).mpr (alphanumeric_number n)
  | usagePlan => exact Kind.alphanumeric_word .usagePlan
  | usagePlanKey n =>
      exact (alphanumeric_word_append_iff .usagePlanKey).mpr
        (alphanumeric_number n)

theorem name_deployment_iff {token : String} :
    Name (deployment token) ↔ Alphanumeric token.toList :=
  (and_iff_right (OfKind.deployment token).ne_empty).trans
    (alphanumeric_word_append_iff .deployment)

end LogicalId

open LogicalId

theorem Generated.ne_deployment {provider : Provider} {normalized : Normalized}
    {deploymentId id : String} {kind : Kind} {value : Json}
    (h : Generated provider normalized deploymentId kind id value) :
    kind ≠ .deployment := by
  rintro rfl
  rcases h.early_or_late with early | late
  · exact absurd early (by decide)
  · exact absurd late (by decide)

/-- Whatever a run generates next to its deployment is alphanumeric. -/
theorem Generates.name {provider : Provider} {normalized : Normalized}
    {deploymentId id : String}
    (h : Generates provider normalized deploymentId id) : Name id := by
  obtain ⟨kind, value, hgenerated⟩ := h
  exact hgenerated.ofKind.name hgenerated.ne_deployment

theorem not_generates_deployment {provider : Provider} {normalized : Normalized}
    {deploymentId token : String} :
    ¬ Generates provider normalized deploymentId
      (LogicalId.deployment token) := by
  rintro ⟨kind, value, hgenerated⟩
  exact hgenerated.ne_deployment (hgenerated.ofKind.unique (.deployment token))

/-! ## The ids of a run -/

namespace Compile

variable {provider : Provider} {normalized : Normalized}
  {template compiled : Template} {report : Report}

/-- A deployment that a run extends is under an id of the template or under one
that the run generates. -/
theorem mem_of_wired {restApi : Fragment}
    (hapi : RestApi.stage provider = .ok restApi) :
    let deploymentId := (wired provider normalized template restApi).2
    deploymentId = LogicalId.deployment provider.token ∨
      deploymentId ∈ Fields.keys template.resources ∨
      Generates provider normalized deploymentId deploymentId := by
  intro deploymentId
  rcases wired_cases provider normalized template restApi with
    ⟨id, existing, hfound, hwired⟩ | ⟨-, hwired⟩
  · have hid : deploymentId = id := congrArg Prod.snd hwired
    have hstaged := Fields.mem_keys_of_mem (List.mem_of_find?_eq_some hfound)
    rw [hid]
    rcases mem_keys_mergeAll.mp hstaged with hmem | ⟨fragment, hfragment, hmem⟩
    · exact Or.inr (Or.inl hmem)
    · obtain ⟨⟨_, value⟩, hentry, rfl⟩ := List.mem_map.mp hmem
      obtain ⟨kind, -, hgenerated⟩ :=
        generated_of_mem_stages hapi _ fragment hfragment _ _ hentry
      exact Or.inr (Or.inr ⟨kind, value, hgenerated⟩)
  · exact Or.inl (congrArg Prod.snd hwired)

/-- The ids that a run adds: what it generates, and a deployment of its own. -/
theorem added_iff
    (h : events provider normalized template = .ok (report, compiled))
    {id : String} (fresh : id ∉ Fields.keys template.resources) :
    ∃ deploymentId, report.deploymentId = some deploymentId ∧
      (id ∈ Fields.keys compiled.resources ↔
        Generates provider normalized deploymentId id ∨
          id = LogicalId.deployment provider.token ∧ id = deploymentId) := by
  obtain ⟨restApi, keys, hapi, hkeys, rfl, rfl⟩ := events_eq_ok h
  refine ⟨_, rfl, ?_⟩
  rw [mem_keys_mergeAll, or_iff_right fresh, exists_mem_keys_iff hapi hkeys]
  refine or_congr_right' fun hfree => ⟨fun hid => ⟨?_, hid⟩, fun hid => hid.2⟩
  subst hid
  rcases mem_of_wired hapi with hown | hmem | hgenerates
  · exact hown
  · exact absurd hmem fresh
  · exact absurd hgenerates hfree

end Compile

/-- The run put a resource under the id, and there was none before. -/
def Template.Gained (template compiled : Template) (id : String) : Prop :=
  id ∈ Fields.keys compiled.resources ∧ id ∉ Fields.keys template.resources

namespace Compile

variable {provider : Provider} {descriptors : List Json}
  {template compiled : Template} {report : Report}

/-- A run without descriptors adds nothing. -/
theorem not_gained_nil {id : String}
    (h : compile provider [] template = (.ok report, compiled)) :
    ¬ Template.Gained template compiled id := by
  rintro ⟨hmem, fresh⟩
  rw [← (Prod.mk.inj h).2] at hmem
  exact fresh hmem

theorem name_of_gained
    (h : compile provider descriptors template = (.ok report, compiled))
    {id : String} (gained : Template.Gained template compiled id)
    (other : id ≠ LogicalId.deployment provider.token) : Name id := by
  by_cases empty : descriptors = []
  · subst empty
    exact absurd gained (not_gained_nil h)
  obtain ⟨proxies, -, hevents⟩ := compile_eq_ok empty h
  obtain ⟨deploymentId, -, hadded⟩ := added_iff hevents gained.2
  rcases hadded.mp gained.1 with hgenerates | ⟨hown, -⟩
  · exact hgenerates.name
  · exact absurd hown other

theorem gained_deployment_iff
    (h : compile provider descriptors template = (.ok report, compiled)) :
    let own := LogicalId.deployment provider.token
    Template.Gained template compiled own ↔
      report.deploymentId = some own ∧
        own ∉ Fields.keys template.resources := by
  intro own
  by_cases empty : descriptors = []
  · subst empty
    obtain ⟨hreport, -⟩ := Prod.mk.inj h
    rw [← Except.ok.inj hreport]
    exact iff_of_false (not_gained_nil h) fun hown => nomatch hown.1
  obtain ⟨proxies, -, hevents⟩ := compile_eq_ok empty h
  refine and_congr_left fun fresh => ?_
  obtain ⟨deploymentId, hid, hadded⟩ := added_iff hevents fresh
  rw [hadded, or_iff_right not_generates_deployment, hid, Option.some_inj]
  exact ⟨fun hown => hown.2.symm, fun hown => ⟨rfl, hown.symm⟩⟩

end Compile

/-- Every id that a run adds is alphanumeric, but for that of a deployment of
its own. It adds one if that is what its methods are wired to and the id is new,
and then all that it adds is alphanumeric if and only if the token is. -/
theorem added_ids_alphanumeric_iff {provider : Provider}
    {descriptors : List Json} {template compiled : Template} {report : Report}
    (h : compile provider descriptors template = (.ok report, compiled)) :
    let gained := Template.Gained template compiled
    let own := LogicalId.deployment provider.token
    (∀ id, gained id → id ≠ own → Name id) ∧
    (gained own ↔ report.deploymentId = some own ∧
      own ∉ Fields.keys template.resources) ∧
    ((∀ id, gained id → Name id) ↔
      (gained own → Alphanumeric provider.token.toList)) := by
  intro gained own
  have named : ∀ id, gained id → id ≠ own → Name id :=
    fun _ => Compile.name_of_gained h
  refine ⟨named, Compile.gained_deployment_iff h, ?_⟩
  refine ⟨fun all hgained => name_deployment_iff.mp (all own hgained), ?_⟩
  intro htoken id hgained
  by_cases hown : id = own
  · subst hown
    exact name_deployment_iff.mpr (htoken hgained)
  · exact named id hgained hown

/-- Of a path, the hyphen is spelled out and the braces and what is not
ASCII are dropped. -/
theorem added_ids_alphanumeric_menu :
    let provider := Provider.ofStage "shop" "dev" "1700"
    let descriptors := [topicDescriptor "menü/à-la-carte/{id}" "get"]
    ∃ report compiled, compile provider descriptors Template.empty
      = (.ok report, compiled) ∧
      Template.Gained Template.empty compiled
        "ApiGatewayMethodMenDashlaDashcarteIdVarGet" ∧
      ∀ id, Template.Gained Template.empty compiled id → Name id := by
  intro provider descriptors
  have hreport : (compile provider descriptors Template.empty).1 = .ok ⟨1,
      ["ApiGatewayMethodMenDashlaDashcarteIdVarGet"],
      some "ApiGatewayDeployment1700"⟩ := by
    decide +kernel
  have h := compile_eq_of_report hreport
  obtain ⟨-, -, hnames⟩ := added_ids_alphanumeric_iff h
  exact ⟨_, _, h, ⟨by decide +kernel, by decide⟩, hnames.mpr fun _ => by decide⟩

/-- A token with a hyphen in it. -/
theorem hyphen_in_deployment :
    let run := compile
      (Provider.ofStage "shop" "dev" "build-7") [topicDescriptor "a" "get"]
      Template.empty
    run.1 = .ok ⟨1, ["ApiGatewayMethodAGet"],
      some "ApiGatewayDeploymentbuild-7"⟩ ∧
      Template.Gained Template.empty run.2 "ApiGatewayDeploymentbuild-7" ∧
      ¬ Name "ApiGatewayDeploymentbuild-7" := by
  intro run
  exact ⟨by decide, ⟨by decide, by decide⟩, by decide⟩

end GatewayStack
