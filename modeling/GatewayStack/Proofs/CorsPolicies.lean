import GatewayStack.Proofs.Routes

/-!
# The policy of a path

The preflights are gathered in one walk over the events of all paths,
by inserting or merging one policy after the other. Seen from one path
that is a plain fold over the policies that its own proxies ask for
(`get?_foldl_addPreflight`), since a step on one path leaves every
other one alone.

What the fold makes is said field by field without it (`CorsPolicy.ofPath`). The
first policy is taken as it is, repetitions included, and only what the later
ones add is freed of them. So the lists are not the distinct items of all lists
together, and the first policy has to be told apart from the others.
-/

namespace GatewayStack

namespace FirstSeen

variable {α : Type} [DecidableEq α]

/-- A union is the first list followed by what is new in the second one, each
new item where it is first seen. -/
theorem union_eq_append_eraseDups (seen items : List α) :
    union seen items
      = seen ++ (items.filter fun item => item ∉ seen).eraseDups := by
  induction items generalizing seen with
  | nil => simp [union]
  | cons item rest ih =>
      rw [union, ih]
      by_cases h : item ∈ seen
      · have hadd : add seen item = seen := if_pos h
        rw [hadd, List.filter_cons_of_neg (by simpa using h)]
      · have hadd : add seen item = seen ++ [item] := if_neg h
        have hrest : (rest.filter fun other => other ∉ seen ++ [item])
            = (rest.filter fun other => other ∉ seen).filter
              fun other => !other == item := by
          rw [List.filter_filter]
          refine List.filter_congr fun other _ => ?_
          by_cases heq : other = item <;> simp [heq]
        rw [hadd, hrest, List.filter_cons_of_pos (by simpa using h),
          List.eraseDups_cons, List.append_assoc, List.singleton_append]

theorem distinct_eq_eraseDups (items : List α) :
    distinct items = items.eraseDups := by
  rw [distinct, union_eq_append_eraseDups]
  simp

end FirstSeen

/-- The policy that a proxy itself asks for. -/
def ServiceProxy.policy (proxy : ServiceProxy) : Option CorsPolicy :=
  proxy.http.cors.map fun choice => CorsPolicy.ofProxy choice proxy.http.verb

/-- The policies that the proxies on a path ask for, in configuration order. -/
def policiesOn (proxies : List ServiceProxy) (path : String) :
    List CorsPolicy :=
  (proxies.filter fun proxy => proxy.path = path).filterMap ServiceProxy.policy

namespace CorsPolicy

/-! ## The policy of one proxy -/

/-- Configured lists reach the policy as they are, and the methods in front of
those that are always allowed. A list that is not configured has its default. -/
theorem ofProxy_custom (settings : CorsSettings) (verb : Verb) :
    let policy := ofProxy (.custom settings) verb
    (∀ origins, settings.origins = some origins → policy.origins = origins) ∧
    (settings.origins = none → policy.origins = []) ∧
    (∀ headers, settings.headers = some headers → policy.headers = headers) ∧
    (settings.headers = none → policy.headers = defaultHeaders) ∧
    (∀ methods, settings.methods = some methods → methods <+: policy.methods) ∧
    ∀ method, method ∈ policy.methods ↔
      method ∈ settings.methods.getD [] ∨ method = "OPTIONS" ∨
        method = verb.upper := by
  have front (seen : List String) (item : String) :
      seen <+: FirstSeen.add seen item := by
    unfold FirstSeen.add
    split
    · exact List.prefix_refl seen
    · exact List.prefix_append seen [item]
  refine ⟨fun origins h => ?_, fun h => ?_, fun headers h => ?_, fun h => ?_,
    fun methods h => ?_, fun method => ?_⟩
  · simp [ofProxy, ofChoice, h]
  · simp [ofProxy, ofChoice, h]
  · simp [ofProxy, ofChoice, h]
  · simp [ofProxy, ofChoice, h]
  · show methods <+: FirstSeen.add (FirstSeen.add (settings.methods.getD []) _)
      _
    rw [h]
    exact (front _ _).trans (front _ _)
  · show method ∈ FirstSeen.add (FirstSeen.add _ _) _ ↔ _
    rw [FirstSeen.mem_add, FirstSeen.mem_add, or_assoc]
    rfl

theorem intercalate_cons (separator first : String) (rest : List String) :
    String.intercalate separator (first :: rest)
      = first ++ String.join (rest.map (separator ++ ·)) := by
  induction rest generalizing first with
  | nil => simp
  | cons second rest ih =>
      rw [String.intercalate_cons_cons, ih, List.map_cons, String.join_cons]
      simp only [String.append_assoc]

section allowOrigin

variable {policy : CorsPolicy}

/-- An explicit origin goes before the list. -/
theorem allowOrigin_of_origin {origin : String}
    (h : policy.origin = some origin) :
    policy.allowOrigin = origin := by
  rw [allowOrigin, h]

/-- Without any origin every one is allowed. -/
theorem allowOrigin_of_nil (h : policy.origin = none)
    (none : policy.origins = []) :
    policy.allowOrigin = "*" := by
  rw [allowOrigin, h]
  exact if_pos none

/-- The origins of a list are separated by commas. -/
theorem allowOrigin_of_cons {first : String} {rest : List String}
    (h : policy.origin = none) (listed : policy.origins = first :: rest) :
    policy.allowOrigin = first ++ String.join (rest.map ("," ++ ·)) := by
  rw [allowOrigin, h, listed, ← intercalate_cons]
  exact if_neg (List.cons_ne_nil first rest)

end allowOrigin

/-! ## The policies of a path -/

/-- A list and what is new in another one, each new item once. -/
def extended (items more : List String) : List String :=
  items ++ (more.filter fun item => item ∉ items).eraseDups

/-- The policy of a path whose proxies ask for some policies, in this
order: what the first one lists comes first and unchanged, a single setting
is that of the last policy that has it, and credentials are allowed when
one of them allows them. -/
def ofPath : List CorsPolicy → Option CorsPolicy
  | [] => none
  | first :: rest => some {
      origins := extended first.origins (rest.flatMap origins)
      origin := ((first :: rest).filterMap origin).getLast?
      methods := extended first.methods (rest.flatMap methods)
      headers := extended first.headers (rest.flatMap headers)
      allowCredentials := (first :: rest).any allowCredentials
      maxAge := ((first :: rest).filterMap maxAge).getLast?
      cacheControl := ((first :: rest).filterMap cacheControl).getLast? }

/-! ## Merging several policies -/

/-- A list that every merge unites. -/
theorem foldl_merge_list (field : CorsPolicy → List String)
    (united : ∀ a b : CorsPolicy, field (a.merge b)
      = FirstSeen.union (field a) (field b))
    (first : CorsPolicy) (rest : List CorsPolicy) :
    field (rest.foldl merge first)
      = extended (field first) (rest.flatMap field) := by
  have fold : field (rest.foldl merge first)
      = FirstSeen.union (field first) (rest.flatMap field) := by
    induction rest generalizing first with
    | nil => rfl
    | cons later rest ih =>
        rw [List.foldl_cons, ih, united, List.flatMap_cons,
          FirstSeen.union_append]
  rw [fold, FirstSeen.union_eq_append_eraseDups]
  rfl

/-- A setting in which every merge follows the later policy. -/
theorem foldl_merge_setting {α : Type} (field : CorsPolicy → Option α)
    (follows : ∀ a b : CorsPolicy, field (a.merge b) = (field b).or (field a))
    (first : CorsPolicy) (rest : List CorsPolicy) :
    field (rest.foldl merge first)
      = ((first :: rest).filterMap field).getLast? := by
  induction rest generalizing first with
  | nil => cases h : field first <;> simp [h]
  | cons later rest ih =>
      rw [List.foldl_cons, ih, List.filterMap_cons, follows]
      cases hfirst : field first <;> cases hlater : field later <;>
        simp [hfirst, hlater]

theorem foldl_merge_credentials (first : CorsPolicy) (rest : List CorsPolicy) :
    (rest.foldl merge first).allowCredentials
      = (first :: rest).any allowCredentials := by
  induction rest generalizing first with
  | nil => simp
  | cons later rest ih =>
      rw [List.foldl_cons, ih]
      simp [merge, Bool.or_assoc]

theorem foldl_merge (first : CorsPolicy) (rest : List CorsPolicy) :
    some (rest.foldl merge first) = ofPath (first :: rest) := by
  have horigins := foldl_merge_list origins (fun _ _ => rfl) first rest
  have hmethods := foldl_merge_list methods (fun _ _ => rfl) first rest
  have hheaders := foldl_merge_list headers (fun _ _ => rfl) first rest
  have horigin := foldl_merge_setting origin (fun _ _ => rfl) first rest
  have hmaxAge := foldl_merge_setting maxAge (fun _ _ => rfl) first rest
  have hcache := foldl_merge_setting cacheControl (fun _ _ => rfl) first rest
  rw [ofPath, ← horigins, ← horigin, ← hmethods, ← hheaders,
    ← foldl_merge_credentials, ← hmaxAge, ← hcache]

/-- The header of a path names the last explicit origin, if a proxy on it has
one. -/
theorem allowOrigin_of_ofPath {policies : List CorsPolicy} {merged : CorsPolicy}
    (h : ofPath policies = some merged) {last : String}
    (explicit : (policies.filterMap origin).getLast? = some last) :
    merged.allowOrigin = last := by
  cases policies with
  | nil => cases h
  | cons first rest =>
      obtain rfl := Option.some.inj h
      exact allowOrigin_of_origin explicit

/-- Preflights and the verb itself are always allowed. -/
theorem mem_methods_ofProxy (choice : CorsChoice) (verb : Verb) :
    Verb.options.upper ∈ (ofProxy choice verb).methods ∧
      verb.upper ∈ (ofProxy choice verb).methods := by
  refine ⟨FirstSeen.mem_add.mpr (Or.inl (FirstSeen.mem_add.mpr (Or.inr rfl))),
    ?_⟩
  exact FirstSeen.mem_add.mpr (Or.inr rfl)

/-- What one of the policies allows the path allows. -/
theorem mem_methods_of_ofPath {policies : List CorsPolicy}
    {merged policy : CorsPolicy} (h : ofPath policies = some merged)
    (hmem : policy ∈ policies) {method : String}
    (hmethod : method ∈ policy.methods) : method ∈ merged.methods := by
  cases policies with
  | nil => cases hmem
  | cons first rest =>
      rw [← foldl_merge, Option.some.injEq] at h
      rw [← h, foldl_merge_list methods fun _ _ => rfl, extended,
        ← FirstSeen.union_eq_append_eraseDups, FirstSeen.mem_union,
        List.mem_flatMap]
      rcases List.mem_cons.mp hmem with rfl | hmem
      · exact Or.inl hmethod
      · exact Or.inr ⟨policy, hmem, hmethod⟩

end CorsPolicy

/-! ## The walk over the events, seen from one path -/

namespace Normalized

/-- A step changes what is under the path of the event and nothing else. -/
theorem get?_addPreflight (preflights : Fields CorsPolicy) (event : Event)
    (path : String) :
    Fields.get? (addPreflight preflights event) path
      = if event.path = path then
          Option.merge CorsPolicy.merge (Fields.get? preflights path) event.cors
        else Fields.get? preflights path := by
  unfold addPreflight
  split
  · next hcors => rw [hcors, Option.merge_none_right, ite_self]
  · next policy hcors =>
      rw [Fields.get?_insertSorted, hcors]
      split
      · next hpath =>
          subst hpath
          cases Fields.get? preflights event.path <;> rfl
      · rfl

theorem get?_foldl_addPreflight (events : List Event)
    (preflights : Fields CorsPolicy) (path : String) :
    Fields.get? (events.foldl addPreflight preflights) path
      = ((events.filter fun event => event.path = path).filterMap
        Event.cors).foldl
          (fun merged policy =>
            Option.merge CorsPolicy.merge merged (some policy))
          (Fields.get? preflights path) := by
  induction events generalizing preflights with
  | nil => rfl
  | cons event rest ih =>
      rw [List.foldl_cons, ih, get?_addPreflight]
      by_cases hpath : event.path = path
      · rw [if_pos hpath, List.filter_cons_of_pos (by simpa using hpath),
          List.filterMap_cons]
        cases event.cors with
        | none => rw [Option.merge_none_right]
        | some policy => rfl
      · rw [if_neg hpath, List.filter_cons_of_neg (by simpa using hpath)]

theorem foldl_merge_some (first : CorsPolicy) (rest : List CorsPolicy) :
    rest.foldl (fun merged policy =>
      Option.merge CorsPolicy.merge merged (some policy)) (some first)
        = some (rest.foldl CorsPolicy.merge first) := by
  induction rest generalizing first with
  | nil => rfl
  | cons later rest ih => exact ih _

theorem get?_preflights (proxies : List ServiceProxy) (path : String) :
    Fields.get? (ofProxies proxies).preflights path
      = CorsPolicy.ofPath (policiesOn proxies path) := by
  have hpolicies : ((proxies.map Event.ofProxy).filter fun event => event.path
      = path).filterMap Event.cors = policiesOn proxies path := by
    rw [List.filter_map, List.filterMap_map]
    rfl
  show Fields.get? ((proxies.map Event.ofProxy).foldl addPreflight []) path = _
  rw [get?_foldl_addPreflight, hpolicies]
  cases policiesOn proxies path with
  | nil => rfl
  | cons first rest =>
      rw [List.foldl_cons, Fields.get?_nil, Option.merge_none_left,
        foldl_merge_some, CorsPolicy.foldl_merge]

end Normalized

/-- There is one preflight for every path on which some proxy asks for CORS,
with the policies of those proxies united in configuration order. It allows
`OPTIONS` and the verbs of them all. The events keep the policies that their own
proxies ask for. -/
theorem preflights_unite_policies (proxies : List ServiceProxy) :
    let normalized := Normalized.ofProxies proxies
    (Fields.keys normalized.preflights).Nodup ∧
    (∀ path, path ∈ Fields.keys normalized.preflights ↔
      ∃ proxy ∈ proxies, proxy.http.cors.isSome ∧ proxy.path = path) ∧
    (∀ path, Fields.get? normalized.preflights path
      = CorsPolicy.ofPath (policiesOn proxies path)) ∧
    (∀ proxy ∈ proxies, proxy.http.cors.isSome →
      ∃ merged, Fields.get? normalized.preflights proxy.path = some merged ∧
        "OPTIONS" ∈ merged.methods ∧ proxy.http.verb.upper ∈ merged.methods) ∧
    normalized.events.map Event.cors = proxies.map ServiceProxy.policy := by
  intro normalized
  have hkeys : (Fields.keys normalized.preflights).Perm (corsPaths proxies) :=
    Normalized.keys_preflights_perm proxies
  have hnames : ∀ path, path ∈ Fields.keys normalized.preflights ↔
      ∃ proxy ∈ proxies, proxy.http.cors.isSome ∧ proxy.path = path :=
    fun path => hkeys.mem_iff.trans mem_corsPaths
  refine ⟨hkeys.nodup_iff.mpr (nodup_corsPaths proxies), hnames,
    Normalized.get?_preflights proxies, fun proxy hmem enabled => ?_, ?_⟩
  · obtain ⟨choice, hchoice⟩ := Option.isSome_iff_exists.mp enabled
    have hpolicy : CorsPolicy.ofProxy choice proxy.http.verb ∈
        policiesOn proxies proxy.path := by
      refine List.mem_filterMap.mpr ⟨proxy,
        List.mem_filter.mpr ⟨hmem, decide_eq_true rfl⟩, ?_⟩
      rw [ServiceProxy.policy, hchoice]
      rfl
    have hkey := (hnames proxy.path).mpr ⟨proxy, hmem, enabled, rfl⟩
    obtain ⟨merged, hmerged⟩ := Option.ne_none_iff_exists'.mp
      fun hnone => Fields.get?_eq_none_iff.mp hnone hkey
    have hofPath :=
      (Normalized.get?_preflights proxies proxy.path).symm.trans hmerged
    obtain ⟨hoptions, hverb⟩ :=
      CorsPolicy.mem_methods_ofProxy choice proxy.http.verb
    exact ⟨merged, hmerged, CorsPolicy.mem_methods_of_ofPath hofPath
      hpolicy hoptions, CorsPolicy.mem_methods_of_ofPath hofPath hpolicy hverb⟩
  · show (proxies.map Event.ofProxy).map Event.cors = _
    rw [List.map_map]
    rfl

end GatewayStack
