import GatewayStack.Proofs.CorsPolicies

/-!
# What merging does to policies

Merging is associative and idempotent. For the single settings that is a law of
options and booleans. For the lists it is one of unions in first-seen order, and
there nothing has to be assumed about repetitions: a union keeps those of its
first list and takes none over from the second one. So the policies on a path
can be put together in groups, in any division that keeps their order
(`CorsPolicy.ofPath_flatten`).

The same fact decides when a list has an item twice. No merge brings a
repetition in and none takes one out, so what counts is the list that the first
proxy was configured with (`cors_lists_unrepeated_iff`), and a configuration
may repeat itself.
-/

namespace GatewayStack

namespace FirstSeen

variable {α : Type} [DecidableEq α] {seen items : List α} {item : α}

/-- A union repeats what its first list repeats. -/
theorem nodup_union_iff : (union seen items).Nodup ↔ seen.Nodup := by
  refine ⟨fun h => ?_, nodup_union⟩
  obtain ⟨new, hunion, -⟩ := exists_union_eq_append seen items
  rw [hunion] at h
  exact h.of_append_left

theorem nodup_add_iff : (add seen item).Nodup ↔ seen.Nodup := by
  show (union seen [item]).Nodup ↔ seen.Nodup
  exact nodup_union_iff

end FirstSeen

namespace CorsPolicy

/-! ## Groups of policies -/

theorem merge_assoc (a b c : CorsPolicy) :
    (a.merge b).merge c = a.merge (b.merge c) := by
  simp only [merge, FirstSeen.union_union, Option.or_assoc, Bool.or_assoc]

theorem merge_self (policy : CorsPolicy) : policy.merge policy = policy := by
  have same (items : List String) : FirstSeen.union items items = items :=
    FirstSeen.union_eq_self fun _ h => h
  simp only [merge, same, Option.or_self, Bool.or_self]

instance : Std.Associative merge := ⟨merge_assoc⟩

theorem ofPath_append (front rest : List CorsPolicy) :
    ofPath (front ++ rest)
      = Option.merge merge (ofPath front) (ofPath rest) := by
  cases front with
  | nil => rw [List.nil_append, ofPath, Option.merge_none_left]
  | cons first front =>
      cases rest with
      | nil => rw [List.append_nil, show ofPath [] = none from rfl,
        Option.merge_none_right]
      | cons next rest =>
          rw [List.cons_append, ← foldl_merge, ← foldl_merge, ← foldl_merge,
            List.foldl_append, List.foldl_cons, List.foldl_assoc]
          rfl

/-- The policy of a path does not depend on how its policies are grouped. -/
theorem ofPath_flatten (groups : List (List CorsPolicy)) :
    ofPath groups.flatten = ofPath (groups.filterMap ofPath) := by
  induction groups with
  | nil => rfl
  | cons group rest ih =>
      rw [List.flatten_cons, ofPath_append, ih, List.filterMap_cons]
      cases ofPath group with
      | none => exact Option.merge_none_left
      | some policy =>
          have alone : ofPath [policy] = some policy :=
            (foldl_merge policy []).symm
          have split := ofPath_append [policy] (rest.filterMap ofPath)
          rw [alone] at split
          exact split.symm

/-- Merging is associative and idempotent, whatever the lists repeat. -/
theorem merge_assoc_idempotent :
    (∀ a b c : CorsPolicy, (a.merge b).merge c = a.merge (b.merge c)) ∧
      ∀ policy : CorsPolicy, policy.merge policy = policy :=
  ⟨merge_assoc, merge_self⟩

/-! ## Repetitions -/

/-- A list that every merge unites repeats what it did at first. -/
theorem nodup_foldl_merge (field : CorsPolicy → List String)
    (united : ∀ a b : CorsPolicy, field (a.merge b)
      = FirstSeen.union (field a) (field b))
    (first : CorsPolicy) (rest : List CorsPolicy) :
    (field (rest.foldl merge first)).Nodup ↔ (field first).Nodup := by
  rw [foldl_merge_list field united, extended,
    ← FirstSeen.union_eq_append_eraseDups, FirstSeen.nodup_union_iff]

end CorsPolicy

/-- The list is not configured, or it has no item twice. -/
def CorsChoice.Unrepeated (list : CorsSettings → Option (List String)) :
    CorsChoice → Prop
  | .enabled => True
  | .custom settings => ∀ items, list settings = some items → items.Nodup

namespace CorsPolicy

theorem nodup_getD_iff {given : Option (List String)} {default : List String}
    (h : default.Nodup) :
    (given.getD default).Nodup ↔ ∀ items, given = some items → items.Nodup := by
  cases given <;> simp [h]

theorem nodup_origins_ofProxy (choice : CorsChoice) (verb : Verb) :
    (ofProxy choice verb).origins.Nodup ↔
      choice.Unrepeated CorsSettings.origins := by
  cases choice with
  | enabled => exact iff_of_true (List.nodup_singleton "*") trivial
  | custom settings => exact nodup_getD_iff List.nodup_nil

/-- The verbs that are added are added once. -/
theorem nodup_methods_ofProxy (choice : CorsChoice) (verb : Verb) :
    (ofProxy choice verb).methods.Nodup ↔
      choice.Unrepeated CorsSettings.methods := by
  refine (FirstSeen.nodup_add_iff.trans FirstSeen.nodup_add_iff).trans ?_
  cases choice with
  | enabled => exact iff_of_true (List.nodup_singleton "OPTIONS") trivial
  | custom settings => exact nodup_getD_iff List.nodup_nil

theorem nodup_headers_ofProxy (choice : CorsChoice) (verb : Verb) :
    (ofProxy choice verb).headers.Nodup ↔
      choice.Unrepeated CorsSettings.headers := by
  have defaults : defaultHeaders.Nodup := by decide
  cases choice with
  | enabled => exact iff_of_true defaults trivial
  | custom settings => exact nodup_getD_iff defaults

end CorsPolicy

/-- Whatever is merged into the policy of a proxy, each of its lists has an item
twice exactly when the list that was configured has one twice. -/
theorem cors_lists_unrepeated_iff (choice : CorsChoice) (verb : Verb)
    (later : List CorsPolicy) :
    let state := later.foldl CorsPolicy.merge (CorsPolicy.ofProxy choice verb)
    (state.origins.Nodup ↔ choice.Unrepeated CorsSettings.origins) ∧
      (state.methods.Nodup ↔ choice.Unrepeated CorsSettings.methods) ∧
      (state.headers.Nodup ↔ choice.Unrepeated CorsSettings.headers) := by
  intro state
  have origins := CorsPolicy.nodup_foldl_merge CorsPolicy.origins
    (fun _ _ => rfl) (CorsPolicy.ofProxy choice verb) later
  have methods := CorsPolicy.nodup_foldl_merge CorsPolicy.methods
    (fun _ _ => rfl) (CorsPolicy.ofProxy choice verb) later
  have headers := CorsPolicy.nodup_foldl_merge CorsPolicy.headers
    (fun _ _ => rfl) (CorsPolicy.ofProxy choice verb) later
  exact ⟨origins.trans (CorsPolicy.nodup_origins_ofProxy choice verb),
    methods.trans (CorsPolicy.nodup_methods_ofProxy choice verb),
    headers.trans (CorsPolicy.nodup_headers_ofProxy choice verb)⟩

/-- A configuration that repeats itself in every list is accepted, and the
path's policy repeats it. -/
theorem repeated_in_preflight :
    let descriptor : Json :=
      .obj [("sns", .obj [("path", "a"), ("method", "get"),
        ("topicName", "topic"),
        ("cors", .obj [("origins", Json.strings ["x", "x"]),
        ("methods", Json.strings ["GET", "GET"]),
        ("headers", Json.strings ["H", "H"])])])]
    ∃ proxies policy, parse [descriptor] = .ok proxies ∧
      Fields.get? (Normalized.ofProxies proxies).preflights "a" = some policy ∧
      ¬ policy.origins.Nodup ∧ ¬ policy.methods.Nodup ∧
      ¬ policy.headers.Nodup := by
  intro descriptor
  let settings : CorsSettings :=
    ⟨none, some ["x", "x"], some ["GET", "GET"], some ["H", "H"],
      false, none, none⟩
  let proxy : ServiceProxy :=
    ⟨⟨"a", .get, some (.custom settings), none, none, none, false,
      none, [], none⟩, .sns ⟨.literal "topic"⟩⟩
  have hparse : parse [descriptor] = .ok [proxy] := by decide
  exact ⟨[proxy], CorsPolicy.ofProxy (.custom settings) .get, hparse,
    by decide, by decide, by decide, by decide⟩

end GatewayStack
