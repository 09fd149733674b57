import GatewayStack.Proofs.AlphanumericIds

/-!
# When two ids clash

An id is a few texts in a row with nothing between them, so one id could in
principle be put together in two ways. It cannot, and for three reasons. The
kind is read off the front, since no word of a kind begins another but for the
usage plan, which has nothing behind its word (`OfKind.unique`). A number or a
token is all that stands behind the word. And a verb is read off the end,
whatever the fragment of the path in front of it ends in (`method_eq_iff`).

What is left is the fragment itself. Two ids that are made from different things
are equal only if they are made from two paths with the same fragment
(`ids_clash_by_fragment`). All that can be said of a fragment is which texts it
may be: letters and digits, with no small letter in front.
-/

namespace GatewayStack.LogicalId

theorem deployment_injective : Function.Injective deployment := fun _ _ h =>
  (String.append_right_inj _).mp h

/-! ## The front of a fragment -/

theorem head?_upperFirst (text : List Char) :
    (Text.upperFirst text).head? = text.head?.map Char.toUpper := by
  cases text <;> rfl

theorem not_isLower_toUpper {c : Char} (ascii : c.toNat < 128) :
    ¬ c.toUpper.isLower :=
  forall_ascii (fun c => ¬ c.toUpper.isLower) (by decide) ascii

theorem not_isLower_head_segmentChars {segment : List Char} {c : Char}
    (h : (segmentChars segment).head? = some c) : ¬ c.isLower := by
  rw [segmentChars, head?_upperFirst] at h
  obtain ⟨first, hfirst, rfl⟩ := Option.map_eq_some_iff.mp h
  have kept := (List.mem_filter.mp (List.mem_of_mem_head? hfirst)).2
  exact not_isLower_toUpper (of_decide_eq_true (Bool.and_eq_true_iff.mp kept).1)

/-- A fragment begins with the first segment that leaves something. -/
theorem not_isLower_head_path {text : String} {c : Char}
    (h : (path text).toList.head? = some c) : ¬ c.isLower := by
  rw [path, String.toList_ofList, pathChars, List.head?_flatMap] at h
  obtain ⟨segment, -, hsegment⟩ := List.exists_of_findSome?_eq_some h
  exact not_isLower_head_segmentChars hsegment

/-! ## When two ids are equal -/

/-- Methods have the same id when they have the same verb and the fragments of
their paths are the same, resources when the fragments are. Keys, bindings,
deployments and roles with the same id are the same, and no id is of two
kinds. A fragment is made of letters and digits and does not begin with a
small letter. -/
theorem ids_clash_by_fragment :
    (∀ p q m n, method p m = method q n ↔ m = n ∧ path p = path q) ∧
    (∀ p q, resource p = resource q ↔ path p = path q) ∧
    Function.Injective apiKey ∧ Function.Injective usagePlanKey ∧
    Function.Injective deployment ∧ Function.Injective role ∧
    (∀ kind other id, OfKind kind id → OfKind other id → kind = other) ∧
    ∀ text, Alphanumeric (path text).toList ∧
      ∀ c, (path text).toList.head? = some c → ¬ c.isLower := by
  refine ⟨fun p q m n => ?_, fun _ _ => resource_eq_iff, apiKey_injective,
    usagePlanKey_injective, deployment_injective, fun _ _ => role_injective,
    fun _ _ _ => OfKind.unique, fun text => ?_⟩
  · rw [method_eq_iff, and_comm]
  · exact ⟨alphanumeric_path text, fun _ => not_isLower_head_path⟩

/-- Paths that differ in case clash. The key of a plan does not clash with the
plan, although the one id begins with the other. -/
theorem ids_clash_a_A :
    method "a" .get = method "A" .get ∧ method "a" .get ≠ method "a" .put ∧
      OfKind .usagePlanKey (usagePlanKey 1) ∧
      ¬ OfKind .usagePlan (usagePlanKey 1) := by
  obtain ⟨methods, -, -, -, -, -, kinds, -⟩ := ids_clash_by_fragment
  refine ⟨(methods _ _ _ _).mpr ⟨rfl, by decide⟩, fun same => ?_,
    .usagePlanKey 1, fun plan => ?_⟩
  · exact absurd ((methods _ _ _ _).mp same).1 (by decide)
  · exact absurd (kinds _ _ _ plan (.usagePlanKey 1)) (by decide)

end GatewayStack.LogicalId
