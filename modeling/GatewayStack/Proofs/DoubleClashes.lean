import GatewayStack.Proofs.Conflicts
import Mathlib.Data.List.Count
import Mathlib.Order.Nat

/-!
# How often a position is reported

The errors of a list come in the order of the positions. A descriptor that
is refused on its own is reported once. An accepted one may clash with
others in two ways, over its route and over a preflight, and the walk looks
for each without regard to the other, so there are positions that are
reported twice. They are exactly those that `ClaimsTwice` describes, and
none is reported three times.

Everything here is about the positions of the errors alone. The errors at one
position are those of one step of the walk (`count_index_errorsFrom`), so it is
enough to count what a step finds.
-/

namespace GatewayStack.Schema

variable {descriptors : List Json} {placed : List Placed} {i : Nat}
  {proxy : ServiceProxy}

/-- The descriptor at a position binds `OPTIONS` on a path where an earlier one
does so too and where some descriptor enables a preflight. -/
def ClaimsTwice (descriptors : List Json) (i : Nat) : Prop :=
  ∃ proxy, Accepted descriptors i proxy ∧ proxy.http.verb = .options ∧
    (∃ j < i, ∃ other, Accepted descriptors j other ∧
      other.path = proxy.path ∧ other.http.verb = .options) ∧
    ∃ j other, Accepted descriptors j other ∧ other.http.cors.isSome ∧
      other.path = proxy.path

/-! ## What one step finds -/

theorem isSome_duplicateAt :
    (duplicateAt (placedFrom 0 descriptors) i proxy).isSome ↔
    ∃ j < i, ∃ other, Accepted descriptors j other ∧ other.path = proxy.path ∧
      other.http.verb = proxy.http.verb := by
  rw [Option.isSome_iff_exists]
  simp only [duplicateAt_eq_some]
  refine ⟨fun ⟨_, first, least, _⟩ => ⟨first, least.1⟩, fun earlier => ?_⟩
  classical
  exact ⟨_, _, Nat.isLeast_find earlier, rfl⟩

theorem isSome_preflightAt :
    (preflightAt (placedFrom 0 descriptors) i proxy).isSome ↔
    proxy.http.verb = .options ∧ ∃ j other, Accepted descriptors j other ∧
      other.http.cors.isSome ∧ other.path = proxy.path := by
  rw [Option.isSome_iff_exists]
  simp only [preflightAt_eq_some]
  refine ⟨fun ⟨_, options, enabledBy, least, _⟩ =>
    ⟨options, enabledBy, least.1⟩, fun ⟨options, enabled⟩ => ?_⟩
  classical
  exact ⟨_, options, _, Nat.isLeast_find enabled, rfl⟩

theorem length_toList_le_one {α : Type} (found : Option α) :
    found.toList.length ≤ 1 := by
  cases found <;> simp

theorem length_toList_eq_one_iff {α : Type} {found : Option α} :
    found.toList.length = 1 ↔ found.isSome := by
  cases found <;> simp

/-- One step finds two things at most, and two only where both searches end. -/
theorem length_errorsAt {descriptor : Json}
    (found : descriptors[i]? = some descriptor) :
    let errors := errorsAt (placedFrom 0 descriptors) i descriptor
    errors.length ≤ 2 ∧ (errors.length = 2 ↔ ClaimsTwice descriptors i) := by
  intro errors
  cases hread : readDescriptor descriptor with
  | error violation =>
      have hlength : errors.length = 1 := by
        simp [errors, errorsAt, hread]
      refine ⟨by omega, iff_of_false (by omega) ?_⟩
      rintro ⟨proxy, ⟨other, hother, hok⟩, -⟩
      rw [found] at hother
      rw [← Option.some.inj hother, hread] at hok
      cases hok
  | ok proxy =>
      have accepted : Accepted descriptors i proxy := ⟨descriptor, found, hread⟩
      have hlength : errors.length =
          (duplicateAt (placedFrom 0 descriptors) i proxy).toList.length
            + (preflightAt (placedFrom 0 descriptors) i
              proxy).toList.length := by
        simp [errors, errorsAt, hread]
      have hduplicate :=
        length_toList_le_one (duplicateAt (placedFrom 0 descriptors) i proxy)
      have hpreflight :=
        length_toList_le_one (preflightAt (placedFrom 0 descriptors) i proxy)
      have both : errors.length = 2 ↔
          (duplicateAt (placedFrom 0 descriptors) i proxy).isSome ∧
            (preflightAt (placedFrom 0 descriptors) i proxy).isSome := by
        rw [← length_toList_eq_one_iff, ← length_toList_eq_one_iff]
        omega
      refine ⟨by omega, both.trans ?_⟩
      rw [isSome_duplicateAt, isSome_preflightAt]
      refine ⟨?_, ?_⟩
      · rintro ⟨earlier, options, enabled⟩
        rw [options] at earlier
        exact ⟨proxy, accepted, options, earlier, enabled⟩
      · rintro ⟨other, hother, options, earlier, enabled⟩
        obtain rfl := accepted_unique accepted hother
        rw [options]
        exact ⟨earlier, rfl, enabled⟩

/-! ## The positions of all errors -/

/-- How often the errors of a list name a position. -/
def reports (error : ValidationError) (i : Nat) : Nat :=
  (error.errors.map SchemaError.index).count i

theorem count_index_errorsAt (placed : List Placed) (start i : Nat)
    (descriptor : Json) :
    ((errorsAt placed start descriptor).map SchemaError.index).count i
      = if start = i then (errorsAt placed start descriptor).length else 0 := by
  have hindex : (errorsAt placed start descriptor).map SchemaError.index
      = List.replicate (errorsAt placed start descriptor).length start := by
    rw [← List.map_const']
    exact List.map_congr_left fun _ h => index_of_mem_errorsAt h
  rw [hindex, List.count_replicate]
  simp

/-- The errors at a position are those of one step. -/
theorem count_index_errorsFrom (placed : List Placed) (start k : Nat)
    (descriptors : List Json) :
    ((errorsFrom placed start descriptors).map SchemaError.index).count
        (start + k)
      = (descriptors[k]?.map fun descriptor =>
          (errorsAt placed (start + k) descriptor).length).getD 0 := by
  induction descriptors generalizing start k with
  | nil => rfl
  | cons head rest ih =>
      rw [errorsFrom, List.map_append, List.count_append, count_index_errorsAt]
      cases k with
      | zero =>
          have later : ((errorsFrom placed (start + 1) rest).map
                SchemaError.index).count start
              = 0 := by
            refine List.count_eq_zero.mpr fun h => ?_
            obtain ⟨error, hmem, hindex⟩ := List.mem_map.mp h
            have := le_index_of_mem_errorsFrom hmem
            omega
          simp [later]
      | succ k =>
          rw [if_neg (by omega), Nat.zero_add,
            show start + (k + 1) = start + 1 + k by omega, ih]
          rfl

/-- Positions in order are strictly increasing when none comes twice. -/
theorem pairwise_lt_iff_count_le_one {positions : List Nat}
    (sorted : positions.Pairwise (· ≤ ·)) :
    positions.Pairwise (· < ·) ↔ ∀ i, positions.count i ≤ 1 := by
  rw [← List.nodup_iff_count_le_one]
  refine ⟨fun h => h.imp Nat.ne_of_lt, fun distinct => ?_⟩
  exact sorted.imp₂ (fun _ _ hle hne => Nat.lt_of_le_of_ne hle hne) distinct

theorem count_errors_eq {error : ValidationError}
    (hparse : parse descriptors = .error error) {descriptor : Json}
    (found : descriptors[i]? = some descriptor) :
    reports error i
      = (errorsAt (placedFrom 0 descriptors) i descriptor).length := by
  have hcount := count_index_errorsFrom (placedFrom 0 descriptors)
    0 i descriptors
  rw [Nat.zero_add, found, parse_eq_error_iff.mp hparse] at hcount
  exact hcount

/-- No position is reported three times, and those that are reported twice are
the ones that are claimed twice. -/
theorem reports_le_two {error : ValidationError}
    (hparse : parse descriptors = .error error) (i : Nat) :
    reports error i ≤ 2 ∧ (reports error i = 2 ↔
      ClaimsTwice descriptors i) := by
  cases found : descriptors[i]? with
  | some descriptor =>
      rw [count_errors_eq hparse found]
      exact length_errorsAt found
  | none =>
      have hcount := count_index_errorsFrom (placedFrom 0 descriptors)
        0 i descriptors
      rw [Nat.zero_add, found, parse_eq_error_iff.mp hparse] at hcount
      have hzero : reports error i = 0 := hcount
      refine ⟨by omega, iff_of_false (by omega)
        fun ⟨proxy, ⟨descriptor, hfound, _⟩, _⟩ => ?_⟩
      rw [found] at hfound
      cases hfound

theorem not_claimsTwice_of_parse {proxies : List ServiceProxy}
    (hparse : parse descriptors = .ok proxies) (i : Nat) :
    ¬ ClaimsTwice descriptors i := by
  rintro ⟨proxy, accepted, options, -, enabled⟩
  classical
  exact (parse_eq_ok_iff.mp hparse).1 _
    (.clash (.preflight accepted options (Nat.isLeast_find enabled)))

/-- The positions of the errors are strictly increasing, so that every
descriptor is reported at most once, exactly when none is claimed twice. One
that is claimed twice is reported twice, and no more. -/
theorem positions_increase_iff (descriptors : List Json) :
    ((∀ error, parse descriptors = .error error →
        (error.errors.map SchemaError.index).Pairwise (· < ·)) ↔
      ∀ i, ¬ ClaimsTwice descriptors i) ∧
    ∀ error, parse descriptors = .error error → ∀ i,
      reports error i ≤ 2 ∧ (reports error i = 2 ↔
        ClaimsTwice descriptors i) := by
  refine ⟨?_, fun error hparse i => reports_le_two hparse i⟩
  cases hparse : parse descriptors with
  | ok proxies =>
      exact iff_of_true (fun error h => by cases h)
        (not_claimsTwice_of_parse hparse)
  | error error =>
      have sorted : (error.errors.map SchemaError.index).Pairwise (· ≤ ·) := by
        rw [List.pairwise_map, ← parse_eq_error_iff.mp hparse]
        exact errorsFrom_sorted _ _ _
      refine Iff.trans ⟨fun h => h error rfl, fun h _ heq =>
        Except.error.inj heq ▸ h⟩ ((pairwise_lt_iff_count_le_one sorted).trans
          (forall_congr' fun i => ?_))
      have hreports := reports_le_two hparse i
      rw [← hreports.2]
      show reports error i ≤ 1 ↔ _
      omega

/-- Two proxies for the same path, both bound to `OPTIONS`, and the second
with a preflight. -/
def optionsDescriptors : List Json :=
  [.obj [("sns", .obj [("path", "a"), ("method", "options"),
    ("topicName", "topic")])],
    .obj [("sns", .obj [("path", "a"), ("method", "options"),
      ("topicName", "topic"),
      ("cors", true)])]]

/-- The second of them is reported as the second on its route and for
its preflight. -/
theorem reported_twice : ∃ error, parse optionsDescriptors = .error error ∧
    error.errors.map SchemaError.index = [0, 1, 1] ∧
    ¬ (error.errors.map SchemaError.index).Pairwise (· < ·) := by
  refine ⟨⟨⟨0, some .sns, ["method"], .preflightConflict 1 "a"⟩,
    [⟨1, some .sns, ["method"], .duplicateRoute 0 "a" .options⟩,
      ⟨1, some .sns, ["cors"], .preflightConflict 1 "a"⟩]⟩,
      by decide, by decide, by decide⟩

end GatewayStack.Schema
