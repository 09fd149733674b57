import GatewayStack.Schema.Parse
import Mathlib.Logic.Basic

/-!
# The two passes over the accepted proxies

Reading a list gathers the errors in three groups, those of the descriptors by
themselves and those of the two passes, and sorts them by position. Here they
are put down once more, one position after the other: at each position what is
wrong with the descriptor, or else the route that it shares with an earlier one
and the preflight whose verb it claims (`errorsAt`). Sorting the groups comes to
just that (`check_eq`), since each group is in the order of the positions and
the sort keeps the order of the groups where positions are equal.

What the passes look up in their notes is searched for in the whole list here.
The first pass has noted only the proxies in front, but the first proxy on a
route is found by either of the two, unless it is the proxy itself.
-/

namespace GatewayStack.Schema

/-! ## Position by position -/

/-- The accepted proxies of a list, with their positions from some start. -/
def placedFrom (start : Nat) : List Json → List Placed
  | [] => []
  | descriptor :: rest =>
    match readDescriptor descriptor with
    | .ok proxy => (start, proxy) :: placedFrom (start + 1) rest
    | .error _ => placedFrom (start + 1) rest

/-- Whether two proxies claim the same path and verb. -/
def sameRoute (a b : ServiceProxy) : Bool :=
  a.path = b.path && a.http.verb = b.http.verb

/-- The route of a proxy is claimed by an earlier one already. -/
def duplicateAt (placed : List Placed) (index : Nat) (proxy : ServiceProxy) :
    Option SchemaError :=
  match placed.find? fun other => sameRoute other.2 proxy with
  | some (first, _) =>
    if first < index then
      some ⟨index, some proxy.service, ["method"],
        .duplicateRoute first proxy.path proxy.http.verb⟩
    else none
  | none => none

/-- A proxy claims the verb of a preflight that it or another one enables. -/
def preflightAt (placed : List Placed) (index : Nat) (proxy : ServiceProxy) :
    Option SchemaError :=
  if proxy.http.verb = .options then
    match placed.find? fun other => other.2.http.cors.isSome &&
        other.2.path = proxy.path with
    | some (enabledBy, _) =>
      let field := if enabledBy = index then "cors" else "method"
      some ⟨index, some proxy.service, [field],
        .preflightConflict enabledBy proxy.path⟩
    | none => none
  else none

/-- What is wrong at one position: the violation of the descriptor itself, or
the routes it shares with others. -/
def errorsAt (placed : List Placed) (index : Nat) (descriptor : Json) :
    List SchemaError :=
  match readDescriptor descriptor with
  | .error violation => [⟨index, violation⟩]
  | .ok proxy =>
    (duplicateAt placed index proxy).toList ++
      (preflightAt placed index proxy).toList

/-- What is wrong at every position from some start. -/
def errorsFrom (placed : List Placed) (start : Nat) :
    List Json → List SchemaError
  | [] => []
  | descriptor :: rest => errorsAt placed start descriptor ++
    errorsFrom placed (start + 1) rest

theorem sameRoute_iff {a b : ServiceProxy} :
    sameRoute a b = true ↔ a.path = b.path ∧ a.http.verb = b.http.verb := by
  simp [sameRoute]

/-! ### The positions of errors -/

theorem eq_of_duplicateAt {placed : List Placed} {i : Nat}
    {proxy : ServiceProxy} {error : SchemaError}
    (h : duplicateAt placed i proxy = some error) :
    ∃ first, error = ⟨i, some proxy.service, ["method"],
      .duplicateRoute first proxy.path proxy.http.verb⟩ := by
  unfold duplicateAt at h
  split at h
  · next first _ _ =>
      split at h
      · exact ⟨first, (Option.some.inj h).symm⟩
      · cases h
  · cases h

theorem eq_of_preflightAt {placed : List Placed} {i : Nat}
    {proxy : ServiceProxy} {error : SchemaError}
    (h : preflightAt placed i proxy = some error) :
    ∃ enabledBy, error = ⟨i, some proxy.service,
      [if enabledBy = i then "cors" else "method"],
      .preflightConflict enabledBy proxy.path⟩ := by
  unfold preflightAt at h
  split at h
  · split at h
    · next enabledBy _ _ => exact ⟨enabledBy, (Option.some.inj h).symm⟩
    · cases h
  · cases h

theorem index_of_mem_duplicateAt {placed : List Placed} {i : Nat}
    {proxy : ServiceProxy} {error : SchemaError}
    (h : error ∈ (duplicateAt placed i proxy).toList) : error.index = i := by
  obtain ⟨first, rfl⟩ := eq_of_duplicateAt (Option.mem_toList.mp h)
  rfl

theorem index_of_mem_preflightAt {placed : List Placed} {i : Nat}
    {proxy : ServiceProxy} {error : SchemaError}
    (h : error ∈ (preflightAt placed i proxy).toList) : error.index = i := by
  obtain ⟨enabledBy, rfl⟩ := eq_of_preflightAt (Option.mem_toList.mp h)
  rfl

theorem index_of_mem_errorsAt {placed : List Placed} {i : Nat}
    {descriptor : Json} {error : SchemaError}
    (h : error ∈ errorsAt placed i descriptor) : error.index = i := by
  unfold errorsAt at h
  split at h
  · rw [List.mem_singleton.mp h]
  · exact (List.mem_append.mp h).elim index_of_mem_duplicateAt
      index_of_mem_preflightAt

theorem le_index_of_mem_errorsFrom {placed : List Placed} {start : Nat}
    {descriptors : List Json} {error : SchemaError}
    (h : error ∈ errorsFrom placed start descriptors) :
    start ≤ error.index := by
  induction descriptors generalizing start with
  | nil => cases h
  | cons head rest ih =>
      rcases List.mem_append.mp h with h | h
      · exact Nat.le_of_eq (index_of_mem_errorsAt h).symm
      · exact Nat.le_of_succ_le (ih h)

theorem errorsFrom_sorted (placed : List Placed) (start : Nat)
    (descriptors : List Json) :
    StableSort.Sorted SchemaError.index
      (errorsFrom placed start descriptors) := by
  induction descriptors generalizing start with
  | nil => exact List.Pairwise.nil
  | cons head rest ih =>
      refine List.pairwise_append.mpr ⟨?_, ih (start + 1), fun a ha b hb => ?_⟩
      · refine List.pairwise_of_forall_mem_list fun a ha b hb => ?_
        exact Nat.le_of_eq ((index_of_mem_errorsAt ha).trans
          (index_of_mem_errorsAt hb).symm)
      · rw [index_of_mem_errorsAt ha]
        exact Nat.le_of_succ_le (le_index_of_mem_errorsFrom hb)

theorem le_of_mem_placedFrom {start : Nat} {descriptors : List Json}
    {placed : Placed} (h : placed ∈ placedFrom start descriptors) :
    start ≤ placed.1 := by
  induction descriptors generalizing start with
  | nil => cases h
  | cons head rest ih =>
      rw [placedFrom] at h
      split at h
      · rcases List.mem_cons.mp h with rfl | h
        · exact Nat.le_refl _
        · exact Nat.le_of_succ_le (ih h)
      · exact Nat.le_of_succ_le (ih h)

theorem placedFrom_sorted (start : Nat) (descriptors : List Json) :
    (placedFrom start descriptors).Pairwise (fun a b => a.1 < b.1) := by
  induction descriptors generalizing start with
  | nil => exact List.Pairwise.nil
  | cons descriptor rest ih =>
      rw [placedFrom]
      split
      · exact List.Pairwise.cons (fun later hmem => le_of_mem_placedFrom hmem)
          (ih (start + 1))
      · exact ih (start + 1)

/-! ## What the passes note -/

theorem Positions.lookup_note {κ : Type} [BEq κ] [LawfulBEq κ]
    (positions : Positions κ) (key other : κ) (index : Nat) :
    (positions.note key index).lookup other
      = (positions.lookup other).or (if other == key then some index
        else none) := by
  unfold note
  split
  · next first hfirst =>
      by_cases h : other = key
      · rw [h, hfirst, Option.some_or]
      · rw [if_neg (by simpa using h), Option.or_none]
  · next fresh =>
      rw [List.lookup_cons]
      by_cases h : other = key
      · simp [h, fresh]
      · simp [beq_false_of_ne h]

namespace Noted

/-- What is noted about some proxies is what a search through them finds
first. -/
structure Holds (noted : Noted) (placed : List Placed) : Prop where
  routes : ∀ proxy : ServiceProxy,
    noted.routes.lookup (proxy.path, proxy.http.verb)
      = (placed.find? fun other => sameRoute other.2 proxy).map Prod.fst
  preflights : ∀ path, noted.preflights.lookup path
    = (placed.find? fun other => other.2.http.cors.isSome &&
      other.2.path = path).map Prod.fst

theorem holds_none : Holds none [] := ⟨fun _ => rfl, fun _ => rfl⟩

variable {noted : Noted} {before placed : List Placed}

theorem Holds.add (h : noted.Holds placed) (index : Nat)
    (proxy : ServiceProxy) :
    (noted.add index proxy).Holds (placed ++ [(index, proxy)]) where
  routes other := by
    have same : ((other.path, other.http.verb) == (proxy.path, proxy.http.verb))
        = sameRoute proxy other := by
      rw [Bool.eq_iff_iff, beq_iff_eq, sameRoute_iff, Prod.mk.injEq, eq_comm,
        @eq_comm _ other.http.verb]
    show (noted.routes.note _ _).lookup _ = _
    rw [Positions.lookup_note, h.routes, List.find?_append, Option.map_or,
      List.find?_singleton, same]
    cases sameRoute proxy other <;> rfl
  preflights path := by
    rw [List.find?_append, Option.map_or, ← h.preflights, List.find?_singleton]
    unfold Noted.add
    by_cases enabled : proxy.http.cors.isSome
    · simp only [enabled, if_true, Positions.lookup_note, Bool.true_and]
      rcases eq_or_ne path proxy.path with rfl | other
      · simp
      · simp [other, other.symm]
    · simp [enabled]

/-- The first pass has noted the proxies in front of one. Behind it nothing is
on its route first. -/
theorem Holds.duplicate? {i : Nat} {proxy : ServiceProxy} {rest : List Placed}
    (h : noted.Holds before)
    (sorted : (before ++ (i, proxy) :: rest).Pairwise (fun a b => a.1 < b.1)) :
    noted.duplicate? i proxy
      = duplicateAt (before ++ (i, proxy) :: rest) i proxy := by
  unfold Noted.duplicate? duplicateAt
  rw [h.routes, List.find?_append]
  cases hfind : before.find? fun other => sameRoute other.2 proxy with
  | none =>
      have own : sameRoute proxy proxy = true := sameRoute_iff.mpr ⟨rfl, rfl⟩
      simp [own]
  | some found =>
      obtain ⟨first, other⟩ := found
      have earlier : first < i := (List.pairwise_append.mp sorted).2.2 _
        (List.mem_of_find?_eq_some hfind) _ List.mem_cons_self
      simp [earlier]

theorem Holds.conflict? (h : noted.Holds placed) (i : Nat)
    (proxy : ServiceProxy) :
    noted.conflict? i proxy = preflightAt placed i proxy := by
  unfold Noted.conflict? preflightAt
  rw [h.preflights]
  cases placed.find? fun other => other.2.http.cors.isSome &&
    other.2.path = proxy.path <;> rfl

end Noted

/-! ## The two passes -/

/-- The routes that some accepted proxies share with earlier ones of a list. -/
def duplicates (placed accepted : List Placed) : List SchemaError :=
  accepted.flatMap fun (index, proxy) => (duplicateAt placed index proxy).toList

/-- Those of some accepted proxies that claim the verb of a preflight of a
list. -/
def conflicts (placed accepted : List Placed) : List SchemaError :=
  accepted.flatMap fun (index, proxy) => (preflightAt placed index proxy).toList

theorem firstPass_eq {noted : Noted} {before rest : List Placed}
    (h : noted.Holds before)
    (sorted : (before ++ rest).Pairwise (fun a b => a.1 < b.1)) :
    (firstPass noted rest).1 = duplicates (before ++ rest) rest ∧
      (firstPass noted rest).2.Holds (before ++ rest) := by
  induction rest generalizing noted before with
  | nil => exact ⟨rfl, (List.append_nil before).symm ▸ h⟩
  | cons first rest ih =>
      obtain ⟨index, proxy⟩ := first
      have duplicate := h.duplicate? sorted
      rw [List.append_cons] at sorted duplicate ⊢
      obtain ⟨errors, all⟩ := ih (h.add index proxy) sorted
      exact ⟨congrArg₂ (fun error more => Option.toList error ++ more)
        duplicate errors, all⟩

theorem secondPass_eq {noted : Noted} {placed : List Placed}
    (h : noted.Holds placed) (rest : List Placed) :
    secondPass noted rest = conflicts placed rest := by
  induction rest with
  | nil => rfl
  | cons first rest ih =>
      obtain ⟨index, proxy⟩ := first
      exact congrArg₂ (fun error more => Option.toList error ++ more)
        (h.conflict? index proxy) ih

theorem routeConflicts_eq {placed : List Placed}
    (sorted : placed.Pairwise (fun a b => a.1 < b.1)) :
    routeConflicts placed = duplicates placed placed ++
      conflicts placed placed := by
  obtain ⟨errors, all⟩ := firstPass_eq Noted.holds_none sorted
  exact congrArg₂ (· ++ ·) errors (secondPass_eq all placed)

/-! ## The errors in order -/

theorem readFrom_fst (start : Nat) (descriptors : List Json) :
    (readFrom start descriptors).1 = placedFrom start descriptors := by
  induction descriptors generalizing start with
  | nil => rfl
  | cons descriptor rest ih =>
      rw [readFrom, placedFrom, ← ih]
      cases readDescriptor descriptor <;> rfl

theorem le_index_of_mem_rejected {start : Nat} {descriptors : List Json}
    {error : SchemaError} (h : error ∈ (readFrom start descriptors).2) :
    start ≤ error.index := by
  induction descriptors generalizing start with
  | nil => cases h
  | cons descriptor rest ih =>
      rw [readFrom] at h
      cases hread : readDescriptor descriptor with
      | ok proxy =>
          rw [hread] at h
          exact Nat.le_of_succ_le (ih h)
      | error violation =>
          rw [hread] at h
          rcases List.mem_cons.mp h with rfl | h
          · exact Nat.le_refl _
          · exact Nat.le_of_succ_le (ih h)

open StableSort (having)

/-- What is found at later proxies is not at this position. -/
theorem having_flatMap_eq_nil {found : Placed → List SchemaError}
    (index : ∀ place, ∀ error ∈ found place, error.index = place.1)
    {k start : Nat} (before : k < start) (descriptors : List Json) :
    having SchemaError.index k ((placedFrom start descriptors).flatMap found)
      = [] := by
  refine StableSort.having_eq_nil_of_lt fun error herror => ?_
  obtain ⟨place, hmem, herror⟩ := List.mem_flatMap.mp herror
  rw [index place error herror]
  exact Nat.lt_of_lt_of_le before (le_of_mem_placedFrom hmem)

theorem having_duplicates_eq_nil (placed : List Placed) {k start : Nat}
    (before : k < start) (descriptors : List Json) :
    having SchemaError.index k (duplicates placed
      (placedFrom start descriptors)) = [] :=
  having_flatMap_eq_nil (fun _ _ => index_of_mem_duplicateAt) before descriptors

theorem having_conflicts_eq_nil (placed : List Placed) {k start : Nat}
    (before : k < start) (descriptors : List Json) :
    having SchemaError.index k (conflicts placed (placedFrom start descriptors))
      = [] :=
  having_flatMap_eq_nil (fun _ _ => index_of_mem_preflightAt) before descriptors

theorem having_eq_nil_of_ne {found : List SchemaError} {i k : Nat} (h : i ≠ k)
    (index : ∀ error ∈ found, error.index = i) :
    having SchemaError.index k found = [] := by
  refine List.eq_nil_iff_forall_not_mem.mpr fun error herror => ?_
  obtain ⟨hmem, hk⟩ := StableSort.mem_having.mp herror
  exact h ((index error hmem).symm.trans hk)

/-- At every position the groups come to what is wrong there. -/
theorem having_groups (placed : List Placed) (start k : Nat)
    (descriptors : List Json) :
    having SchemaError.index k (errorsFrom placed start descriptors)
      = having SchemaError.index k (readFrom start descriptors).2 ++
          (having SchemaError.index k
            (duplicates placed (placedFrom start descriptors)) ++ having
            SchemaError.index k
            (conflicts placed (placedFrom start descriptors))) := by
  induction descriptors generalizing start with
  | nil => rfl
  | cons descriptor rest ih =>
      rw [errorsFrom, StableSort.having_append, ih, errorsAt,
        readFrom, placedFrom]
      cases readDescriptor descriptor with
      | error violation =>
          show _ = having SchemaError.index k ([⟨start, violation⟩] ++ _) ++ _
          rw [StableSort.having_append, List.append_assoc]
      | ok proxy =>
          show having _ k (_ ++ _) ++ _ = _ ++
            (having _ k (_ ++ duplicates _ _) ++
            having _ k (_ ++ conflicts _ _))
          simp only [StableSort.having_append]
          by_cases hk : start = k
          · -- everything that is found behind is at a later position
            have later : k < start + 1 := hk ▸ Nat.lt_succ_self start
            have noRejected :
                having SchemaError.index k (readFrom (start + 1) rest).2 = [] :=
              StableSort.having_eq_nil_of_lt fun error herror =>
                Nat.lt_of_lt_of_le later (le_index_of_mem_rejected herror)
            rw [noRejected, having_duplicates_eq_nil placed later,
              having_conflicts_eq_nil placed later]
            simp
          · have noDuplicate :
                having SchemaError.index k
                  (duplicateAt placed start proxy).toList = [] :=
              having_eq_nil_of_ne hk fun _ => index_of_mem_duplicateAt
            have noConflict :
                having SchemaError.index k
                  (preflightAt placed start proxy).toList = [] :=
              having_eq_nil_of_ne hk fun _ => index_of_mem_preflightAt
            rw [noDuplicate, noConflict]
            rfl

/-- Sorting the groups by position puts down what is wrong one position
after the other. -/
theorem check_eq (descriptors : List Json) :
    check descriptors = (placedFrom 0 descriptors,
      errorsFrom (placedFrom 0 descriptors) 0 descriptors) := by
  have sorts : StableSort.sort SchemaError.index
      ((readFrom 0 descriptors).2 ++ routeConflicts (readFrom 0 descriptors).1)
        = errorsFrom (placedFrom 0 descriptors) 0 descriptors := by
    refine StableSort.sort_eq (errorsFrom_sorted _ _ _) fun k => ?_
    rw [readFrom_fst, routeConflicts_eq (placedFrom_sorted 0 descriptors),
      StableSort.having_append, StableSort.having_append]
    exact having_groups _ _ _ _
  exact Prod.ext (readFrom_fst 0 descriptors) sorts

theorem parse_eq (descriptors : List Json) :
    parse descriptors
      = match errorsFrom (placedFrom 0 descriptors) 0 descriptors with
      | [] => .ok ((placedFrom 0 descriptors).map Prod.snd)
      | first :: others => .error ⟨first, others⟩ := by
  unfold parse
  rw [check_eq]
  cases errorsFrom (placedFrom 0 descriptors) 0 descriptors <;> rfl

end GatewayStack.Schema
