import GatewayStack.Proofs.Passes
import GatewayStack.Proofs.Path
import Mathlib.Data.List.Forall2
import Mathlib.Data.List.Nodup
import Mathlib.Order.Bounds.Basic

/-!
# What is wrong with a list of descriptors

The two passes of `parse` come to a walk that looks at every position once,
against the accepted proxies of the whole list (`check_eq`). This file says what
comes out without mentioning the walk: `Faulty` has one case for a descriptor
that fails by itself, one for a route that an earlier accepted descriptor claims
and one for the verb of a preflight, and the errors of a list are exactly the
faulty ones.

The two conflicts name another descriptor by its position, and always by the
least one that fits. In the walk that is the first hit of a search, so the one
fact behind both is that the accepted proxies stand in the order of their
positions (`placedFrom_sorted`): the first hit of a search through a sorted list
is the least hit. Positions are those of the whole list, rejected descriptors
counted, because `placedFrom` moves on past a descriptor it leaves out.
-/

namespace GatewayStack.Schema

/-- The descriptor at a position is accepted on its own. -/
def Accepted (descriptors : List Json) (i : Nat)
    (proxy : ServiceProxy) : Prop :=
  ∃ descriptor, descriptors[i]? = some descriptor ∧
    readDescriptor descriptor = .ok proxy

/-- Two accepted proxies clash: the one at `i` claims a route that an earlier
one claims, or it claims the verb that a preflight on its path needs. The other
side is the least position that fits. -/
inductive Clash (descriptors : List Json) : SchemaError → Prop
  | duplicate {i first : Nat} {proxy : ServiceProxy}
      (accepted : Accepted descriptors i proxy)
      (least : IsLeast {j | j < i ∧ ∃ other, Accepted descriptors j other ∧
        other.path = proxy.path ∧ other.http.verb = proxy.http.verb} first) :
      Clash descriptors ⟨i, some proxy.service, ["method"],
        .duplicateRoute first proxy.path proxy.http.verb⟩
  | preflight {i enabledBy : Nat} {proxy : ServiceProxy}
      (accepted : Accepted descriptors i proxy)
      (options : proxy.http.verb = .options)
      (least : IsLeast {j | ∃ other, Accepted descriptors j other ∧
        other.http.cors.isSome ∧ other.path = proxy.path} enabledBy) :
      Clash descriptors ⟨i, some proxy.service,
        [if enabledBy = i then "cors" else "method"],
        .preflightConflict enabledBy proxy.path⟩

/-- The path by which proxies clash is the configured one without a slash in
front and one behind, where it has them. -/
theorem exists_append_path (proxy : ServiceProxy) :
    ∃ front back, proxy.http.path = front ++ proxy.path ++ back ∧
      (front = "/" ∨ front = "" ∧ proxy.http.path.toList.head? ≠ some '/') ∧
      (back = "/" ∨ back = "" ∧ proxy.path.toList.getLast? ≠ some '/') :=
  Path.exists_append_strip proxy.http.path

/-- Every descriptor is accepted on its own, and no two of them clash. -/
def Sound (descriptors : List Json) : Prop :=
  (∀ descriptor ∈ descriptors, ∃ proxy, readDescriptor descriptor = .ok proxy) ∧
    ∀ error, ¬ Clash descriptors error

/-- Everything that may be wrong with a list: a descriptor on its own, or two
accepted ones that clash. -/
inductive Faulty (descriptors : List Json) : SchemaError → Prop
  | rejected {i : Nat} {descriptor : Json} {violation : Violation}
      (found : descriptors[i]? = some descriptor)
      (refused : readDescriptor descriptor = .error violation) :
      Faulty descriptors ⟨i, violation⟩
  | clash {error : SchemaError} (clash : Clash descriptors error) :
    Faulty descriptors error

/-! ## The accepted proxies, in the order of their positions -/

theorem mem_placedFrom {start i : Nat} {proxy : ServiceProxy}
    {descriptors : List Json} :
    (i, proxy) ∈ placedFrom start descriptors ↔
      ∃ k, i = start + k ∧ Accepted descriptors k proxy := by
  induction descriptors generalizing start with
  | nil => simp [placedFrom, Accepted]
  | cons descriptor rest ih =>
      have step : (∃ k, i = start + k ∧ Accepted (descriptor :: rest) k proxy) ↔
          (i = start ∧ readDescriptor descriptor = .ok proxy) ∨
            ∃ k, i = start + 1 + k ∧ Accepted rest k proxy := by
        constructor
        · rintro ⟨k, hi, found, hk, hread⟩
          cases k with
          | zero =>
              obtain rfl : descriptor = found := by simpa using hk
              exact Or.inl ⟨hi, hread⟩
          | succ k => exact Or.inr ⟨k,
            by omega, found, by simpa using hk, hread⟩
        · rintro (⟨hi, hread⟩ | ⟨k, hi, found, hk, hread⟩)
          · exact ⟨0, hi, descriptor, rfl, hread⟩
          · exact ⟨k + 1, by omega, found, by simpa using hk, hread⟩
      rw [step]
      cases hread : readDescriptor descriptor with
      | error violation => simp [placedFrom, hread, ih]
      | ok read => simp [placedFrom, hread, ih, eq_comm]

theorem mem_placed {i : Nat} {proxy : ServiceProxy} {descriptors : List Json} :
    (i, proxy) ∈ placedFrom 0 descriptors ↔ Accepted descriptors i proxy := by
  rw [mem_placedFrom]
  refine ⟨fun ⟨k, hi, h⟩ => ?_, fun h => ⟨i, (Nat.zero_add i).symm, h⟩⟩
  rw [Nat.zero_add] at hi
  rw [hi]
  exact h

/-- The first hit in a sorted list is the least hit. -/
theorem find?_eq_some_iff_least {α : Type} {P : Nat × α → Bool}
    {found : Nat × α} :
    ∀ {items : List (Nat × α)}, items.Pairwise (fun a b => a.1 < b.1) →
      (items.find? P = some found ↔
        found ∈ items ∧ P found ∧ ∀ other ∈ items, P other →
          found.1 ≤ other.1) := by
  intro items
  induction items with
  | nil => simp
  | cons item rest ih =>
      intro sorted
      obtain ⟨below, sorted⟩ := List.pairwise_cons.mp sorted
      by_cases hit : P item = true
      · rw [List.find?_cons_of_pos hit]
        refine ⟨fun h => ?_, fun ⟨hmem, _, least⟩ => ?_⟩
        · obtain rfl := Option.some.inj h
          refine ⟨List.mem_cons_self, hit, fun other hmem _ => ?_⟩
          rcases List.mem_cons.mp hmem with rfl | hmem
          · exact Nat.le_refl _
          · exact Nat.le_of_lt (below other hmem)
        · rcases List.mem_cons.mp hmem with rfl | hmem
          · rfl
          · have := below found hmem
            have := least item List.mem_cons_self hit
            omega
      · rw [List.find?_cons_of_neg hit, ih sorted]
        refine ⟨fun ⟨hmem, hfound, least⟩ => ?_,
          fun ⟨hmem, hfound, least⟩ => ?_⟩
        · refine ⟨List.mem_cons_of_mem _ hmem, hfound,
            fun other hother hp => ?_⟩
          rcases List.mem_cons.mp hother with rfl | hother
          · exact absurd hp hit
          · exact least other hother hp
        · rcases List.mem_cons.mp hmem with rfl | hmem
          · exact absurd hfound hit
          · exact ⟨hmem, hfound, fun other hother hp =>
              least other (List.mem_cons_of_mem _ hother) hp⟩

/-- A search among the accepted proxies ends at the least position whose proxy
fits. -/
theorem find?_placed {descriptors : List Json}
    {fits : ServiceProxy → Bool} {i : Nat} {proxy : ServiceProxy} :
    (placedFrom 0 descriptors).find? (fun other => fits other.2)
      = some (i, proxy) ↔
      Accepted descriptors i proxy ∧ fits proxy ∧
        ∀ j other, Accepted descriptors j other → fits other → i ≤ j := by
  rw [find?_eq_some_iff_least (placedFrom_sorted 0 descriptors), mem_placed]
  simp only [Prod.forall, mem_placed]

/-- The same, for the position alone. -/
theorem find?_placed_isLeast {descriptors : List Json}
    (fits : ServiceProxy → Bool) {i : Nat} :
    (∃ proxy, (placedFrom 0 descriptors).find? (fun other => fits other.2)
      = some (i, proxy)) ↔
      IsLeast {j | ∃ other, Accepted descriptors j other ∧ fits other} i := by
  simp only [find?_placed]
  refine ⟨fun ⟨proxy, accepted, hfits, least⟩ => ?_,
    fun ⟨⟨proxy, accepted, hfits⟩, least⟩ => ?_⟩
  · exact ⟨⟨proxy, accepted, hfits⟩, fun j ⟨other, hother, hfits⟩ =>
      least j other hother hfits⟩
  · exact ⟨proxy, accepted, hfits, fun j other hother hfits =>
      least ⟨other, hother, hfits⟩⟩

/-! ## The two conflicts -/

/-- The least position that fits, asked for among the earlier ones only. -/
theorem isLeast_below_iff {S : Set Nat} {first i k : Nat}
    (least : IsLeast S first) :
    IsLeast {j | j < i ∧ j ∈ S} k ↔ k = first ∧ first < i := by
  refine ⟨fun ⟨⟨hlt, hmem⟩, lower⟩ => ?_, fun ⟨hk, hlt⟩ => ?_⟩
  · have hle := least.2 hmem
    have : k ≤ first := lower ⟨by omega, least.1⟩
    exact ⟨by omega, by omega⟩
  · rw [hk]
    exact ⟨⟨hlt, least.1⟩, fun j hj => least.2 hj.2⟩

theorem duplicateAt_eq_some {descriptors : List Json} {i : Nat}
    {proxy : ServiceProxy} {error : SchemaError} :
    duplicateAt (placedFrom 0 descriptors) i proxy = some error ↔
      ∃ first, IsLeast {j | j < i ∧ ∃ other, Accepted descriptors j other ∧
          other.path = proxy.path ∧ other.http.verb = proxy.http.verb} first ∧
        error = ⟨i, some proxy.service, ["method"],
          .duplicateRoute first proxy.path proxy.http.verb⟩ := by
  simp only [← sameRoute_iff]
  unfold duplicateAt
  split
  · next first other hfind =>
      have least := (find?_placed_isLeast fun other => sameRoute other proxy).mp
        ⟨other, hfind⟩
      have below : ∀ k, IsLeast {j | j < i ∧ ∃ other,
          Accepted descriptors j other ∧
          sameRoute other proxy = true} k ↔ k = first ∧ first < i :=
        fun k => isLeast_below_iff least
      simp only [below]
      split
      · next hlt => simp [hlt, eq_comm]
      · next hlt => simp [hlt]
  · next hfind =>
      refine ⟨fun h => ?_,
        fun ⟨first, ⟨⟨_, other, accepted, hroute⟩, _⟩, _⟩ => ?_⟩
      · cases h
      · have := List.find?_eq_none.mp hfind (first, other)
          (mem_placed.mpr accepted)
        exact absurd hroute this

theorem preflightAt_eq_some {descriptors : List Json} {i : Nat}
    {proxy : ServiceProxy} {error : SchemaError} :
    preflightAt (placedFrom 0 descriptors) i proxy = some error ↔
      proxy.http.verb = .options ∧
        ∃ enabledBy, IsLeast {j | ∃ other, Accepted descriptors j other ∧
            other.http.cors.isSome ∧ other.path = proxy.path} enabledBy ∧
          error = ⟨i, some proxy.service,
            [if enabledBy = i then "cors" else "method"],
            .preflightConflict enabledBy proxy.path⟩ := by
  have fits : ∀ other : ServiceProxy,
      (other.http.cors.isSome ∧ other.path = proxy.path) ↔
        (other.http.cors.isSome && decide (other.path = proxy.path))
          = true := by
    intro other
    rw [Bool.and_eq_true, decide_eq_true_eq]
  simp only [fits]
  unfold preflightAt
  by_cases hverb : proxy.http.verb = .options
  · rw [if_pos hverb]
    split
    · next enabledBy other hfind =>
        have least := (find?_placed_isLeast fun other =>
          other.http.cors.isSome && decide (other.path = proxy.path)).mp ⟨other,
          hfind⟩
        refine ⟨fun h => ?_, fun ⟨_, k, hk, herror⟩ => ?_⟩
        · exact ⟨hverb, enabledBy, least, (Option.some.inj h).symm⟩
        · rw [herror, hk.unique least]
    · next hfind =>
        refine ⟨fun h => ?_, fun ⟨_, k, ⟨⟨other, accepted, hfits⟩, _⟩, _⟩ => ?_⟩
        · cases h
        · have := List.find?_eq_none.mp hfind (k, other)
            (mem_placed.mpr accepted)
          exact absurd hfits this
  · rw [if_neg hverb]
    simp [hverb]

/-! ## The errors at every position -/

theorem accepted_unique {descriptors : List Json} {i : Nat} {a b : ServiceProxy}
    (ha : Accepted descriptors i a) (hb : Accepted descriptors i b) :
    a = b := by
  obtain ⟨d, hd, hreadA⟩ := ha
  obtain ⟨e, he, hreadB⟩ := hb
  rw [hd] at he
  obtain rfl := Option.some.inj he
  rw [hreadA] at hreadB
  exact Except.ok.inj hreadB

/-- What the walk finds at one position is what is faulty there. -/
theorem mem_errorsAt {descriptors : List Json} {i : Nat} {descriptor : Json}
    (found : descriptors[i]? = some descriptor) {error : SchemaError} :
    error ∈ errorsAt (placedFrom 0 descriptors) i descriptor ↔
      error.index = i ∧ Faulty descriptors error := by
  unfold errorsAt
  split
  · next violation hread =>
      rw [List.mem_singleton]
      refine ⟨fun h => ?_, fun ⟨hi, faulty⟩ => ?_⟩
      · rw [h]
        exact ⟨rfl, .rejected found hread⟩
      · subst hi
        cases faulty with
        | rejected found' hread' =>
            rw [found] at found'
            obtain rfl := Option.some.inj found'
            rw [hread] at hread'
            rw [Except.error.inj hread']
        | clash clash =>
            have refuses : ∀ {proxy},
                ¬ Accepted descriptors error.index proxy := by
              intro proxy ⟨d, hd, hok⟩
              rw [found] at hd
              rw [← Option.some.inj hd, hread] at hok
              cases hok
            cases clash with
            | duplicate accepted least => exact absurd accepted refuses
            | preflight accepted options least => exact absurd accepted refuses
  · next proxy hread =>
      have accepted : Accepted descriptors i proxy := ⟨descriptor, found, hread⟩
      simp only [List.mem_append, Option.mem_toList, duplicateAt_eq_some,
        preflightAt_eq_some]
      refine ⟨fun h => ?_, fun ⟨hi, faulty⟩ => ?_⟩
      · rcases h with ⟨first, least, rfl⟩ | ⟨options, enabledBy, least, rfl⟩
        · exact ⟨rfl, .clash (.duplicate accepted least)⟩
        · exact ⟨rfl, .clash (.preflight accepted options least)⟩
      · subst hi
        cases faulty with
        | rejected found' hread' =>
            rw [found] at found'
            rw [← Option.some.inj found', hread] at hread'
            cases hread'
        | clash clash =>
            cases clash with
            | duplicate accepted' least =>
                obtain rfl := accepted_unique accepted accepted'
                exact Or.inl ⟨_, least, rfl⟩
            | preflight accepted' options least =>
                obtain rfl := accepted_unique accepted accepted'
                exact Or.inr ⟨options, _, least, rfl⟩

theorem nodup_errorsAt (placed : List Placed) (i : Nat) (descriptor : Json) :
    (errorsAt placed i descriptor).Nodup := by
  unfold errorsAt
  split
  · exact List.nodup_singleton _
  · rw [List.nodup_append]
    refine ⟨Option.pairwise_toList, Option.pairwise_toList,
      fun a ha b hb hab => ?_⟩
    obtain ⟨first, rfl⟩ := eq_of_duplicateAt (Option.mem_toList.mp ha)
    obtain ⟨enabledBy, rfl⟩ := eq_of_preflightAt (Option.mem_toList.mp hb)
    have hfault := congrArg (fun error => error.violation.fault) hab
    cases hfault

/-! ## The errors of a list -/

theorem mem_errorsFrom {placed : List Placed} {start : Nat}
    {descriptors : List Json} {error : SchemaError} :
    error ∈ errorsFrom placed start descriptors ↔
      ∃ k descriptor, descriptors[k]? = some descriptor ∧
        error ∈ errorsAt placed (start + k) descriptor := by
  induction descriptors generalizing start with
  | nil => simp [errorsFrom]
  | cons head rest ih =>
      rw [errorsFrom, List.mem_append, ih]
      constructor
      · rintro (h | ⟨k, descriptor, hk, h⟩)
        · exact ⟨0, head, rfl, h⟩
        · exact ⟨k + 1, descriptor, hk, by rwa [Nat.add_right_comm] at h⟩
      · rintro ⟨k, descriptor, hk, h⟩
        cases k with
        | zero =>
            obtain rfl : head = descriptor := by simpa using hk
            exact Or.inl h
        | succ k => exact Or.inr ⟨k, descriptor, hk,
          by rwa [Nat.add_right_comm]⟩

/-- A fault stands at a position of the list. -/
theorem faulty_getElem? {descriptors : List Json} {error : SchemaError}
    (faulty : Faulty descriptors error) :
    ∃ descriptor, descriptors[error.index]? = some descriptor := by
  cases faulty with
  | rejected found refused => exact ⟨_, found⟩
  | clash clash =>
      cases clash with
      | duplicate accepted least =>
          obtain ⟨descriptor, found, -⟩ := accepted
          exact ⟨descriptor, found⟩
      | preflight accepted options least =>
          obtain ⟨descriptor, found, -⟩ := accepted
          exact ⟨descriptor, found⟩

/-- The errors of a whole list are what is faulty in it. -/
theorem mem_errors_iff {descriptors : List Json} {error : SchemaError} :
    error ∈ errorsFrom (placedFrom 0 descriptors) 0 descriptors ↔
      Faulty descriptors error := by
  rw [mem_errorsFrom]
  refine ⟨fun ⟨k, descriptor, hk, h⟩ => ?_, fun faulty => ?_⟩
  · rw [Nat.zero_add] at h
    exact ((mem_errorsAt hk).mp h).2
  · obtain ⟨descriptor, found⟩ := faulty_getElem? faulty
    refine ⟨error.index, descriptor, found, ?_⟩
    rw [Nat.zero_add]
    exact (mem_errorsAt found).mpr ⟨rfl, faulty⟩

theorem nodup_errorsFrom (placed : List Placed) (start : Nat)
    (descriptors : List Json) :
    (errorsFrom placed start descriptors).Nodup := by
  induction descriptors generalizing start with
  | nil => exact List.nodup_nil
  | cons head rest ih =>
      rw [errorsFrom, List.nodup_append]
      refine ⟨nodup_errorsAt placed start head, ih (start + 1),
        fun a ha b hb hab => ?_⟩
      have hle := le_index_of_mem_errorsFrom hb
      have := index_of_mem_errorsAt ha
      rw [← hab] at hle
      omega

/-- A descriptor that fails by itself has its own violation and nothing else at
its position. -/
theorem errors_at_rejected {descriptors : List Json} {i : Nat}
    {descriptor : Json} {violation : Violation}
    (found : descriptors[i]? = some descriptor)
    (refused : readDescriptor descriptor = .error violation)
    {error : SchemaError} (faulty : Faulty descriptors error)
    (index : error.index = i) : error = ⟨i, violation⟩ := by
  have h := (mem_errorsAt found).mpr ⟨index, faulty⟩
  unfold errorsAt at h
  rw [refused] at h
  exact List.mem_singleton.mp h

/-- A fault at an accepted descriptor is a clash. -/
theorem faulty_at_accepted_iff {descriptors : List Json} {error : SchemaError} :
    (Faulty descriptors error ∧ ∃ proxy,
      Accepted descriptors error.index proxy) ↔
      Clash descriptors error := by
  refine ⟨fun ⟨faulty, proxy, descriptor, found, hread⟩ => ?_, fun clash => ?_⟩
  · cases faulty with
    | rejected found' refused =>
        rw [found] at found'
        rw [← Option.some.inj found', hread] at refused
        cases refused
    | clash clash => exact clash
  · refine ⟨.clash clash, ?_⟩
    cases clash with
    | duplicate accepted least => exact ⟨_, accepted⟩
    | preflight accepted options least => exact ⟨_, accepted⟩

theorem parse_rejected {descriptor : Json} {violation : Violation}
    (refused : readDescriptor descriptor = .error violation) :
    parse [descriptor] = .error ⟨⟨0, violation⟩, []⟩ := by
  simp [parse_eq, errorsFrom, errorsAt, refused]

theorem parse_eq_error_iff {descriptors : List Json} {error : ValidationError} :
    parse descriptors = .error error ↔
      errorsFrom (placedFrom 0 descriptors) 0 descriptors = error.errors := by
  obtain ⟨first, others⟩ := error
  rw [parse_eq, ValidationError.errors]
  cases errorsFrom (placedFrom 0 descriptors) 0 descriptors <;> simp

theorem parse_eq_ok_iff {descriptors : List Json}
    {proxies : List ServiceProxy} :
    parse descriptors = .ok proxies ↔
      (∀ error, ¬ Faulty descriptors error) ∧
        proxies = (placedFrom 0 descriptors).map Prod.snd := by
  simp only [← mem_errors_iff, ← List.eq_nil_iff_forall_not_mem]
  rw [parse_eq]
  cases errorsFrom (placedFrom 0 descriptors) 0 descriptors <;> simp [eq_comm]

/-- When nothing is rejected, the accepted proxies are those of the list, in
order. -/
theorem forall₂_placedFrom {start : Nat} {descriptors : List Json}
    (accepted : ∀ descriptor ∈ descriptors, ∃ proxy,
      readDescriptor descriptor = .ok proxy) :
    List.Forall₂ (fun descriptor proxy =>
      readDescriptor descriptor = .ok proxy) descriptors
      ((placedFrom start descriptors).map Prod.snd) := by
  induction descriptors generalizing start with
  | nil => exact List.Forall₂.nil
  | cons head rest ih =>
      obtain ⟨proxy, hread⟩ := accepted head List.mem_cons_self
      rw [placedFrom, hread]
      exact List.Forall₂.cons hread (ih fun d hd =>
        accepted d (List.mem_cons_of_mem _ hd))

theorem accepted_of_not_faulty {descriptors : List Json}
    (sound : ∀ error, ¬ Faulty descriptors error) :
    ∀ descriptor ∈ descriptors, ∃ proxy, readDescriptor descriptor
      = .ok proxy := by
  intro descriptor hmem
  obtain ⟨i, found⟩ := List.mem_iff_getElem?.mp hmem
  cases hread : readDescriptor descriptor with
  | ok proxy => exact ⟨proxy, rfl⟩
  | error violation => exact absurd (.rejected found hread) (sound _)

/-- A list is sound exactly when nothing is wrong with it. -/
theorem sound_iff {descriptors : List Json} :
    Sound descriptors ↔ ∀ error, ¬ Faulty descriptors error := by
  refine ⟨fun ⟨accepted, noClash⟩ error faulty => ?_, fun noFault => ?_⟩
  · cases faulty with
    | rejected found refused =>
        obtain ⟨proxy, hread⟩ := accepted _ (List.mem_of_getElem? found)
        rw [refused] at hread
        cases hread
    | clash clash => exact noClash error clash
  · exact ⟨accepted_of_not_faulty noFault, fun error clash =>
      noFault error (.clash clash)⟩

theorem parse_error_of_not_sound {descriptors : List Json}
    (unsound : ¬ Sound descriptors) :
    ∃ error, parse descriptors = .error error := by
  cases hparse : parse descriptors with
  | ok proxies =>
      exact absurd (sound_iff.mpr (parse_eq_ok_iff.mp hparse).1) unsound
  | error error => exact ⟨error, rfl⟩

theorem mem_of_parse_error {descriptors : List Json} {error : ValidationError}
    (hparse : parse descriptors = .error error) {e : SchemaError} :
    e ∈ error.errors ↔ Faulty descriptors e := by
  rw [← parse_eq_error_iff.mp hparse]
  exact mem_errors_iff

theorem refused_of_not_accepted {descriptor : Json}
    (notAccepted : ∀ proxy, readDescriptor descriptor ≠ .ok proxy) :
    ∃ violation, readDescriptor descriptor = .error violation := by
  cases hread : readDescriptor descriptor with
  | ok proxy => exact absurd hread (notAccepted proxy)
  | error violation => exact ⟨violation, rfl⟩

/-- Reading a list combines its elements and their clashes. When every
descriptor is accepted on its own and no two clash, the list gives one proxy
a descriptor, in order. Otherwise it gives errors in the order of the
positions and none twice: at a rejected descriptor exactly the one that the
descriptor gives alone, moved to its position, and at the accepted ones
exactly the clashes. -/
theorem parse_combines (descriptors : List Json) :
    (Sound descriptors → ∃ proxies, parse descriptors = .ok proxies ∧
      List.Forall₂ (fun descriptor proxy =>
        readDescriptor descriptor = .ok proxy) descriptors proxies) ∧
    (¬ Sound descriptors → ∃ error, parse descriptors = .error error ∧
      error.errors ≠ [] ∧
      error.errors.Pairwise (fun a b => a.index ≤ b.index) ∧
      error.errors.Nodup ∧
      (∀ e ∈ error.errors, e.index < descriptors.length) ∧
      (∀ i descriptor, descriptors[i]? = some descriptor →
        (∀ proxy, readDescriptor descriptor ≠ .ok proxy) →
        ∃ own, parse [descriptor] = .error ⟨own, []⟩ ∧
          ∀ e, e ∈ error.errors ∧ e.index = i ↔ e = { own with index := i }) ∧
      ∀ e, (e ∈ error.errors ∧ ∃ proxy, Accepted descriptors e.index proxy) ↔
        Clash descriptors e) := by
  refine ⟨fun sound => ?_, fun unsound => ?_⟩
  · exact ⟨_, parse_eq_ok_iff.mpr ⟨sound_iff.mp sound, rfl⟩,
      forall₂_placedFrom sound.1⟩
  · obtain ⟨error, hparse⟩ := parse_error_of_not_sound unsound
    have herrors := parse_eq_error_iff.mp hparse
    refine ⟨error, hparse, List.cons_ne_nil _ _, ?_, ?_, ?_, ?_, ?_⟩
    · rw [← herrors]
      exact errorsFrom_sorted _ _ _
    · rw [← herrors]
      exact nodup_errorsFrom _ _ _
    · intro e he
      obtain ⟨descriptor, found⟩ :=
        faulty_getElem? ((mem_of_parse_error hparse).mp he)
      exact (List.getElem?_eq_some_iff.mp found).1
    · intro i descriptor found notAccepted
      obtain ⟨violation, refused⟩ := refused_of_not_accepted notAccepted
      refine ⟨⟨0, violation⟩, parse_rejected refused, fun e => ?_⟩
      rw [mem_of_parse_error hparse]
      refine ⟨fun ⟨faulty, hi⟩ => errors_at_rejected found refused faulty hi,
        fun he => ?_⟩
      rw [he]
      exact ⟨.rejected found refused, rfl⟩
    · intro e
      rw [mem_of_parse_error hparse]
      exact faulty_at_accepted_iff

end GatewayStack.Schema
