/-!
# Sorting by a key

An insertion sort by a natural number. Items with the same number stay in the
order in which they come.
-/

namespace GatewayStack.StableSort

variable {α : Type}

/-- Inserts an item before the first one with a greater key. -/
def insert (key : α → Nat) (item : α) : List α → List α
  | [] => [item]
  | other :: rest =>
    if key item < key other then item :: other :: rest
    else other :: insert key item rest

/-- The items in the order of their keys; equals keep their order. -/
def sort (key : α → Nat) (items : List α) : List α :=
  items.foldl (fun sorted item => insert key item sorted) []

variable {key : α → Nat} {item : α} {items sorted : List α}

theorem mem_insert {other : α} :
    other ∈ insert key item sorted ↔ other = item ∨ other ∈ sorted := by
  induction sorted with
  | nil => simp [insert]
  | cons first rest ih =>
      rw [insert]
      split
      · rw [List.mem_cons]
      · rw [List.mem_cons, ih, List.mem_cons, or_left_comm]

theorem mem_foldl_insert {other : α} :
    other ∈ items.foldl (fun sorted item => insert key item sorted) sorted ↔
      other ∈ items ∨ other ∈ sorted := by
  induction items generalizing sorted with
  | nil => simp
  | cons first rest ih =>
      rw [List.foldl_cons, ih, mem_insert, List.mem_cons,
        or_assoc, or_left_comm]

theorem mem_sort {other : α} : other ∈ sort key items ↔ other ∈ items := by
  unfold sort
  rw [mem_foldl_insert, or_iff_left List.not_mem_nil]

/-! ## A sorted list with the same equals -/

/-- The items are in the order of their keys. -/
def Sorted (key : α → Nat) (items : List α) : Prop :=
  items.Pairwise fun a b => key a ≤ key b

/-- The items with some key, in order. -/
def having (key : α → Nat) (k : Nat) (items : List α) : List α :=
  items.filter fun item => key item = k

theorem mem_having {k : Nat} {other : α} :
    other ∈ having key k items ↔ other ∈ items ∧ key other = k := by
  unfold having
  rw [List.mem_filter, decide_eq_true_eq]

theorem having_cons_self (first : α) (rest : List α) :
    having key (key first) (first :: rest)
      = first :: having key (key first) rest :=
  List.filter_cons_of_pos (decide_eq_true rfl)

theorem having_cons_of_ne {k : Nat} {first : α} (h : key first ≠ k)
    (rest : List α) :
    having key k (first :: rest) = having key k rest :=
  List.filter_cons_of_neg (by simpa using h)

theorem having_append (k : Nat) (front back : List α) :
    having key k (front ++ back) = having key k front ++ having key k back :=
  List.filter_append ..

theorem having_eq_nil_of_lt {k : Nat} (h : ∀ item ∈ items, k < key item) :
    having key k items = [] := by
  refine List.eq_nil_iff_forall_not_mem.mpr fun item hitem => ?_
  obtain ⟨hmem, rfl⟩ := mem_having.mp hitem
  exact Nat.lt_irrefl _ (h item hmem)

theorem Sorted.le_of_mem {first : α}
    (h : Sorted key (first :: items)) {other : α}
    (hmem : other ∈ first :: items) : key first ≤ key other := by
  rcases List.mem_cons.mp hmem with rfl | hmem
  · exact Nat.le_refl _
  · exact (List.pairwise_cons.mp h).1 other hmem

theorem Sorted.insert (h : Sorted key sorted) :
    Sorted key (insert key item sorted) := by
  induction sorted with
  | nil => exact List.pairwise_singleton _ _
  | cons first rest ih =>
      obtain ⟨hfirst, hrest⟩ := List.pairwise_cons.mp h
      rw [StableSort.insert]
      split
      · next less =>
          exact List.pairwise_cons.mpr
            ⟨fun other hother =>
              Nat.le_of_lt (Nat.lt_of_lt_of_le less (h.le_of_mem hother)), h⟩
      · next notLess =>
          refine List.pairwise_cons.mpr ⟨fun other hother => ?_, ih hrest⟩
          rcases mem_insert.mp hother with rfl | hother
          · exact Nat.le_of_not_lt notLess
          · exact hfirst other hother

/-- An item goes behind its equals. -/
theorem having_insert (h : Sorted key sorted) (k : Nat) :
    having key k (insert key item sorted)
      = having key k sorted ++ having key k [item] := by
  induction sorted with
  | nil => rfl
  | cons first rest ih =>
      obtain ⟨hfirst, hrest⟩ := List.pairwise_cons.mp h
      rw [insert]
      split
      · next less =>
          show having key k ([item] ++ first :: rest) = _
          rw [having_append]
          by_cases hk : key item = k
          · subst hk
            have greater : having key (key item) (first :: rest) = [] :=
              having_eq_nil_of_lt fun other hother =>
                Nat.lt_of_lt_of_le less (h.le_of_mem hother)
            rw [greater, List.append_nil, List.nil_append]
          · rw [having_cons_of_ne hk]
            exact (List.append_nil _).symm
      · show having key k ([first] ++ insert key item rest)
          = having key k ([first] ++ rest) ++ _
        rw [having_append, having_append, ih hrest, List.append_assoc]

theorem foldl_insert (h : Sorted key sorted) :
    Sorted key (items.foldl (fun sorted item =>
      insert key item sorted) sorted) ∧
      ∀ k, having key k
          (items.foldl (fun sorted item => insert key item sorted) sorted)
        = having key k sorted ++ having key k items := by
  induction items generalizing sorted with
  | nil => exact ⟨h, fun k => (List.append_nil _).symm⟩
  | cons first rest ih =>
      have inserted : Sorted key (StableSort.insert key first sorted) :=
        h.insert
      obtain ⟨hsorted, hhaving⟩ := ih inserted
      refine ⟨hsorted, fun k => ?_⟩
      rw [List.foldl_cons, hhaving, having_insert h, List.append_assoc,
        ← having_append]
      rfl

theorem mem_iff_of_having {as bs : List α}
    (h : ∀ k, having key k as = having key k bs) :
    item ∈ as ↔ item ∈ bs := by
  have hmem : item ∈ having key (key item) as ↔
      item ∈ as ∧ key item = key item := mem_having
  rw [h, mem_having] at hmem
  simpa using hmem.symm

/-- Two sorted lists with the same items of every key, in the same
order, are equal. -/
theorem eq_of_having {as bs : List α} (ha : Sorted key as) (hb : Sorted key bs)
    (h : ∀ k, having key k as = having key k bs) : as = bs := by
  induction as generalizing bs with
  | nil =>
      refine (List.eq_nil_iff_forall_not_mem.mpr fun b hmem => ?_).symm
      exact absurd ((mem_iff_of_having h).mpr hmem) List.not_mem_nil
  | cons a as ih =>
      have same {item : α} : item ∈ a :: as ↔ item ∈ bs := mem_iff_of_having h
      cases bs with
      | nil => exact absurd (same.mp List.mem_cons_self) List.not_mem_nil
      | cons b bs =>
          -- either of the two firsts has a key that is no greater than
          -- that of the other
          have hkeys : key b = key a := Nat.le_antisymm
            (hb.le_of_mem (same.mp List.mem_cons_self))
            (ha.le_of_mem (same.mpr List.mem_cons_self))
          have hfirst := h (key a)
          rw [having_cons_self, ← hkeys, having_cons_self, hkeys] at hfirst
          obtain ⟨rfl, hrest⟩ := List.cons.inj hfirst
          refine congrArg (a :: ·)
            (ih (List.pairwise_cons.mp ha).2
              (List.pairwise_cons.mp hb).2 fun k => ?_)
          by_cases hk : key a = k
          · exact hk ▸ hrest
          · have hothers := h k
            rwa [having_cons_of_ne hk, having_cons_of_ne hk] at hothers

/-- A sorted list that has the same items of every key, in the same order, is
what sorting comes to. -/
theorem sort_eq (hsorted : Sorted key sorted)
    (h : ∀ k, having key k sorted = having key k items) :
    sort key items = sorted := by
  have hnil : Sorted key [] := List.Pairwise.nil
  obtain ⟨hsort, hhaving⟩ := foldl_insert hnil
  refine eq_of_having hsort hsorted fun k => ?_
  rw [h]
  exact hhaving k

end GatewayStack.StableSort
