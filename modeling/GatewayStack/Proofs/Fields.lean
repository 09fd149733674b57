import GatewayStack.FirstSeen
import GatewayStack.Json.Merge
import Mathlib.Data.List.Nodup
import Mathlib.Data.String.Basic

/-!
# Ordered fields under writing and merging

Every resource of a template gets there by one of two walks over the entries of
a fragment: `setAll` puts them into a mapping, `mergeFields` folds them into the
older ones. Two questions are asked of both walks, and they are asked apart
because they need different things.

Which names are there afterwards, and in which order, does not depend on the
values at all: either walk takes the union of the names in first-seen order.
Which value is under a name does: after `setAll` the last entry wins, and after
`mergeFields` it is the older value with every newer one merged in. When the
newer names are distinct that is a single merge.
-/

namespace GatewayStack.FirstSeen

variable {α : Type} [DecidableEq α]

theorem union_append (seen a b : List α) :
    union seen (a ++ b) = union (union seen a) b := by
  induction a generalizing seen with
  | nil => rfl
  | cons item rest ih => exact ih _

/-- What was seen first stays in front, and only new items follow. -/
theorem exists_union_eq_append (seen items : List α) :
    ∃ new, union seen items = seen ++ new ∧ ∀ item, item ∈ new ↔
      item ∈ items ∧ item ∉ seen := by
  induction items generalizing seen with
  | nil => exact ⟨[], (List.append_nil _).symm, by simp⟩
  | cons first rest ih =>
      obtain ⟨new, hunion, hnew⟩ := ih (add seen first)
      rw [union, hunion]
      by_cases h : first ∈ seen
      · have hadd : add seen first = seen := if_pos h
        rw [hadd] at hnew ⊢
        refine ⟨new, rfl, fun item => ?_⟩
        rw [hnew, List.mem_cons]
        refine ⟨fun hitem => ⟨Or.inr hitem.1, hitem.2⟩,
          fun hitem => ⟨?_, hitem.2⟩⟩
        exact hitem.1.resolve_left fun heq => hitem.2 (heq ▸ h)
      · have hadd : add seen first = seen ++ [first] := if_neg h
        rw [hadd] at hnew ⊢
        refine ⟨first :: new, by simp, fun item => ?_⟩
        rw [List.mem_cons, List.mem_cons, hnew, List.mem_append,
          List.mem_singleton]
        by_cases heq : item = first
        · simp [heq, h]
        · simp [heq]

theorem union_eq_self {seen items : List α} (h : ∀ item ∈ items, item ∈ seen) :
    union seen items = seen := by
  obtain ⟨new, hunion, hnew⟩ := exists_union_eq_append seen items
  cases new with
  | nil => rw [hunion, List.append_nil]
  | cons item rest =>
      obtain ⟨hmem, fresh⟩ := (hnew item).mp List.mem_cons_self
      exact absurd (h item hmem) fresh

/-- What is new in a list without repetitions comes at the end, as it is. -/
theorem union_of_nodup {seen items : List α} (h : items.Nodup) :
    union seen items = seen ++ items.filter fun item => item ∉ seen := by
  induction items generalizing seen with
  | nil => simp [union]
  | cons item rest ih =>
      obtain ⟨fresh, hrest⟩ := List.nodup_cons.mp h
      rw [union, ih hrest]
      by_cases hmem : item ∈ seen
      · have hadd : add seen item = seen := if_pos hmem
        rw [hadd, List.filter_cons_of_neg (by simpa using hmem)]
      · have hadd : add seen item = seen ++ [item] := if_neg hmem
        have hfilter : (rest.filter fun other => other ∉ seen ++ [item])
            = rest.filter fun other => other ∉ seen := by
          refine List.filter_congr fun other hother => ?_
          have hne : other ≠ item := fun heq => fresh (heq ▸ hother)
          simp [hne]
        rw [hadd, hfilter, List.filter_cons_of_pos (by simpa using hmem),
          List.append_assoc, List.singleton_append]

theorem union_add (seen items : List α) (item : α) :
    union seen (add items item) = add (union seen items) item := by
  by_cases h : item ∈ items
  · have hseen : item ∈ union seen items := mem_union.mpr (Or.inr h)
    rw [show add items item = items from if_pos h,
      show add (union seen items) item = union seen items from if_pos hseen]
  · rw [show add items item = items ++ [item] from if_neg h, union_append]
    rfl

theorem union_union (a b c : List α) :
    union a (union b c) = union (union a b) c := by
  induction c generalizing b with
  | nil => rfl
  | cons item rest ih =>
      show union a (union (add b item) rest) = union (add (union a b) item) rest
      rw [ih, union_add]

/-- Repetitions that are left out of the parts early are not missed later. -/
theorem union_flatMap_distinct (seen : List α) (parts : List (List α)) :
    union seen (parts.flatMap distinct) = union seen parts.flatten := by
  induction parts generalizing seen with
  | nil => rfl
  | cons part rest ih =>
      rw [List.flatMap_cons, List.flatten_cons, union_append,
        union_append, ih, distinct, union_union]
      rfl

end GatewayStack.FirstSeen

namespace GatewayStack.Fields

variable {α : Type}

theorem get?_eq_none_iff {fields : Fields α} {name : String} :
    get? fields name = none ↔ name ∉ keys fields := by
  induction fields with
  | nil => simp
  | cons entry rest ih =>
      obtain ⟨k, v⟩ := entry
      by_cases h : k = name
      · simp [get?, h]
      · simp [get?, h, ih, Ne.symm h]

theorem contains_iff {fields : Fields α} {name : String} :
    contains fields name = true ↔ name ∈ keys fields := by
  unfold contains
  rw [Option.isSome_iff_ne_none, ne_eq, get?_eq_none_iff, not_not]

theorem mem_of_get? {fields : Fields α} {name : String} {value : α}
    (h : get? fields name = some value) : (name, value) ∈ fields := by
  induction fields with
  | nil => cases h
  | cons entry rest ih =>
      obtain ⟨k, v⟩ := entry
      rw [get?] at h
      split at h
      · next hk =>
          rw [← hk, Option.some.inj h]
          exact List.mem_cons_self
      · exact List.mem_cons_of_mem _ (ih h)

theorem mem_keys_of_mem {fields : Fields α} {name : String} {value : α}
    (h : (name, value) ∈ fields) : name ∈ keys fields :=
  List.mem_map.mpr ⟨(name, value), h, rfl⟩

theorem get?_append (a b : Fields α) (name : String) :
    get? (a ++ b) name = (get? a name).or (get? b name) := by
  induction a with
  | nil => simp
  | cons entry rest ih =>
      obtain ⟨k, v⟩ := entry
      by_cases h : k = name
      · simp [get?, h]
      · simp [get?, h, ih]

/-! ## Writing entries -/

/-- Setting a name adds it to the names as the first-seen order has it. -/
theorem keys_set_eq_add (fields : Fields α) (name : String) (value : α) :
    keys (set fields name value) = FirstSeen.add (keys fields) name :=
  keys_set fields name value

theorem keys_setAll (fields entries : Fields α) :
    keys (setAll fields entries)
      = FirstSeen.union (keys fields) (keys entries) := by
  induction entries generalizing fields with
  | nil => rfl
  | cons entry rest ih =>
      rw [setAll, ih, keys_set_eq_add]
      rfl

theorem keys_ofEntries (entries : List (String × α)) :
    keys (ofEntries entries) = FirstSeen.distinct (keys entries) :=
  keys_setAll [] entries

/-- The last entry under a name wins. -/
theorem get?_setAll (fields entries : Fields α) (name : String) :
    get? (setAll fields entries) name
      = (get? entries.reverse name).or (get? fields name) := by
  induction entries generalizing fields with
  | nil => simp [setAll]
  | cons entry rest ih =>
      obtain ⟨k, v⟩ := entry
      rw [setAll, ih, List.reverse_cons, get?_append]
      by_cases h : k = name
      · subst h
        simp [get?_set_self, get?]
      · simp [get?_set_of_ne fields v h, get?, h]

theorem get?_setAll_of_not_mem (fields : Fields α) {entries : Fields α}
    {name : String} (h : name ∉ keys entries) :
    get? (setAll fields entries) name = get? fields name := by
  have hnone : get? entries.reverse name = none := by
    rw [get?_eq_none_iff]
    unfold keys
    rwa [List.map_reverse, List.mem_reverse]
  rw [get?_setAll, hnone, Option.none_or]

/-- Among entries made from items, the last item whose entry has the
name decides. -/
theorem get?_reverse_map {β : Type} (items : List β) (entry : β → String × α)
    (name : String) :
    get? (items.map entry).reverse name
      = ((items.filter fun item => (entry item).1 = name).getLast?).map
        fun item =>
          (entry item).2 := by
  induction items with
  | nil => rfl
  | cons item rest ih =>
      rw [List.map_cons, List.reverse_cons, get?_append, ih]
      by_cases h : (entry item).1 = name
      · rw [List.filter_cons_of_pos (by simpa using h), List.getLast?_cons]
        cases (rest.filter fun item => (entry item).1
          = name).getLast? <;> simp [get?, h]
      · rw [List.filter_cons_of_neg (by simpa using h)]
        simp [get?, h]

theorem mem_set {fields : Fields α} {name k : String} {value v : α}
    (h : (k, v) ∈ set fields name value) :
    (k, v) ∈ fields ∨ (k = name ∧ v = value) := by
  induction fields with
  | nil => simpa [set] using h
  | cons entry rest ih =>
      obtain ⟨j, w⟩ := entry
      rw [set] at h
      split at h
      · next hj =>
          rcases List.mem_cons.mp h with h | h
          · exact Or.inr (by simpa [hj] using h)
          · exact Or.inl (List.mem_cons_of_mem _ h)
      · rcases List.mem_cons.mp h with h | h
        · exact Or.inl (h ▸ List.mem_cons_self)
        · exact (ih h).imp_left (List.mem_cons_of_mem _)

theorem mem_setAll {fields entries : Fields α} {k : String} {v : α}
    (h : (k, v) ∈ setAll fields entries) :
    (k, v) ∈ fields ∨ (k, v) ∈ entries := by
  induction entries generalizing fields with
  | nil => exact Or.inl h
  | cons entry rest ih =>
      obtain ⟨j, w⟩ := entry
      rcases ih h with h | h
      · rcases mem_set h with h | ⟨rfl, rfl⟩
        · exact Or.inl h
        · exact Or.inr List.mem_cons_self
      · exact Or.inr (List.mem_cons_of_mem _ h)

theorem set_of_not_mem {fields : Fields α} {name : String}
    (h : name ∉ keys fields) (value : α) :
    set fields name value = fields ++ [(name, value)] := by
  induction fields with
  | nil => rfl
  | cons entry rest ih =>
      obtain ⟨k, v⟩ := entry
      obtain ⟨hne, hrest⟩ := not_or.mp fun hmem => h (List.mem_cons.mpr hmem)
      rw [set, if_neg (Ne.symm hne), ih hrest]
      rfl

theorem setAll_of_distinct {fields entries : Fields α}
    (h : Distinct (fields ++ entries)) :
    setAll fields entries = fields ++ entries := by
  induction entries generalizing fields with
  | nil => rw [setAll, List.append_nil]
  | cons entry rest ih =>
      obtain ⟨k, v⟩ := entry
      have fresh : k ∉ keys fields := by
        unfold Distinct keys at h
        rw [List.map_append, List.nodup_append] at h
        exact fun hmem => h.2.2 k hmem k List.mem_cons_self rfl
      have hsplit : fields ++ (k, v) :: rest
          = (fields ++ [(k, v)]) ++ rest := by simp
      rw [hsplit] at h ⊢
      rw [setAll, set_of_not_mem fresh, ih h]

theorem set_set (fields : Fields α) (name : String) (value last : α) :
    set (set fields name value) name last = set fields name last := by
  induction fields with
  | nil => simp [set]
  | cons entry rest ih =>
      obtain ⟨k, v⟩ := entry
      by_cases h : k = name
      · simp [set, h]
      · simp [set, h, ih]

theorem set_comm {fields : Fields α} {name other : String} (hne : name ≠ other)
    (hmem : name ∈ keys fields) (value more : α) :
    set (set fields name value) other more
      = set (set fields other more) name value := by
  induction fields with
  | nil => cases hmem
  | cons entry rest ih =>
      obtain ⟨k, v⟩ := entry
      by_cases hk : k = name
      · subst hk
        simp [set, hne]
      · have hrest : name ∈ keys rest :=
          (List.mem_cons.mp hmem).resolve_left (Ne.symm hk)
        by_cases ho : k = other
        · simp [set, ho, Ne.symm hne]
        · simp [set, hk, ho, ih hrest]

/-- With distinct names an entry is what is found under its name. -/
theorem get?_of_mem {fields : Fields α} (distinct : Distinct fields)
    {name : String} {value : α} (h : (name, value) ∈ fields) :
    get? fields name = some value := by
  induction fields with
  | nil => cases h
  | cons entry rest ih =>
      obtain ⟨k, v⟩ := entry
      obtain ⟨fresh, distinct⟩ := List.nodup_cons.mp distinct
      rw [get?]
      rcases List.mem_cons.mp h with heq | h
      · obtain ⟨rfl, rfl⟩ := Prod.mk.inj heq
        rw [if_pos rfl]
      · rw [if_neg fun hk => fresh ?_, ih distinct h]
        rw [show k = name from hk]
        exact mem_keys_of_mem h

/-- With distinct names, setting one that is there changes its entry in
place. -/
theorem set_of_mem {fields : Fields α} {name : String}
    (distinct : Distinct fields) (hmem : name ∈ keys fields) (value : α) :
    set fields name value
      = fields.map fun entry => if entry.1 = name then (name, value)
        else entry := by
  induction fields with
  | nil => cases hmem
  | cons entry rest ih =>
      obtain ⟨k, v⟩ := entry
      obtain ⟨fresh, distinct⟩ := List.nodup_cons.mp distinct
      by_cases hk : k = name
      · subst hk
        have hrest : rest.map (fun entry => if entry.1 = k then (k, value)
            else entry) = rest := by
          refine (List.map_congr_left fun entry hentry => ?_).trans
            (List.map_id rest)
          exact if_neg fun heq => fresh (List.mem_map.mpr ⟨entry, hentry, heq⟩)
        rw [set, if_pos rfl, List.map_cons, if_pos rfl, hrest]
      · have hrest : name ∈ keys rest :=
          (List.mem_cons.mp hmem).resolve_left (Ne.symm hk)
        rw [set, if_neg hk, List.map_cons, if_neg hk, ih distinct hrest]

theorem get?_eq_some_iff {fields : Fields α} (distinct : Distinct fields)
    {name : String} {value : α} : get? fields name = some value ↔
    (name, value) ∈ fields :=
  ⟨mem_of_get?, get?_of_mem distinct⟩

theorem get?_perm {a b : Fields α} (distinct : Distinct a)
    (h : a.Perm b) (name : String) : get? b name = get? a name := by
  have hkeys : (keys a).Perm (keys b) := h.map Prod.fst
  have distinctB : Distinct b := hkeys.nodup_iff.mp distinct
  cases ha : get? a name with
  | none =>
      rw [get?_eq_none_iff] at ha ⊢
      exact fun hmem => ha (hkeys.mem_iff.mpr hmem)
  | some value => exact get?_of_mem distinctB (h.mem_iff.mp (mem_of_get? ha))

theorem get?_reverse {fields : Fields α} (distinct : Distinct fields)
    (name : String) :
    get? fields.reverse name = get? fields name :=
  get?_perm distinct (List.reverse_perm fields).symm name

/-- Fields are told apart by their names in order and what is found under
them. -/
theorem eq_of_get? {a b : Fields α} (distinct : Distinct a)
    (hkeys : keys a = keys b) (h : ∀ name, get? a name = get? b name) :
    a = b := by
  induction a generalizing b with
  | nil => exact (List.map_eq_nil_iff.mp hkeys.symm).symm
  | cons entry rest ih =>
      obtain ⟨k, v⟩ := entry
      obtain ⟨fresh, distinct⟩ := List.nodup_cons.mp distinct
      cases b with
      | nil => cases hkeys
      | cons other more =>
          obtain ⟨j, w⟩ := other
          obtain ⟨rfl, hrest⟩ : k = j ∧ keys rest = keys more :=
            List.cons.inj hkeys
          have hvalue := h k
          rw [get?, get?, if_pos rfl, if_pos rfl] at hvalue
          rw [Option.some.inj hvalue, ih distinct hrest fun name => ?_]
          by_cases hname : k = name
          · subst hname
            have habsent : k ∉ keys more :=
              hrest ▸ show k ∉ keys rest from fresh
            rw [get?_eq_none_iff.mpr fresh, get?_eq_none_iff.mpr habsent]
          · have hother := h name
            rwa [get?, get?, if_neg hname, if_neg hname] at hother

/-- Setting a name among entries that a test passes over, to a value that
it passes over. -/
theorem filter_set_of_not {p : String × α → Bool} {fields : Fields α}
    {name : String} {value : α} (hold : ∀ old, (name, old) ∈ fields →
      p (name, old) = false) (hnew : p (name, value) = false) :
    (set fields name value).filter p = fields.filter p := by
  induction fields with
  | nil => simp [set, hnew]
  | cons entry rest ih =>
      obtain ⟨k, v⟩ := entry
      obtain ⟨hfirst, hrest⟩ : (k = name → p (k, v) = false) ∧
          ∀ old, (name, old) ∈ rest → p (name, old) = false :=
        ⟨fun hk => hk ▸ hold v (hk ▸ List.mem_cons_self),
          fun old hmem => hold old (List.mem_cons_of_mem _ hmem)⟩
      by_cases h : k = name
      · subst h
        rw [set, if_pos rfl, List.filter_cons_of_neg (by simp [hnew]),
          List.filter_cons_of_neg (by simp [hfirst rfl])]
      · rw [set, if_neg h, List.filter_cons, List.filter_cons, ih hrest]

/-- Setting a name among entries that a test lets through, to a value that it
lets through. -/
theorem filter_set {p : String × α → Bool} {fields : Fields α}
    {name : String} {value : α} (hold : ∀ old, (name, old) ∈ fields →
      p (name, old) = true) (hnew : p (name, value) = true) :
    (set fields name value).filter p = set (fields.filter p) name value := by
  induction fields with
  | nil => simp [set, hnew]
  | cons entry rest ih =>
      obtain ⟨k, v⟩ := entry
      have hrest : ∀ old, (name, old) ∈ rest → p (name, old) = true :=
        fun old hmem => hold old (List.mem_cons_of_mem _ hmem)
      by_cases h : k = name
      · subst h
        rw [set, if_pos rfl, List.filter_cons_of_pos hnew,
          List.filter_cons_of_pos (hold v List.mem_cons_self), set, if_pos rfl]
      · rw [set, if_neg h, List.filter_cons, List.filter_cons, ih hrest]
        split
        · rw [set, if_neg h]
        · rfl

/-! ## Keeping the names in order -/

theorem mem_keys_insertSorted {fields : Fields α}
    {name other : String} {value : α} :
    other ∈ keys (insertSorted fields name value) ↔
      other = name ∨ other ∈ keys fields := by
  induction fields with
  | nil => simp [insertSorted]
  | cons entry rest ih =>
      obtain ⟨k, v⟩ := entry
      rw [insertSorted]
      split
      · next hk => simp [hk]
      · split
        · simp
        · simp only [keys_cons, List.mem_cons, ih]
          rw [or_left_comm]

theorem get?_insertSorted (fields : Fields α)
    (name other : String) (value : α) :
    get? (insertSorted fields name value) other
      = if name = other then some value else get? fields other := by
  induction fields with
  | nil => rfl
  | cons entry rest ih =>
      obtain ⟨k, v⟩ := entry
      rw [insertSorted]
      split
      · next hk =>
          rw [get?, get?, hk]
          split <;> rfl
      · next hne =>
          split
          · rw [get?]
          · rw [get?, get?, ih]
            split
            · next hk => rw [if_neg fun heq => hne (hk.trans heq.symm)]
            · rfl

theorem mem_insertSorted {fields : Fields α} {name : String} {value : α}
    {entry : String × α} (h : entry ∈ insertSorted fields name value) :
    entry = (name, value) ∨ entry ∈ fields := by
  induction fields with
  | nil => exact Or.inl (List.mem_singleton.mp h)
  | cons first rest ih =>
      obtain ⟨k, v⟩ := first
      rw [insertSorted] at h
      split at h
      · next hk =>
          rcases List.mem_cons.mp h with heq | h
          · exact Or.inl (hk ▸ heq)
          · exact Or.inr (List.mem_cons_of_mem _ h)
      · split at h
        · exact List.mem_cons.mp h
        · rcases List.mem_cons.mp h with heq | h
          · exact Or.inr (heq ▸ List.mem_cons_self)
          · exact (ih h).imp_right (List.mem_cons_of_mem _)

theorem mem_sorted {fields : Fields α} {entry : String × α}
    (h : entry ∈ sorted fields) : entry ∈ fields := by
  have mem : ∀ (entries acc : Fields α),
      entry ∈ entries.foldl (fun acc entry =>
        insertSorted acc entry.1 entry.2) acc →
        entry ∈ acc ∨ entry ∈ entries := by
    intro entries
    induction entries with
    | nil => exact fun acc h => Or.inl h
    | cons first rest ih =>
        intro acc h
        rcases ih _ h with h | h
        · rcases mem_insertSorted h with rfl | h
          · exact Or.inr List.mem_cons_self
          · exact Or.inl h
        · exact Or.inr (List.mem_cons_of_mem _ h)
  exact (mem fields [] h).resolve_left List.not_mem_nil

/-- Names in increasing order stay so, hence they stay distinct. -/
theorem pairwise_keys_insertSorted {fields : Fields α}
    (h : (keys fields).Pairwise (· < ·)) (name : String) (value : α) :
    (keys (insertSorted fields name value)).Pairwise (· < ·) := by
  induction fields with
  | nil => simp [insertSorted]
  | cons entry rest ih =>
      obtain ⟨k, v⟩ := entry
      obtain ⟨below, sorted⟩ := List.pairwise_cons.mp h
      rw [insertSorted]
      split
      · exact h
      · next hne =>
          split
          · next hlt =>
              refine List.pairwise_cons.mpr ⟨fun other hmem => ?_, h⟩
              rcases List.mem_cons.mp hmem with rfl | hmem
              · exact hlt
              · exact String.lt_trans hlt (below other hmem)
          · next hge =>
              refine List.pairwise_cons.mpr ⟨fun other hmem => ?_, ih sorted⟩
              rcases mem_keys_insertSorted.mp hmem with rfl | hmem
              · exact (lt_or_gt_of_ne hne).resolve_right hge
              · exact below other hmem

theorem distinct_nil : Distinct ([] : Fields α) := List.nodup_nil

theorem distinct_of_pairwise {fields : Fields α}
    (h : (keys fields).Pairwise (· < ·)) :
    Distinct fields := h.imp ne_of_lt

theorem pairwise_keys_sorted (fields : Fields α) :
    (keys (sorted fields)).Pairwise (· < ·) := by
  have ordered : ∀ (entries acc : Fields α), (keys acc).Pairwise (· < ·) →
      (keys (entries.foldl (fun acc entry => insertSorted acc entry.1 entry.2)
        acc)).Pairwise (· < ·) := by
    intro entries
    induction entries with
    | nil => exact fun acc h => h
    | cons entry rest ih =>
        exact fun acc h => ih _ (pairwise_keys_insertSorted h entry.1 entry.2)
  exact ordered fields [] List.Pairwise.nil

theorem distinct_sorted (fields : Fields α) : Distinct (sorted fields) :=
  distinct_of_pairwise (pairwise_keys_sorted fields)

theorem perm_insertSorted {fields : Fields α} {name : String}
    (fresh : name ∉ keys fields) (value : α) :
    (insertSorted fields name value).Perm ((name, value) :: fields) := by
  induction fields with
  | nil => exact List.Perm.refl _
  | cons entry rest ih =>
      obtain ⟨k, v⟩ := entry
      obtain ⟨hne, fresh⟩ := not_or.mp (mt List.mem_cons.mpr fresh)
      rw [insertSorted, if_neg (Ne.symm hne)]
      split
      · exact List.Perm.refl _
      · exact ((ih fresh).cons _).trans (List.Perm.swap _ _ _)

/-- Distinct names are put in order, none is lost. -/
theorem perm_sorted {fields : Fields α} (distinct : Distinct fields) :
    (sorted fields).Perm fields := by
  have perm : ∀ (entries acc : Fields α), Distinct (acc ++ entries) →
      (entries.foldl (fun acc entry =>
        insertSorted acc entry.1 entry.2) acc).Perm
        (acc ++ entries) := by
    intro entries
    induction entries with
    | nil => exact fun acc _ => by rw [List.append_nil]; exact List.Perm.refl _
    | cons entry rest ih =>
        intro acc distinct
        have hfresh : entry.1 ∉ keys acc := by
          unfold Distinct keys at distinct
          rw [List.map_append, List.nodup_append] at distinct
          exact fun hmem => distinct.2.2 _ hmem _ List.mem_cons_self rfl
        have hstep : (insertSorted acc entry.1 entry.2 ++ rest).Perm
            (acc ++ entry :: rest) :=
          ((perm_insertSorted hfresh entry.2).append_right rest).trans
            List.perm_middle.symm
        have hkeys : (keys (insertSorted acc entry.1 entry.2 ++ rest)).Perm
            (keys (acc ++ entry :: rest)) := hstep.map Prod.fst
        exact (ih _ (hkeys.nodup_iff.mpr distinct)).trans hstep
  exact perm fields [] distinct

/-- In the order of their names, the same entries are the same mapping. -/
theorem sorted_eq_of_perm {a b : Fields α} (distinct : Distinct a)
    (h : a.Perm b) : sorted a = sorted b := by
  have distinctB : Distinct b := (h.map Prod.fst).nodup_iff.mp distinct
  have increasing (fields : Fields α) :
      (sorted fields).Pairwise fun p q => p.1 < q.1 :=
    List.pairwise_map.mp (pairwise_keys_sorted fields)
  refine List.Perm.eq_of_pairwise (fun p q _ _ hlt hgt =>
    absurd hgt (String.lt_asymm hlt)) (increasing a) (increasing b) ?_
  exact (perm_sorted distinct).trans (h.trans (perm_sorted distinctB).symm)

theorem distinct_setAll {fields : Fields α} (h : Distinct fields)
    (entries : Fields α) :
    Distinct (setAll fields entries) := by
  unfold Distinct
  rw [keys_setAll]
  exact FirstSeen.nodup_union h

@[simp] theorem keys_concat (fields : Fields α) (name : String) (value : α) :
    keys (fields ++ [(name, value)]) = keys fields ++ [name] := List.map_append

theorem distinct_concat {fields : Fields α} {name : String}
    (distinct : Distinct fields) (fresh : name ∉ keys fields) (value : α) :
    Distinct (fields ++ [(name, value)]) := by
  unfold Distinct
  rw [keys_concat, ← List.concat_eq_append]
  exact distinct.concat fresh

@[simp] theorem keys_mapValues {β : Type} (f : α → β) (fields : Fields α) :
    keys (mapValues f fields) = keys fields := by
  unfold keys mapValues
  rw [List.map_map]
  rfl

theorem get?_mapValues {β : Type} (f : α → β) (fields : Fields α)
    (name : String) :
    get? (mapValues f fields) name = (get? fields name).map f := by
  induction fields with
  | nil => rfl
  | cons entry rest ih =>
      obtain ⟨k, v⟩ := entry
      show get? ((k, f v) :: mapValues f rest) name = _
      by_cases hk : k = name
      · simp [get?, hk]
      · simp [get?, hk, ih]

/-! ## Every entry on its own -/

/-- The entries with each value changed as its name says. -/
def mapEntries (f : String → α → α) (fields : Fields α) : Fields α :=
  fields.map fun entry => (entry.1, f entry.1 entry.2)

variable {f : String → α → α}

@[simp] theorem keys_mapEntries (fields : Fields α) :
    keys (mapEntries f fields) = keys fields := by
  unfold keys mapEntries
  rw [List.map_map]
  rfl

theorem get?_mapEntries (fields : Fields α) (name : String) :
    get? (mapEntries f fields) name = (get? fields name).map (f name) := by
  induction fields with
  | nil => rfl
  | cons entry rest ih =>
      obtain ⟨k, v⟩ := entry
      show get? ((k, f k v) :: mapEntries f rest) name = _
      by_cases hk : k = name
      · subst hk
        simp [get?]
      · simp [get?, hk, ih]

theorem mapEntries_set (fields : Fields α) (name : String) (value : α) :
    mapEntries f (set fields name value)
      = set (mapEntries f fields) name (f name value) := by
  induction fields with
  | nil => rfl
  | cons entry rest ih =>
      obtain ⟨k, v⟩ := entry
      show _ = set ((k, f k v) :: mapEntries f rest) name (f name value)
      by_cases hk : k = name
      · subst hk
        simp [set, mapEntries]
      · rw [set, set, if_neg hk, if_neg hk, ← ih]
        rfl

theorem mapEntries_setAll (fields entries : Fields α) :
    mapEntries f (setAll fields entries)
      = setAll (mapEntries f fields) (mapEntries f entries) := by
  induction entries generalizing fields with
  | nil => rfl
  | cons entry rest ih =>
      rw [setAll, ih, mapEntries_set]
      rfl

end GatewayStack.Fields

namespace GatewayStack.Json

open Fields

/-! ## Merging objects -/

theorem keys_mergeFields (older newer : Fields Json) :
    keys (mergeFields older newer)
      = FirstSeen.union (keys older) (keys newer) := by
  induction newer generalizing older with
  | nil => rfl
  | cons entry rest ih =>
      rw [mergeFields, ih, keys_set_eq_add]
      rfl

theorem get?_mergeFields_of_not_mem {older newer : Fields Json} {name : String}
    (h : name ∉ keys newer) : get? (mergeFields older newer) name
    = get? older name := by
  induction newer generalizing older with
  | nil => rfl
  | cons entry rest ih =>
      rw [keys_cons, List.mem_cons, not_or] at h
      rw [mergeFields, ih h.2, get?_set_of_ne _ _ (Ne.symm h.1)]

/-- With distinct newer names, every name is merged once. -/
theorem get?_mergeFields {older newer : Fields Json} (distinct : Distinct newer)
    (name : String) :
    get? (mergeFields older newer) name
      = Option.merge merge (get? older name) (get? newer name) := by
  induction newer generalizing older with
  | nil => simp [mergeFields]
  | cons entry rest ih =>
      obtain ⟨k, new⟩ := entry
      obtain ⟨fresh, distinct⟩ := List.nodup_cons.mp distinct
      by_cases h : k = name
      · subst h
        rw [mergeFields, get?_mergeFields_of_not_mem fresh, get?_set_self]
        cases hold : get? older k <;> simp [get?]
      · rw [mergeFields, ih distinct, get?_set_of_ne _ _ h]
        simp [get?, h]

/-- A first field that the newer object does not mention stays first. -/
theorem mergeFields_cons_of_not_mem {older newer : Fields Json} {name : String}
    {value : Json} (h : name ∉ keys newer) :
    mergeFields ((name, value) :: older) newer
      = (name, value) :: mergeFields older newer := by
  induction newer generalizing older with
  | nil => rfl
  | cons entry rest ih =>
      obtain ⟨k, new⟩ := entry
      rw [keys_cons, List.mem_cons, not_or] at h
      rw [mergeFields, mergeFields, ← ih h.2]
      simp only [get?, Fields.set, if_neg h.1]

end GatewayStack.Json
