import GatewayStack.Proofs.Merge

/-!
# A merge, path by path

What two values merge to is told here without any recursion, by what they have
at the end of every path of names: a plain value of the newer one stands, a
mapping of it stands where the older one has none, two mappings make one with
the names of both, and a path that leaves the newer one leads to what the older
one has. The four cases are the fields of `Merged`, and they leave no freedom:
the merge is the only value of which all of them hold (`merged_iff`).

That they hold is an induction on the path, and its step is always the same:
below a name that the newer value has, the merge is either that of the two
values under the name or the newer one alone (`field?_merge`). That nothing
else fits is an induction on the newer value. Merging the same value a second
time then needs no induction of its own, because the merge is itself what the
four cases ask for.
-/

namespace GatewayStack.Json

/-- The result has of a newer value everything, and of an older one what the
newer does not mention. -/
structure Merged (older newer result : Json) : Prop where
  plain : ∀ path value, newer.at? path = some value → value.fields? = none →
    result.at? path = some value
  fresh : ∀ path fields, newer.at? path = some (.obj fields) →
    (∀ before, older.at? path ≠ some (.obj before)) →
    result.at? path = some (.obj fields)
  mapping : ∀ path before fields, older.at? path = some (.obj before) →
    newer.at? path = some (.obj fields) → ∃ merged,
      result.at? path = some (.obj merged) ∧
      Fields.keys merged = Fields.keys before ++
        (Fields.keys fields).filter fun name => name ∉ Fields.keys before
  untouched : ∀ path before fields name rest,
    older.at? path = some (.obj before) →
    newer.at? path = some (.obj fields) → name ∉ Fields.keys fields →
      result.at? (path ++ name :: rest) = older.at? (path ++ name :: rest)

variable {older newer result : Json}

/-! ## One name down -/

theorem exists_obj_of_field? {value inner : Json} {name : String}
    (h : value.field? name = some inner) :
    ∃ fields, value = .obj fields ∧ Fields.get? fields name = some inner := by
  rcases plain_or_obj value with plain | ⟨fields, rfl⟩
  · rw [field?_of_plain plain] at h
    cases h
  · exact ⟨fields, rfl, h⟩

theorem exists_field_of_at? {value inner : Json} {name : String}
    {path : List String} (h : value.at? (name :: path) = some inner) :
    ∃ field, value.field? name = some field ∧ field.at? path = some inner :=
  Option.bind_eq_some_iff.mp h

theorem Keyed.field {value inner : Json} {name : String} (keyed : value.Keyed)
    (h : value.field? name = some inner) : inner.Keyed := by
  obtain ⟨fields, rfl, hget⟩ := exists_obj_of_field? h
  exact keyed.get? hget

/-- Under a name of the newer value, the two values there are merged. -/
theorem field?_merge (keyed : newer.Keyed) {name : String} {new : Json}
    (h : newer.field? name = some new) :
    (merge older newer).field? name
      = Option.merge merge (older.field? name) (some new) := by
  obtain ⟨fields, rfl, hget⟩ := exists_obj_of_field? h
  rcases plain_or_obj older with plain | ⟨before, rfl⟩
  · rw [merge_onto_plain _ plain, field?_of_plain plain, Option.merge_none_left]
    exact h
  · rw [field?_merge_obj keyed.distinct, hget, field?_obj]

/-- Under a name that the newer mapping does not have, the older one
is left alone. -/
theorem field?_merge_of_not_mem {before fields : Fields Json} {name : String}
    (h : name ∉ Fields.keys fields) :
    (merge (.obj before) (.obj fields)).field? name
      = (Json.obj before).field? name := by
  rw [merge_obj, field?_obj, field?_obj, get?_mergeFields_of_not_mem h]

theorem keys_updated (fields : Fields Json) (entry : String × Json) :
    (updated fields entry).1 = entry.1 := by
  unfold updated
  split <;> rfl

theorem distinct_mergeFields {before : Fields Json}
    (distinct : Fields.Distinct before) (fields : Fields Json) :
    Fields.Distinct (mergeFields before fields) := by
  rw [Fields.Distinct, keys_mergeFields]
  exact FirstSeen.nodup_union distinct

/-- The names of the older mapping keep their order, and the new ones
follow in theirs. -/
theorem keys_mergeFields_of_distinct {before fields : Fields Json}
    (distinct : Fields.Distinct before) (hfields : Fields.Distinct fields) :
    Fields.keys (mergeFields before fields) = Fields.keys before ++
      (Fields.keys fields).filter fun name => name ∉ Fields.keys before := by
  have hkept : (before.map (updated fields)).map Prod.fst
      = before.map Prod.fst := by
    rw [List.map_map]
    exact List.map_congr_left fun entry _ => keys_updated fields entry
  have hnew : (fields.filter fun entry =>
      entry.1 ∉ Fields.keys before).map Prod.fst
      = (fields.map Prod.fst).filter fun name => name ∉ Fields.keys before := by
    rw [List.filter_map]
    rfl
  rw [mergeFields_eq distinct hfields, Fields.keys,
    List.map_append, hkept, hnew]
  rfl

/-! ## The merge has what is asked for -/

theorem at?_merge_of_plain (keyed : newer.Keyed) {path : List String}
    {value : Json} (h : newer.at? path = some value)
    (plain : value.fields? = none) :
    (merge older newer).at? path = some value := by
  induction path generalizing older newer with
  | nil =>
      obtain rfl := Option.some.inj h
      exact congrArg some (merge_of_plain older plain)
  | cons name path ih =>
      obtain ⟨new, hnew, hpath⟩ := exists_field_of_at? h
      rw [at?_cons, field?_merge keyed hnew]
      cases older.field? name with
      | none => exact hpath
      | some old => exact ih (keyed.field hnew) hpath

theorem at?_merge_of_fresh (keyed : newer.Keyed) {path : List String}
    {fields : Fields Json} (h : newer.at? path = some (.obj fields))
    (absent : ∀ before, older.at? path ≠ some (.obj before)) :
    (merge older newer).at? path = some (.obj fields) := by
  induction path generalizing older newer with
  | nil =>
      obtain rfl := Option.some.inj h
      rcases plain_or_obj older with plain | ⟨before, rfl⟩
      · exact congrArg some (merge_onto_plain _ plain)
      · exact absurd rfl (absent before)
  | cons name path ih =>
      obtain ⟨new, hnew, hpath⟩ := exists_field_of_at? h
      rw [at?_cons, field?_merge keyed hnew]
      cases hold : older.field? name with
      | none => exact hpath
      | some old =>
          refine ih (keyed.field hnew) hpath
            fun before hbefore => absent before ?_
          rw [at?_cons, hold]
          exact hbefore

theorem exists_at?_merge (holder : older.Keyed) (hnewer : newer.Keyed)
    {path : List String} {before fields : Fields Json}
    (hbefore : older.at? path = some (.obj before))
    (hfields : newer.at? path = some (.obj fields)) :
    ∃ merged, (merge older newer).at? path = some (.obj merged) ∧
      Fields.keys merged = Fields.keys before ++
        (Fields.keys fields).filter fun name => name ∉ Fields.keys before := by
  induction path generalizing older newer with
  | nil =>
      obtain rfl := Option.some.inj hbefore
      obtain rfl := Option.some.inj hfields
      exact ⟨_, congrArg some (merge_obj before fields),
        keys_mergeFields_of_distinct holder.distinct hnewer.distinct⟩
  | cons name path ih =>
      obtain ⟨old, hold, hbefore⟩ := exists_field_of_at? hbefore
      obtain ⟨new, hnew, hfields⟩ := exists_field_of_at? hfields
      rw [at?_cons, field?_merge hnewer hnew, hold]
      exact ih (holder.field hold) (hnewer.field hnew) hbefore hfields

theorem at?_merge_of_not_mem (keyed : newer.Keyed) {path rest : List String}
    {name : String} {before fields : Fields Json}
    (hbefore : older.at? path = some (.obj before))
    (hfields : newer.at? path = some (.obj fields))
    (h : name ∉ Fields.keys fields) :
    (merge older newer).at? (path ++ name :: rest)
      = older.at? (path ++ name :: rest) := by
  induction path generalizing older newer with
  | nil =>
      obtain rfl := Option.some.inj hbefore
      obtain rfl := Option.some.inj hfields
      rw [List.nil_append, at?_cons, at?_cons, field?_merge_of_not_mem h]
  | cons first path ih =>
      obtain ⟨old, hold, hbefore⟩ := exists_field_of_at? hbefore
      obtain ⟨new, hnew, hfields⟩ := exists_field_of_at? hfields
      rw [List.cons_append, at?_cons, at?_cons, field?_merge keyed hnew, hold]
      exact ih (keyed.field hnew) hbefore hfields

theorem merged_merge (holder : older.Keyed) (hnewer : newer.Keyed) :
    Merged older newer (merge older newer) where
  plain _ _ := at?_merge_of_plain hnewer
  fresh _ _ := at?_merge_of_fresh hnewer
  mapping _ _ _ := exists_at?_merge holder hnewer
  untouched _ _ _ _ _ := at?_merge_of_not_mem hnewer

/-! ## Nothing else has -/

namespace Merged

theorem of_plain (h : Merged older newer result)
    (plain : newer.fields? = none) :
    result = newer := Option.some.inj (h.plain [] newer rfl plain)

theorem of_onto_plain {fields : Fields Json}
    (h : Merged older (.obj fields) result) (plain : older.fields? = none) :
    result = .obj fields := by
  refine Option.some.inj (h.fresh [] fields rfl fun before hbefore => ?_)
  rw [Option.some.inj hbefore] at plain
  cases plain

variable {before fields merged : Fields Json} {name : String}

/-- Under a name of the newer mapping alone there is its value. -/
theorem get?_of_new
    (h : Merged (.obj before) (.obj fields) (.obj merged)) {new : Json}
    (hold : Fields.get? before name = none)
    (hnew : Fields.get? fields name = some new) :
    Fields.get? merged name = some new := by
  have hpath : (Json.obj fields).at? [name] = some new := by
    rw [at?_cons, field?_obj, hnew]; rfl
  have hresult : (Json.obj merged).at? [name] = some new := by
    rcases plain_or_obj new with plain | ⟨inner, rfl⟩
    · exact h.plain [name] new hpath plain
    · refine h.fresh [name] inner hpath fun other hother => ?_
      rw [at?_cons, field?_obj, hold] at hother
      cases hother
  obtain ⟨found, hfound, hsame⟩ := exists_field_of_at? hresult
  rw [← Option.some.inj hsame]
  exact hfound

/-- Under a name that the newer mapping does not have there is what the
older one has. -/
theorem get?_of_old (h : Merged (.obj before) (.obj fields) (.obj merged))
    (hnew : Fields.get? fields name = none) :
    Fields.get? merged name = Fields.get? before name := by
  have hpath := h.untouched [] before fields name
    [] rfl rfl (Fields.get?_eq_none_iff.mp hnew)
  simp only [List.nil_append, at?_cons, field?_obj, at?_nil,
    Option.bind_fun_some] at hpath
  exact hpath

/-- Under a name of both, the three values there are related in the same way. -/
theorem field (h : Merged (.obj before) (.obj fields) (.obj merged))
    {old new inner : Json} (hold : Fields.get? before name = some old)
    (hnew : Fields.get? fields name = some new)
    (hinner : Fields.get? merged name = some inner) : Merged old new inner := by
  have down {all : Fields Json} {value : Json}
      (hget : Fields.get? all name = some value) (path : List String) :
      (Json.obj all).at? (name :: path) = value.at? path := by
    rw [at?_cons, field?_obj, hget]
    rfl
  refine ⟨fun path value => ?_, fun path value => ?_, fun path value more => ?_,
    fun path value more other rest => ?_⟩
  · have hpath := h.plain (name :: path) value
    rwa [down hnew, down hinner] at hpath
  · have hpath := h.fresh (name :: path) value
    rwa [down hnew, down hold, down hinner] at hpath
  · have hpath := h.mapping (name :: path) value more
    rwa [down hnew, down hold, down hinner] at hpath
  · have hpath := h.untouched (name :: path) value more other rest
    rwa [List.cons_append, down hnew, down hold, down hold,
      down hinner] at hpath

theorem eq_merge {older newer result : Json} (h : Merged older newer result)
    (holder : older.Keyed) (hnewer : newer.Keyed) :
    result = merge older newer := by
  rcases plain_or_obj newer with plain | ⟨fields, rfl⟩
  · rw [merge_of_plain older plain]
    exact h.of_plain plain
  rcases plain_or_obj older with plain | ⟨before, rfl⟩
  · rw [merge_onto_plain _ plain]
    exact h.of_onto_plain plain
  obtain ⟨merged, hmerged, hkeys⟩ := h.mapping [] before fields rfl rfl
  obtain rfl := Option.some.inj hmerged
  have hnames := keys_mergeFields_of_distinct holder.distinct hnewer.distinct
  have distinct : Fields.Distinct merged := by
    unfold Fields.Distinct
    rw [hkeys, ← hnames]
    exact distinct_mergeFields holder.distinct fields
  rw [merge_obj]
  refine congrArg obj (Fields.eq_of_get? distinct (hkeys.trans hnames.symm)
    fun name => ?_)
  rw [get?_mergeFields hnewer.distinct]
  cases hnew : Fields.get? fields name with
  | none =>
      rw [Option.merge_none_right]
      exact h.get?_of_old hnew
  | some new =>
      cases hold : Fields.get? before name with
      | none => exact h.get?_of_new hold hnew
      | some old =>
          have hmem : name ∈ Fields.keys merged := by
            rw [hkeys]
            exact List.mem_append_left
              _ (Fields.mem_keys_of_mem (Fields.mem_of_get? hold))
          obtain ⟨inner, hinner⟩ : ∃ inner, Fields.get? merged name
              = some inner :=
            Option.ne_none_iff_exists'.mp fun hnone =>
              Fields.get?_eq_none_iff.mp hnone hmem
          have := sizeOf_lt_of_get? hnew
          have hsame := (h.field hold hnew hinner).eq_merge (holder.get? hold)
            (hnewer.get? hnew)
          rw [hinner, hsame, Option.merge_some_some]
termination_by sizeOf newer

end Merged

/-! ## The same value a second time -/

/-- What the merge has under a name that the newer value does not have is
of the older. -/
theorem field?_of_merge {name : String} {inner : Json}
    (h : newer.field? name = none) (hinner : (merge older newer).field? name
      = some inner) : older.field? name = some inner := by
  rcases plain_or_obj newer with plain | ⟨fields, rfl⟩
  · rw [merge_of_plain older plain, h] at hinner
    cases hinner
  rcases plain_or_obj older with plain | ⟨before, rfl⟩
  · rw [merge_onto_plain _ plain, h] at hinner
    cases hinner
  · rwa [field?_merge_of_not_mem (Fields.get?_eq_none_iff.mp h)] at hinner

theorem distinct_merge (holder : older.Keyed) (hnewer : newer.Keyed)
    {fields : Fields Json} (h : merge older newer = .obj fields) :
    Fields.Distinct fields := by
  rcases plain_or_obj newer with plain | ⟨after, rfl⟩
  · rw [merge_of_plain older plain] at h
    exact hnewer [] fields (congrArg some h)
  rcases plain_or_obj older with plain | ⟨before, rfl⟩
  · rw [merge_onto_plain _ plain] at h
    exact hnewer [] fields (congrArg some h)
  · rw [merge_obj] at h
    rw [← obj.inj h]
    exact distinct_mergeFields holder.distinct after

theorem keyed_merge (holder : older.Keyed) (hnewer : newer.Keyed) :
    (merge older newer).Keyed := by
  intro path fields hfields
  induction path generalizing older newer with
  | nil => exact distinct_merge holder hnewer (Option.some.inj hfields)
  | cons name path ih =>
      obtain ⟨inner, hinner, hpath⟩ := exists_field_of_at? hfields
      cases hnew : newer.field? name with
      | none =>
          exact holder.field (field?_of_merge hnew hinner) path fields hpath
      | some new =>
          rw [field?_merge hnewer hnew] at hinner
          cases hold : older.field? name with
          | none =>
              rw [hold, Option.merge_none_left] at hinner
              exact hnewer.field (hnew.trans hinner) path fields hpath
          | some old =>
              rw [hold, Option.merge_some_some] at hinner
              rw [← Option.some.inj hinner] at hpath
              exact ih (holder.field hold) (hnewer.field hnew) hpath

/-- A value that was merged in already can be merged in again: the result
has all of it. -/
theorem Merged.again (h : Merged older newer result) :
    Merged result newer result where
  plain := h.plain
  fresh path fields hfields absent := by
    by_cases hbefore : ∃ before, older.at? path = some (.obj before)
    · obtain ⟨before, hbefore⟩ := hbefore
      obtain ⟨merged, hmerged, -⟩ :=
        h.mapping path before fields hbefore hfields
      exact absurd hmerged (absent merged)
    · exact absurd (h.fresh path fields hfields (not_exists.mp hbefore))
        (absent fields)
  mapping path merged fields hmerged hfields := by
    have contained : ∀ name ∈ Fields.keys fields,
        name ∈ Fields.keys merged := by
      intro name hname
      by_cases hbefore : ∃ before, older.at? path = some (.obj before)
      · obtain ⟨before, hbefore⟩ := hbefore
        obtain ⟨found, hfound, hkeys⟩ :=
          h.mapping path before fields hbefore hfields
        obtain rfl := obj.inj (Option.some.inj (hmerged.symm.trans hfound))
        rw [hkeys, List.mem_append, List.mem_filter]
        by_cases hold : name ∈ Fields.keys before
        · exact Or.inl hold
        · exact Or.inr ⟨hname, decide_eq_true hold⟩
      · have hfresh := h.fresh path fields hfields (not_exists.mp hbefore)
        obtain rfl := obj.inj (Option.some.inj (hmerged.symm.trans hfresh))
        exact hname
    refine ⟨merged, hmerged, ?_⟩
    rw [List.filter_eq_nil_iff.mpr fun name hname =>
      by simpa using contained name hname, List.append_nil]
  untouched _ _ _ _ _ _ _ _ := rfl

/-- The merge of two values is the one value that has everything of the
newer one and of the older one what the newer does not mention, at every
path and in the order of the names. Merged in a second time, the newer value
changes nothing.

No mapping may repeat a name, and none does in a value that is read from a text
or built by a stage: of a repeated name `get?` finds the first entry and a
merge the last. -/
theorem merged_iff (holder : older.Keyed) (hnewer : newer.Keyed) :
    (∀ result, Merged older newer result ↔ result = merge older newer) ∧
      merge (merge older newer) newer = merge older newer := by
  refine ⟨fun result => ⟨fun h => h.eq_merge holder hnewer, ?_⟩, ?_⟩
  · rintro rfl
    exact merged_merge holder hnewer
  · have again := (merged_merge holder hnewer).again
    exact (again.eq_merge (keyed_merge holder hnewer) hnewer).symm

/-- A list that is replaced and a name that is new, next to what stays. -/
theorem merged_iff_nested :
    let older := obj [("a", .obj [("x", "kept"), ("y", .strings ["p", "q"])]),
      ("b", .bool true)]
    let newer := obj [("a", .obj [("y", .strings ["r"]), ("z", "new")])]
    let result := obj
      [("a", .obj [("x", "kept"), ("y", .strings ["r"]), ("z", "new")]),
      ("b", .bool true)]
    older.Keyed ∧ newer.Keyed ∧ Merged older newer result ∧
    merge result newer = result := by
  intro older newer result
  have inner {first second : String} (hne : first ≠ second) {value more : Json}
      (hvalue : value.Keyed) (hmore : more.Keyed) :
      (obj [(first, value), (second, more)]).Keyed :=
    keyed_obj (by simpa [Fields.Distinct] using hne) (by simp [hvalue, hmore])
  have holder : older.Keyed :=
    inner (by decide) (inner (by decide) (keyed_str _) (keyed_arr _))
      (keyed_bool _)
  have hnewer : newer.Keyed :=
    keyed_obj (by simp [Fields.Distinct])
      (List.forall_mem_singleton.mpr
        (inner (by decide) (keyed_arr _) (keyed_str _)))
  obtain ⟨hmerged, hagain⟩ := merged_iff holder hnewer
  have hresult : merge older newer = result := by decide
  rw [hresult] at hmerged hagain
  exact ⟨holder, hnewer, (hmerged result).mpr rfl, hagain⟩

end GatewayStack.Json
