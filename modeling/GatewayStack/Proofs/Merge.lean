import GatewayStack.Proofs.Fields

/-!
# What a merge leaves at the end of a path

A merge is asked about by paths of names. `LaidOver old value result` says of
three values, at every path at once, that `result` is `value` put over `old`:
what `value` has there takes effect, and what `result` has besides is what `old`
had at the same path. The four constructors of `Laid` are the four ways in which
one path can go.

Merging one value over another is of that kind (`laidOver_merge`), and merging
one more value into both sides keeps it so (`LaidOver.merge`). The second fact
is the one with weight. A merge is not associative, since a plain value in
between cuts off whatever is below it, so several merges over an old value are
not one merge of their sum. They are still laid over it.

Look-ups take the first field of a name and a merge runs through all of them, so
both facts need the newer value to be `Keyed`. The older one may be anything.

What several merges leave of nothing is left as it is by the same merges in the
same order (`mergeOnto_twice`), whatever their values are to each other.

A single merge of two mappings is written out as a list in the end
(`mergeFields_eq`): what the older one has, in its places, and behind it what
only the newer one has.
-/

namespace GatewayStack.Json

/-- What stands at the end of a path of names. -/
def at? : Json → List String → Option Json
  | value, [] => some value
  | value, name :: path => (value.field? name).bind fun inner => inner.at? path

/-- No mapping that names lead to has a name twice. -/
def Keyed (value : Json) : Prop :=
  ∀ path fields, value.at? path = some (.obj fields) → Fields.Distinct fields

@[simp] theorem at?_nil (value : Json) : value.at? [] = some value := rfl

theorem at?_cons (value : Json) (name : String) (path : List String) :
    value.at? (name :: path)
      = (value.field? name).bind fun inner => inner.at? path := rfl

@[simp] theorem field?_obj (fields : Fields Json) (name : String) :
    (Json.obj fields).field? name = Fields.get? fields name := rfl

theorem field?_of_plain {value : Json} (plain : value.fields? = none)
    (name : String) :
    value.field? name = none := by
  rw [field?, plain]
  rfl

theorem at?_cons_of_plain {value : Json} (plain : value.fields? = none)
    (name : String) (path : List String) : value.at? (name :: path) = none := by
  rw [at?_cons, field?_of_plain plain]
  rfl

theorem at?_append (value : Json) (front path : List String) :
    value.at? (front ++ path)
      = (value.at? front).bind fun inner => inner.at? path := by
  induction front generalizing value with
  | nil => rfl
  | cons name front ih =>
      rw [List.cons_append, at?_cons, at?_cons, Option.bind_assoc]
      simp only [ih]

/-- A value is a mapping, or it is plain. -/
theorem plain_or_obj (value : Json) : value.fields? = none ∨ ∃ fields,
    value = .obj fields := by
  cases value <;> simp [fields?]

/-! ## Values without repeated names -/

theorem keyed_of_plain {value : Json} (plain : value.fields? = none) :
    Keyed value := by
  intro path fields h
  cases path with
  | nil =>
      rw [Option.some.inj h] at plain
      cases plain
  | cons name path =>
      rw [at?_cons_of_plain plain] at h
      cases h

@[simp] theorem keyed_str (s : String) : Keyed (.str s) := keyed_of_plain rfl

@[simp] theorem keyed_bool (b : Bool) : Keyed (.bool b) := keyed_of_plain rfl

@[simp] theorem keyed_arr (items : List Json) : Keyed (.arr items) :=
  keyed_of_plain rfl

theorem keyed_obj {fields : Fields Json} (distinct : Fields.Distinct fields)
    (h : ∀ entry ∈ fields, Keyed entry.2) : Keyed (.obj fields) := by
  intro path inner hinner
  cases path with
  | nil =>
      cases hinner
      exact distinct
  | cons name path =>
      obtain ⟨value, hvalue, hinner⟩ := Option.bind_eq_some_iff.mp hinner
      exact h _ (Fields.mem_of_get? hvalue) path inner hinner

theorem Keyed.distinct {fields : Fields Json} (h : Keyed (.obj fields)) :
    Fields.Distinct fields := h [] fields rfl

theorem Keyed.at? {value inner : Json} {path : List String} (h : Keyed value)
    (hinner : value.at? path = some inner) : Keyed inner := by
  intro rest fields hfields
  refine h (path ++ rest) fields ?_
  rw [at?_append, hinner]
  exact hfields

theorem Keyed.get? {fields : Fields Json} {name : String} {value : Json}
    (h : Keyed (.obj fields)) (hvalue : Fields.get? fields name = some value) :
    Keyed value := by
  have hpath : (Json.obj fields).at? [name] = some value := by
    rw [at?_cons, field?_obj, hvalue]
    rfl
  exact h.at? hpath

/-! ## One value over another -/

/-- How an old value, a newer one and the two put together go along at one path:
the newer one decides by a plain value or has a mapping, or else there is what
was there before or nothing. -/
inductive Laid : Option Json → Option Json → Option Json → Prop
  | plain {old : Option Json} {value : Json} (plain : value.fields? = none) :
      Laid old (some value) (some value)
  | mapping {old : Option Json} {fields more : Fields Json} :
      Laid old (some (.obj fields)) (some (.obj more))
  | left {value : Json} : Laid (some value) none (some value)
  | absent {old : Option Json} : Laid old none none

/-- The result is the value put over the old one, at every path. -/
def LaidOver (old : Option Json) (value result : Json) : Prop :=
  ∀ path, Laid (old.bind fun before => before.at? path) (value.at? path)
    (result.at? path)

theorem laid_self (old value : Option Json) : Laid old value value := by
  cases value with
  | none => exact .absent
  | some value =>
      rcases plain_or_obj value with plain | ⟨fields, rfl⟩
      · exact .plain plain
      · exact .mapping

theorem laidOver_self (old : Option Json) (value : Json) :
    LaidOver old value value :=
  fun _ => laid_self _ _

theorem merge_of_plain {new : Json} (old : Json) (plain : new.fields? = none) :
    merge old new = new := by
  cases new with
  | obj fields => cases plain
  | _ => rw [merge]; simp

theorem merge_onto_plain {old : Json} (new : Json)
    (plain : old.fields? = none) : merge old new = new := by
  rcases plain_or_obj new with hnew | ⟨newer, rfl⟩
  · exact merge_of_plain old hnew
  · cases old with
    | obj fields => cases plain
    | _ => rw [merge]; simp

theorem merge_obj (older newer : Fields Json) :
    merge (.obj older) (.obj newer) = .obj (mergeFields older newer) := by
  rw [merge]

theorem field?_merge_obj {older newer : Fields Json}
    (distinct : Fields.Distinct newer) (name : String) :
    (merge (.obj older) (.obj newer)).field? name
      = Option.merge merge (Fields.get? older name)
        (Fields.get? newer name) := by
  rw [merge_obj, field?_obj, get?_mergeFields distinct]

/-- At the top two mappings make a mapping, and anything else is replaced. -/
theorem laid_merge_nil {old : Option Json} (before new : Json) :
    Laid old (some new) (some (merge before new)) := by
  rcases plain_or_obj new with plain | ⟨newer, rfl⟩
  · rw [merge_of_plain before plain]
    exact laid_self _ _
  · rcases plain_or_obj before with plain | ⟨older, rfl⟩
    · rw [merge_onto_plain _ plain]
      exact laid_self _ _
    · rw [merge_obj]
      exact .mapping

theorem laidOver_merge (old : Json) {new : Json} (keyed : Keyed new) :
    LaidOver (some old) new (merge old new) := by
  intro path
  induction path generalizing old new with
  | nil => exact laid_merge_nil old new
  | cons name path ih =>
      rcases plain_or_obj new with plain | ⟨newer, rfl⟩
      · rw [merge_of_plain old plain]
        exact laid_self _ _
      rcases plain_or_obj old with plain | ⟨older, rfl⟩
      · rw [merge_onto_plain _ plain]
        exact laid_self _ _
      rw [Option.bind_some, at?_cons, at?_cons, at?_cons,
        field?_merge_obj keyed.distinct, field?_obj, field?_obj]
      cases hnew : Fields.get? newer name with
      | none =>
          rw [Option.merge_none_right]
          cases hold : (Fields.get? older name).bind
              fun inner => inner.at? path with
          | none => exact .absent
          | some value => exact .left
      | some new =>
          cases hold : Fields.get? older name with
          | none => exact laid_self _ _
          | some old => exact ih old (keyed.get? hnew)

/-! ## One more value over both -/

namespace LaidOver

variable {old : Option Json} {value result : Json}

/-- A plain value leaves nothing of what it is laid over. -/
theorem eq_of_plain (h : LaidOver old value result)
    (plain : value.fields? = none) : result = value := by
  have htop := h []
  rw [at?_nil, at?_nil] at htop
  generalize (old.bind fun before => before.at? []) = before at htop
  cases htop with
  | plain _ => rfl
  | mapping => cases plain

theorem exists_obj {fields : Fields Json}
    (h : LaidOver old (.obj fields) result) :
    ∃ more, result = .obj more := by
  have htop := h []
  rw [at?_nil, at?_nil] at htop
  generalize (old.bind fun before => before.at? []) = before at htop
  cases htop with
  | plain plain => cases plain
  | mapping => exact ⟨_, rfl⟩

/-- A field of the value is laid over the old field. -/
theorem field {fields more : Fields Json}
    (h : LaidOver old (.obj fields) (.obj more)) {name : String} {inner : Json}
    (hinner : Fields.get? fields name = some inner) :
    ∃ innerResult, Fields.get? more name = some innerResult ∧
      LaidOver (old.bind fun before => before.field? name) inner
        innerResult := by
  have hname := h [name]
  rw [at?_cons, at?_cons, field?_obj, field?_obj, hinner] at hname
  cases hresult : Fields.get? more name with
  | none =>
      rw [hresult, Option.bind_some, Option.bind_none, at?_nil] at hname
      generalize (old.bind fun before => before.at? [name]) = before at hname
      cases hname
  | some innerResult =>
      refine ⟨innerResult, rfl, fun path => ?_⟩
      have hpath := h (name :: path)
      rw [at?_cons, at?_cons, field?_obj, field?_obj, hinner, hresult] at hpath
      rw [Option.bind_assoc]
      exact hpath

/-- A field that only the result has is the old one. -/
theorem left {fields more : Fields Json}
    (h : LaidOver old (.obj fields) (.obj more)) {name : String} {before : Json}
    (hfields : Fields.get? fields name = none)
    (hmore : Fields.get? more name = some before) :
    (old.bind fun before => before.field? name) = some before := by
  have hname := h [name]
  rw [at?_cons, at?_cons, field?_obj, field?_obj, hfields, hmore] at hname
  have hold : (old.bind fun before => before.at? [name])
      = old.bind fun before => before.field? name := by
    cases old <;> simp [at?_cons]
  rw [hold] at hname
  generalize (old.bind fun before => before.field? name) = found at hname
  cases hname
  rfl

theorem merge (h : LaidOver old value result) {new : Json} (keyed : Keyed new) :
    LaidOver old (Json.merge value new) (Json.merge result new) := by
  intro path
  induction path generalizing old value result new with
  | nil =>
      rw [at?_nil, at?_nil]
      rcases plain_or_obj value with plain | ⟨fields, rfl⟩
      · rw [h.eq_of_plain plain]
        exact laid_self _ _
      · obtain ⟨more, rfl⟩ := h.exists_obj
        rcases plain_or_obj new with plain | ⟨newer, rfl⟩
        · rw [merge_of_plain _ plain, merge_of_plain _ plain]
          exact laid_self _ _
        · rw [merge_obj, merge_obj]
          exact .mapping
  | cons name path ih =>
      rcases plain_or_obj value with plain | ⟨fields, rfl⟩
      · rw [h.eq_of_plain plain]
        exact laid_self _ _
      obtain ⟨more, rfl⟩ := h.exists_obj
      rcases plain_or_obj new with plain | ⟨newer, rfl⟩
      · rw [merge_of_plain _ plain, merge_of_plain _ plain]
        exact laid_self _ _
      have hhere := h (name :: path)
      rw [at?_cons, at?_cons, field?_obj, field?_obj] at hhere
      rw [at?_cons, at?_cons, field?_merge_obj keyed.distinct,
        field?_merge_obj keyed.distinct]
      cases hnew : Fields.get? newer name with
      | none =>
          rw [Option.merge_none_right, Option.merge_none_right]
          exact hhere
      | some new =>
          cases hvalue : Fields.get? fields name with
          | none =>
              -- The newer value is the first to have the name; the result may
              -- have had it of old.
              cases hresult : Fields.get? more name with
              | none => exact laid_self _ _
              | some before =>
                  have hpath := laidOver_merge before (keyed.get? hnew) path
                  rw [← h.left hvalue hresult, Option.bind_assoc] at hpath
                  exact hpath
          | some inner =>
              obtain ⟨innerResult, hresult, hfield⟩ := h.field hvalue
              have hpath := ih hfield (keyed.get? hnew)
              rw [Option.bind_assoc] at hpath
              rw [hresult]
              exact hpath

end LaidOver

/-! ## Several values, one after the other -/

/-- What is there once some versions of it have been merged in, one by one. -/
def mergeOnto (old : Option Json) (versions : List Json) : Option Json :=
  versions.foldl (fun merged version =>
    Option.merge merge merged (some version)) old

theorem mergeOnto_cons (old : Option Json) (version : Json)
    (versions : List Json) :
    mergeOnto old (version :: versions)
      = mergeOnto (Option.merge merge old (some version)) versions := rfl

theorem LaidOver.mergeOnto {old : Option Json} {value result : Json}
    {versions : List Json} (h : LaidOver old value result)
    (keyed : ∀ version ∈ versions, Keyed version) :
    ∃ last lastResult, Json.mergeOnto (some value) versions = some last ∧
      Json.mergeOnto (some result) versions = some lastResult ∧
      LaidOver old last lastResult := by
  induction versions generalizing value result with
  | nil => exact ⟨value, result, rfl, rfl, h⟩
  | cons version versions ih =>
      obtain ⟨hversion, hversions⟩ := List.forall_mem_cons.mp keyed
      exact ih (h.merge hversion) hversions

/-- Versions merged onto something old are laid over it. -/
theorem laidOver_mergeOnto {versions : List Json} (nonempty : versions ≠ [])
    (keyed : ∀ version ∈ versions, Keyed version) (old : Option Json) :
    ∃ value result, mergeOnto none versions = some value ∧
      mergeOnto old versions = some result ∧ LaidOver old value result := by
  cases versions with
  | nil => exact absurd rfl nonempty
  | cons version versions =>
      obtain ⟨hversion, hversions⟩ := List.forall_mem_cons.mp keyed
      simp only [mergeOnto_cons, Option.merge_none_left]
      cases old with
      | none => exact (laidOver_self none version).mergeOnto hversions
      | some old => exact (laidOver_merge old hversion).mergeOnto hversions

/-! ## Several mappings, one after the other -/

/-- A mapping with the entries of other ones folded in. -/
def mergeEach (older : Fields Json) (newer : List (Fields Json)) :
    Fields Json :=
  newer.foldl mergeFields older

theorem mergeEach_cons (older first : Fields Json) (rest : List (Fields Json)) :
    mergeEach older (first :: rest)
      = mergeEach (mergeFields older first) rest := rfl

theorem keys_mergeEach (older : Fields Json) (newer : List (Fields Json)) :
    Fields.keys (mergeEach older newer)
      = FirstSeen.union (Fields.keys older) (newer.flatMap Fields.keys) := by
  induction newer generalizing older with
  | nil => rfl
  | cons first rest ih =>
      rw [mergeEach_cons, ih, keys_mergeFields, List.flatMap_cons,
        FirstSeen.union_append]

theorem get?_mergeEach {older : Fields Json} {newer : List (Fields Json)}
    (distinct : ∀ fields ∈ newer, Fields.Distinct fields) (name : String) :
    Fields.get? (mergeEach older newer) name
      = mergeOnto (Fields.get? older name)
          (newer.filterMap fun fields => Fields.get? fields name) := by
  induction newer generalizing older with
  | nil => rfl
  | cons first rest ih =>
      obtain ⟨hfirst, hrest⟩ := List.forall_mem_cons.mp distinct
      rw [mergeEach_cons, ih hrest, get?_mergeFields hfirst,
        List.filterMap_cons]
      cases Fields.get? first name with
      | none => rw [Option.merge_none_right]
      | some value => rw [mergeOnto_cons]

theorem get?_mergeEach_cons {first : Fields Json} {rest : List (Fields Json)}
    (distinct : ∀ fields ∈ rest, Fields.Distinct fields) (name : String) :
    Fields.get? (mergeEach first rest) name
      = mergeOnto none ((first :: rest).filterMap fun fields =>
        Fields.get? fields name) := by
  rw [get?_mergeEach distinct, List.filterMap_cons]
  cases Fields.get? first name <;> rfl

theorem mergeOnto_map_obj (older : Fields Json) (newer : List (Fields Json)) :
    mergeOnto (some (.obj older)) (newer.map Json.obj)
      = some (.obj (mergeEach older newer)) := by
  induction newer generalizing older with
  | nil => rfl
  | cons first rest ih =>
      rw [List.map_cons, mergeOnto_cons, Option.merge_some_some, merge_obj, ih,
        mergeEach_cons]

theorem plain_or_map_obj (versions : List Json) :
    (∃ version ∈ versions, version.fields? = none) ∨
      ∃ newer : List (Fields Json), versions = newer.map Json.obj := by
  induction versions with
  | nil => exact Or.inr ⟨[], rfl⟩
  | cons version rest ih =>
      rcases plain_or_obj version with plain | ⟨fields, rfl⟩
      · exact Or.inl ⟨version, List.mem_cons_self, plain⟩
      rcases ih with ⟨found, hmem, plain⟩ | ⟨newer, rfl⟩
      · exact Or.inl ⟨found, List.mem_cons_of_mem _ hmem, plain⟩
      · exact Or.inr ⟨fields :: newer, rfl⟩

/-- A field of several mappings merged is what they have under its
name, merged. -/
theorem field?_mergeOnto_obj {versions : List Json}
    (h : ∀ version ∈ versions, ∃ fields, version = .obj fields ∧
      Fields.Distinct fields)
    (name : String) :
    ((mergeOnto none versions).bind fun merged => merged.field? name)
      = mergeOnto none (versions.filterMap fun version =>
        version.field? name) := by
  obtain ⟨newer, rfl⟩ : ∃ newer : List (Fields Json),
      versions = newer.map Json.obj := by
    refine (plain_or_map_obj versions).resolve_left
      fun ⟨version, hmem, plain⟩ => ?_
    obtain ⟨fields, rfl, -⟩ := h version hmem
    cases plain
  cases newer with
  | nil => rfl
  | cons first rest =>
      have distinct : ∀ fields ∈ rest, Fields.Distinct fields := by
        intro fields hmem
        obtain ⟨_, heq, hdistinct⟩ :=
          h _ (List.mem_map_of_mem (List.mem_cons_of_mem _ hmem))
        cases heq
        exact hdistinct
      have hmerged : mergeOnto none ((first :: rest).map Json.obj)
          = some (.obj (mergeEach first rest)) := mergeOnto_map_obj first rest
      rw [hmerged, Option.bind_some, field?_obj, get?_mergeEach_cons distinct,
        List.filterMap_map]
      rfl

/-! ## The same values a second time -/

/-- After a plain value nothing is left of what was there before. -/
theorem mergeOnto_of_plain {versions : List Json}
    (h : ∃ version ∈ versions, version.fields? = none) (a b : Option Json) :
    mergeOnto a versions = mergeOnto b versions := by
  induction versions generalizing a b with
  | nil =>
      obtain ⟨version, hmem, -⟩ := h
      cases hmem
  | cons version rest ih =>
      obtain ⟨found, hmem, plain⟩ := h
      rw [mergeOnto_cons, mergeOnto_cons]
      rcases List.mem_cons.mp hmem with rfl | hmem
      · have replaced (old : Option Json) : Option.merge merge old (some found)
            = some found := by
          cases old with
          | none => rfl
          | some old => exact congrArg some (merge_of_plain old plain)
        rw [replaced, replaced]
      · exact ih ⟨found, hmem, plain⟩ _ _

/-- Mappings can be folded in twice if what they have under each name can. -/
theorem mergeEach_twice {first : Fields Json} {rest : List (Fields Json)}
    (distinct : ∀ fields ∈ first :: rest, Fields.Distinct fields)
    (h : ∀ name, let found := (first :: rest).filterMap fun fields =>
      Fields.get? fields name
      mergeOnto (mergeOnto none found) found = mergeOnto none found) :
    mergeEach (mergeEach first rest) (first :: rest)
      = mergeEach first rest := by
  obtain ⟨hfirst, hrest⟩ := List.forall_mem_cons.mp distinct
  have hkeys : Fields.keys (mergeEach (mergeEach first rest) (first :: rest))
      = Fields.keys (mergeEach first rest) := by
    rw [keys_mergeEach]
    refine FirstSeen.union_eq_self fun name hname => ?_
    rw [keys_mergeEach, FirstSeen.mem_union]
    rwa [List.flatMap_cons, List.mem_append] at hname
  refine (Fields.eq_of_get? ?_ hkeys.symm fun name => ?_).symm
  · unfold Fields.Distinct
    rw [keys_mergeEach]
    exact FirstSeen.nodup_union hfirst
  · rw [get?_mergeEach distinct, get?_mergeEach_cons hrest]
    exact (h name).symm

theorem sizeOf_lt_of_get? {fields : Fields Json} {name : String} {value : Json}
    (h : Fields.get? fields name = some value) :
    sizeOf value < sizeOf (Json.obj fields) := by
  have hentry := List.sizeOf_lt_of_mem (Fields.mem_of_get? h)
  rw [Prod.mk.sizeOf_spec] at hentry
  rw [obj.sizeOf_spec]
  omega

/-- Merging the same values in again, in the same order, changes
nothing. A single one of them may well change something that those
behind it change back. -/
theorem mergeOnto_twice {versions : List Json}
    (keyed : ∀ version ∈ versions, Keyed version) :
    mergeOnto (mergeOnto none versions) versions = mergeOnto none versions := by
  -- By induction on a bound on the sizes: the values under one name are
  -- smaller.
  suffices h : ∀ size versions, (∀ version ∈ versions, sizeOf version < size) →
      (∀ version ∈ versions, Keyed version) →
        mergeOnto (mergeOnto none versions) versions
          = mergeOnto none versions from
    h _ versions (fun version => List.sizeOf_lt_of_mem) keyed
  intro size
  induction size with
  | zero =>
      intro versions small keyed
      have empty : versions = [] :=
        List.eq_nil_iff_forall_not_mem.mpr fun version hmem =>
          Nat.not_lt_zero _ (small version hmem)
      rw [empty]
      rfl
  | succ size ih =>
      intro versions small keyed
      rcases plain_or_map_obj versions with plain | ⟨newer, rfl⟩
      · exact mergeOnto_of_plain plain _ _
      cases newer with
      | nil => rfl
      | cons first rest =>
          obtain ⟨small, keyed⟩ := And.intro (List.forall_mem_map.mp small)
            (List.forall_mem_map.mp keyed)
          have honce : mergeOnto none ((first :: rest).map Json.obj)
              = some (.obj (mergeEach first rest)) :=
            mergeOnto_map_obj first rest
          rw [honce, mergeOnto_map_obj]
          refine congrArg (fun fields => some (obj fields)) (mergeEach_twice
            (fun fields hmem => (keyed fields hmem).distinct)
            fun name => ih _ ?_ ?_)
          · intro value hvalue
            obtain ⟨fields, hmem, hget⟩ := List.mem_filterMap.mp hvalue
            exact Nat.lt_of_lt_of_le (sizeOf_lt_of_get? hget)
              (Nat.le_of_lt_succ (small fields hmem))
          · intro value hvalue
            obtain ⟨fields, hmem, hget⟩ := List.mem_filterMap.mp hvalue
            exact (keyed fields hmem).get? hget

/-! ## A merge written out -/

/-- What is merged into the entry of an older mapping. -/
def updated (newer : Fields Json) (entry : String × Json) : String × Json :=
  match Fields.get? newer entry.1 with
  | some new => (entry.1, merge entry.2 new)
  | none => entry

theorem updated_of_not_mem {newer : Fields Json} {entry : String × Json}
    (h : entry.1 ∉ Fields.keys newer) : updated newer entry = entry := by
  rw [updated, Fields.get?_eq_none_iff.mpr h]

theorem updated_cons_of_ne {name : String} {new : Json} {rest : Fields Json}
    {entry : String × Json} (h : name ≠ entry.1) :
    updated ((name, new) :: rest) entry = updated rest entry := by
  rw [updated, Fields.get?, if_neg h, updated]

theorem updated_cons_self {name : String} {new value : Json}
    {rest : Fields Json} :
    updated ((name, new) :: rest) (name, value) = (name, merge value new) := by
  rw [updated, Fields.get?, if_pos rfl]

/-- The older entries stay in place, each with what is merged into it, and what
is new follows in its own order. -/
theorem mergeFields_eq {older newer : Fields Json}
    (distinct : Fields.Distinct older) (hnewer : Fields.Distinct newer) :
      mergeFields older newer = older.map (updated newer) ++
        newer.filter fun entry => entry.1 ∉ Fields.keys older := by
  -- The first of the newer entries goes behind the older ones or into one of
  -- them. The rest does not have its name again, and so leaves it as it is.
  induction newer generalizing older with
  | nil =>
      rw [mergeFields, List.filter_nil, List.append_nil]
      exact (List.map_id older).symm
  | cons entry rest ih =>
      obtain ⟨name, new⟩ := entry
      obtain ⟨fresh, hrest⟩ := List.nodup_cons.mp hnewer
      rw [mergeFields]
      cases hold : Fields.get? older name with
      | none =>
          have habsent := Fields.get?_eq_none_iff.mp hold
          have hsame : older.map (updated rest)
              = older.map (updated ((name, new) :: rest)) := by
            refine List.map_congr_left fun entry hentry =>
              (updated_cons_of_ne fun heq => ?_).symm
            exact habsent (heq ▸ Fields.mem_keys_of_mem hentry)
          have hlate : (rest.filter fun entry =>
              entry.1 ∉ Fields.keys older ++ [name])
                = rest.filter fun entry => entry.1 ∉ Fields.keys older := by
            refine List.filter_congr fun entry hentry => ?_
            have hne : entry.1 ≠ name := fun heq =>
              fresh (heq ▸ Fields.mem_keys_of_mem hentry)
            simp [hne]
          show mergeFields (Fields.set older name new) rest = _
          rw [Fields.set_of_not_mem habsent,
            ih (Fields.distinct_concat distinct habsent new) hrest,
            Fields.keys_concat, hlate, List.map_append, hsame,
            List.map_singleton, updated_of_not_mem fresh, List.append_assoc,
            List.filter_cons_of_pos (by simpa using habsent)]
          rfl
      | some old =>
          have hmem := Fields.mem_keys_of_mem (Fields.mem_of_get? hold)
          have hkeys : Fields.keys (Fields.set older name (merge old new))
              = Fields.keys older := by
            rw [Fields.keys_set, if_pos hmem]
          have hdistinct : Fields.Distinct
              (Fields.set older name (merge old new)) := by
            unfold Fields.Distinct
            rwa [hkeys]
          show mergeFields (Fields.set older name (merge old new)) rest = _
          rw [ih hdistinct hrest, hkeys, Fields.set_of_mem distinct hmem,
            List.map_map, List.filter_cons_of_neg (by simpa using hmem)]
          refine congrArg (· ++ _) (List.map_congr_left fun entry hentry => ?_)
          obtain ⟨k, v⟩ := entry
          by_cases hk : k = name
          · subst hk
            rw [Fields.get?_of_mem distinct hentry] at hold
            obtain rfl := Option.some.inj hold
            rw [updated_cons_self]
            show updated rest (if k = k then _ else _) = _
            rw [if_pos rfl]
            exact updated_of_not_mem fresh
          · rw [updated_cons_of_ne (Ne.symm hk)]
            show updated rest (if k = name then _ else _) = _
            rw [if_neg hk]

/-- What is set among the older entries and not touched by the newer ones is set
in the result. -/
theorem mergeFields_set_older {older newer : Fields Json} {name : String}
    (value : Json) (hmem : name ∈ Fields.keys older)
    (fresh : name ∉ Fields.keys newer) :
    mergeFields (Fields.set older name value) newer
      = Fields.set (mergeFields older newer) name value := by
  induction newer generalizing older with
  | nil => rfl
  | cons entry rest ih =>
      obtain ⟨k, new⟩ := entry
      obtain ⟨hne, hrest⟩ := not_or.mp fun h => fresh (List.mem_cons.mpr h)
      have hkept (merged : Json) :
          name ∈ Fields.keys (Fields.set older k merged) := by
        rw [Fields.keys_set_eq_add, FirstSeen.mem_add]
        exact Or.inl hmem
      rw [mergeFields, mergeFields, Fields.get?_set_of_ne _ _ hne]
      rw [Fields.set_comm hne hmem, ih (hkept _) hrest]

theorem mergeFields_cons_plain {older rest : Fields Json} {name : String}
    {value : Json} (plain : value.fields? = none) :
    mergeFields older ((name, value) :: rest)
      = mergeFields (Fields.set older name value) rest := by
  rw [mergeFields]
  cases Fields.get? older name with
  | none => rfl
  | some old =>
      exact congrArg (fun merged =>
        mergeFields (Fields.set older name merged) rest)
        (merge_of_plain old plain)

theorem mergeFields_singleton {older : Fields Json} {name : String}
    (value : Json) (fresh : name ∉ Fields.keys older) :
    mergeFields older [(name, value)] = older ++ [(name, value)] := by
  rw [mergeFields, mergeFields, Fields.get?_eq_none_iff.mpr fresh,
    Fields.set_of_not_mem fresh]

/-- A plain value that is set in the newer mapping is set in the result. -/
theorem mergeFields_set {older newer : Fields Json} {name : String}
    {value : Json} (plain : value.fields? = none)
    (distinct : Fields.Distinct newer) (hmem : name ∈ Fields.keys newer) :
    mergeFields older (Fields.set newer name value)
      = Fields.set (mergeFields older newer) name value := by
  induction newer generalizing older with
  | nil => cases hmem
  | cons entry rest ih =>
      obtain ⟨k, new⟩ := entry
      obtain ⟨fresh, distinct⟩ := List.nodup_cons.mp distinct
      by_cases hk : k = name
      · subst hk
        have hset (merged : Json) :
            k ∈ Fields.keys (Fields.set older k merged) := by
          rw [Fields.keys_set_eq_add, FirstSeen.mem_add]
          exact Or.inr rfl
        rw [Fields.set, if_pos rfl, mergeFields_cons_plain plain, mergeFields,
          ← mergeFields_set_older _ (hset _) fresh, Fields.set_set]
      · have hrest : name ∈ Fields.keys rest :=
          (List.mem_cons.mp hmem).resolve_left (Ne.symm hk)
        rw [Fields.set, if_neg hk, mergeFields, mergeFields, ih distinct hrest]

end GatewayStack.Json
