import GatewayStack.LogicalId
import Mathlib.Data.List.Infix

/-!
# Paths as lists of segments

Cutting a path at its slashes and joining the segments again are inverse to each
other, so a path may be spoken of by its segments. In those terms the parent of
a path is the path without its last segment, and the fragment of a path in an id
is made segment by segment.

The stages of a path are where this is delicate. The walk that lists them puts a
slash in front of a segment only when something is before it, and so it loses
the slashes that a path begins with. For a path that begins with no slash the
stages are the initial runs of segments (`mem_prefixes_iff`). For any path a
stage is such a run with the empty segments in front of it dropped
(`exists_replicate_of_mem_prefixes`).

What a configured path loses at its ends comes first: at most one slash at each
(`exists_append_strip`), and nothing where there is none.
-/

namespace GatewayStack.Path

/-! ## The outer slashes -/

theorem dropLeading_of_head {text : List Char} (h : text.head? ≠ some '/') :
    dropLeading text = text := by
  unfold dropLeading
  split
  · exact absurd rfl h
  · rfl

theorem dropTrailing_cons {rest : List Char} (c : Char) (h : rest ≠ []) :
    dropTrailing (c :: rest) = c :: dropTrailing rest := by
  cases rest with
  | nil => exact absurd rfl h
  | cons d more => simp [dropTrailing]

theorem dropTrailing_concat (text : List Char) :
    dropTrailing (text ++ ['/']) = text := by
  induction text with
  | nil => rfl
  | cons c rest ih =>
      rw [List.cons_append, dropTrailing_cons c
        (List.append_ne_nil_of_right_ne_nil _ (by simp)), ih]

theorem dropTrailing_of_last {text : List Char} (h : text.getLast? ≠ some '/') :
    dropTrailing text = text := by
  induction text with
  | nil => rfl
  | cons c rest ih =>
      by_cases hrest : rest = []
      · subst hrest
        have hc : c ≠ '/' := fun heq => h (congrArg some heq)
        simp [dropTrailing, hc]
      · rw [List.getLast?_cons_of_ne_nil hrest] at h
        rw [dropTrailing_cons c hrest, ih h]

theorem stripChars_concat {text : List Char} (h : text.head? ≠ some '/') :
    stripChars (text ++ ['/']) = text := by
  cases text with
  | nil => rfl
  | cons c rest =>
      unfold stripChars
      have hlead : dropLeading (c :: rest ++ ['/']) = c :: rest ++ ['/'] :=
        dropLeading_of_head h
      rw [hlead, dropTrailing_concat]

theorem exists_append_dropLeading (text : List Char) :
    ∃ front, text = front ++ dropLeading text ∧
    (front = ['/'] ∨ front = [] ∧ text.head? ≠ some '/') := by
  by_cases h : text.head? = some '/'
  · obtain ⟨rest, rfl⟩ := List.head?_eq_some_iff.mp h
    exact ⟨['/'], rfl, Or.inl rfl⟩
  · exact ⟨[], (dropLeading_of_head h).symm, Or.inr ⟨rfl, h⟩⟩

theorem exists_dropTrailing_append (text : List Char) :
    ∃ back, text = dropTrailing text ++ back ∧
    (back = ['/'] ∨ back = [] ∧ (dropTrailing text).getLast? ≠ some '/') := by
  by_cases h : text.getLast? = some '/'
  · obtain ⟨rest, rfl⟩ := List.getLast?_eq_some_iff.mp h
    rw [dropTrailing_concat]
    exact ⟨['/'], rfl, Or.inl rfl⟩
  · rw [dropTrailing_of_last h]
    exact ⟨[], (List.append_nil text).symm, Or.inr ⟨rfl, h⟩⟩

/-- One slash is taken off a path in front and one behind, where there is one,
and nothing else. -/
theorem exists_append_strip (path : String) :
    ∃ front back, path = front ++ strip path ++ back ∧
    (front = "/" ∨ front = "" ∧ path.toList.head? ≠ some '/') ∧
    (back = "/" ∨ back = "" ∧ (strip path).toList.getLast? ≠ some '/') := by
  obtain ⟨front, hfront, leading⟩ := exists_append_dropLeading path.toList
  obtain ⟨back, hback, trailing⟩ :=
    exists_dropTrailing_append (dropLeading path.toList)
  have hstrip : (strip path).toList = dropTrailing (dropLeading path.toList) :=
    String.toList_ofList
  refine ⟨String.ofList front, String.ofList back, ?_, ?_, ?_⟩
  · refine String.toList_inj.mp ?_
    rw [String.toList_append, String.toList_append, String.toList_ofList,
      String.toList_ofList, hstrip, List.append_assoc, ← hback]
    exact hfront
  · exact leading.imp (congrArg String.ofList) fun h =>
      ⟨congrArg String.ofList h.1, h.2⟩
  · rw [hstrip]
    exact trailing.imp (congrArg String.ofList) fun h =>
      ⟨congrArg String.ofList h.1, h.2⟩

/-! ## Segments -/

/-- The path with these segments. -/
def join (parts : List (List Char)) : List Char := List.intercalate ['/'] parts

theorem join_nil : join [] = [] := rfl

theorem join_singleton (part : List Char) : join [part] = part := by
  simp [join, List.intercalate]

theorem join_cons {part : List Char} {more : List (List Char)} (h : more ≠ []) :
    join (part :: more) = part ++ '/' :: join more := by
  obtain ⟨next, rest, rfl⟩ := List.exists_cons_of_ne_nil h
  simp [join, List.intercalate]

theorem join_concat {parts : List (List Char)} (h : parts ≠ [])
    (part : List Char) :
    join (parts ++ [part]) = join parts ++ '/' :: part := by
  induction parts with
  | nil => exact absurd rfl h
  | cons first rest ih =>
      rw [List.cons_append,
        join_cons (List.append_ne_nil_of_right_ne_nil _ (List.cons_ne_nil _ _))]
      by_cases hrest : rest = []
      · rw [hrest, List.nil_append, join_singleton, join_singleton]
      · rw [ih hrest, join_cons hrest, List.append_assoc, List.cons_append]

/-! ## Cutting and joining -/

theorem segments_ne_nil (path : List Char) : segments path ≠ [] := by
  cases path with
  | nil => simp [segments]
  | cons c rest =>
      rw [segments]
      split
      · simp
      · split <;> simp

theorem join_segments (path : List Char) : join (segments path) = path := by
  induction path with
  | nil => rfl
  | cons c rest ih =>
      rw [segments]
      split
      · next hc => rw [join_cons (segments_ne_nil rest), ih, hc,
          List.nil_append]
      · split
        · next h => exact absurd h (segments_ne_nil rest)
        · next segment more h =>
            rw [h] at ih
            by_cases hmore : more = []
            · subst hmore
              rw [join_singleton] at ih ⊢
              rw [ih]
            · rw [join_cons hmore] at ih ⊢
              rw [List.cons_append, ih]

theorem slash_not_mem_of_mem_segments {path segment : List Char}
    (h : segment ∈ segments path) : '/' ∉ segment := by
  induction path generalizing segment with
  | nil => simp_all [segments]
  | cons c rest ih =>
      rw [segments] at h
      split at h
      · rcases List.mem_cons.mp h with rfl | h
        · exact List.not_mem_nil
        · exact ih h
      · next hc =>
          split at h
          · next hnil => exact absurd hnil (segments_ne_nil rest)
          · next first more hmore =>
              rw [hmore] at ih
              rcases List.mem_cons.mp h with rfl | h
              · have := ih List.mem_cons_self
                simp [Ne.symm hc, this]
              · exact ih (List.mem_cons_of_mem _ h)

theorem segments_of_slash_not_mem {part : List Char} (h : '/' ∉ part) :
    segments part = [part] := by
  induction part with
  | nil => rfl
  | cons c rest ih =>
      rw [List.mem_cons, not_or] at h
      rw [segments, if_neg (Ne.symm h.1), ih h.2]

theorem segments_append_slash {part : List Char} (h : '/' ∉ part)
    (rest : List Char) :
    segments (part ++ '/' :: rest) = part :: segments rest := by
  induction part with
  | nil => rw [List.nil_append, segments, if_pos rfl]
  | cons c more ih =>
      rw [List.mem_cons, not_or] at h
      rw [List.cons_append, segments, if_neg (Ne.symm h.1), ih h.2]

theorem segments_join {parts : List (List Char)} (hne : parts ≠ [])
    (h : ∀ part ∈ parts, '/' ∉ part) : segments (join parts) = parts := by
  induction parts with
  | nil => exact absurd rfl hne
  | cons part more ih =>
      have hpart := h part List.mem_cons_self
      by_cases hmore : more = []
      · rw [hmore, join_singleton, segments_of_slash_not_mem hpart]
      · rw [join_cons hmore, segments_append_slash hpart,
          ih hmore fun p hp => h p (List.mem_cons_of_mem _ hp)]

/-! ## Parent and leaf -/

theorem takeWhile_dropWhile_reverse {part : List Char} (h : '/' ∉ part)
    (rest : List Char) :
    (part.reverse ++ rest).takeWhile (· ≠ '/')
      = part.reverse ++ rest.takeWhile (· ≠ '/') ∧
      (part.reverse ++ rest).dropWhile (· ≠ '/')
        = rest.dropWhile (· ≠ '/') := by
  have hall : ∀ c ∈ part.reverse, decide (c ≠ '/') = true := by
    intro c hc
    exact decide_eq_true fun heq => h (heq ▸ List.mem_reverse.mp hc)
  exact ⟨List.takeWhile_append_of_pos hall, List.dropWhile_append_of_pos hall⟩

/-- A path is its parent and its leaf, in terms of segments. -/
theorem exists_segments_concat (path : List Char) :
    ∃ parts, segments path = parts ++ [leaf path] ∧
      parent path = join parts := by
  have hne := segments_ne_nil path
  obtain ⟨parts, last, hsegments⟩ : ∃ parts last,
      segments path = parts ++ [last] :=
    ⟨_, _, (List.dropLast_append_getLast hne).symm⟩
  have hslash : '/' ∉ last :=
    slash_not_mem_of_mem_segments (by rw [hsegments]; simp)
  have hpath : path = join (parts ++ [last]) := by
    rw [← hsegments, join_segments]
  suffices leaf path = last ∧ parent path = join parts by
    exact ⟨parts, by rw [this.1, hsegments], this.2⟩
  unfold leaf parent
  by_cases hparts : parts = []
  · obtain ⟨htake, hdrop⟩ := takeWhile_dropWhile_reverse hslash []
    rw [List.append_nil] at htake hdrop
    subst hparts
    rw [List.nil_append, join_singleton] at hpath
    rw [hpath, htake, hdrop]
    simp [join_nil]
  · obtain ⟨htake, hdrop⟩ :=
      takeWhile_dropWhile_reverse hslash ('/' :: (join parts).reverse)
    have hreverse : path.reverse
        = last.reverse ++ '/' :: (join parts).reverse := by
      rw [hpath, join_concat hparts]
      simp
    rw [hreverse, htake, hdrop]
    simp

theorem slash_not_mem_leaf (path : List Char) : '/' ∉ leaf path := by
  obtain ⟨parts, hsegments, -⟩ := exists_segments_concat path
  exact slash_not_mem_of_mem_segments (by rw [hsegments]; simp)

/-- A path of one segment, with at most one empty segment in front of it, has
nothing above it. -/
theorem parent_eq_nil {path last : List Char} {k : Nat}
    (h : [[], last] = List.replicate k [] ++ segments path) :
    parent path = [] := by
  obtain ⟨parts, hsegments, hparent⟩ := exists_segments_concat path
  rw [hsegments, ← List.append_assoc] at h
  have hconcat : [[]] ++ [last] = (List.replicate k [] ++ parts) ++
      [leaf path] := h
  have hfront := (List.append_inj' hconcat rfl).1
  rw [hparent]
  cases k with
  | zero =>
      have hone : [[]] = parts := hfront
      rw [← hone, join_singleton]
  | succ k =>
      have hnone := (List.cons.inj hfront).2
      rw [(List.append_eq_nil_iff.mp hnone.symm).2, join_nil]

/-! ## The stages of a path -/

/-- Past the first segment with something in it, a stage is the path so far with
an initial run of the rest. -/
theorem mem_extensions_iff {done : List (List Char)} (hdone : join done ≠ [])
    {rest : List (List Char)} {stage : List Char} :
    stage ∈ extensions (join done) rest ↔
      ∃ parts, parts ≠ [] ∧ parts <+: rest ∧ stage = join (done ++ parts) := by
  have hne : done ≠ [] := fun h => hdone (by rw [h, join_nil])
  induction rest generalizing done with
  | nil =>
      rw [extensions]
      refine ⟨fun h => absurd h List.not_mem_nil,
        fun ⟨parts, hparts, hrun, _⟩ => ?_⟩
      exact absurd (List.prefix_nil.mp hrun) hparts
  | cons segment more ih =>
      have next : (if join done = [] then segment
            else join done ++ '/' :: segment)
          = join (done ++ [segment]) := by rw [if_neg hdone, join_concat hne]
      have hnext : join (done ++ [segment]) ≠ [] := by
        rw [join_concat hne]
        simp
      have later : stage ∈ extensions (join (done ++ [segment])) more ↔
          ∃ parts, parts ≠ [] ∧ parts <+: more ∧
            stage = join (done ++ [segment] ++ parts) :=
        ih hnext (List.append_ne_nil_of_left_ne_nil hne _)
      rw [extensions, next, List.mem_cons, later]
      refine ⟨fun h => ?_, fun ⟨parts, hparts, hrun, hstage⟩ => ?_⟩
      · rcases h with rfl | ⟨parts, hparts, hrun, rfl⟩
        · exact ⟨[segment], List.cons_ne_nil _ _, ⟨more, rfl⟩, rfl⟩
        · refine ⟨segment :: parts, List.cons_ne_nil _ _, ?_, by simp⟩
          exact List.cons_prefix_cons.mpr ⟨rfl, hrun⟩
      · obtain ⟨first, parts, rfl⟩ := List.exists_cons_of_ne_nil hparts
        obtain ⟨rfl, htail⟩ := List.cons_prefix_cons.mp hrun
        by_cases hrest : parts = []
        · exact Or.inl (by rw [hstage, hrest])
        · exact Or.inr ⟨parts, hrest, htail, by rw [hstage]; simp⟩

/-- The same for the stages from the start, when the first segment has something
in it. -/
theorem mem_extensions_nil_iff {segment : List Char} (hsegment : segment ≠ [])
    {more : List (List Char)} {stage : List Char} :
    stage ∈ extensions [] (segment :: more) ↔
      ∃ parts, parts ≠ [] ∧ parts <+: segment :: more ∧ stage = join parts := by
  have start : join [segment] ≠ [] := by rwa [join_singleton]
  have later := @mem_extensions_iff [segment] start more stage
  rw [join_singleton] at later
  rw [extensions, if_pos rfl, List.mem_cons, later]
  refine ⟨fun h => ?_, fun ⟨parts, hparts, hrun, hstage⟩ => ?_⟩
  · rcases h with rfl | ⟨parts, -, hrun, rfl⟩
    · exact ⟨[stage], List.cons_ne_nil _ _, ⟨more, rfl⟩,
        (join_singleton stage).symm⟩
    · exact ⟨segment :: parts, List.cons_ne_nil _ _,
        List.cons_prefix_cons.mpr ⟨rfl, hrun⟩, rfl⟩
  · obtain ⟨first, parts, rfl⟩ := List.exists_cons_of_ne_nil hparts
    obtain ⟨rfl, htail⟩ := List.cons_prefix_cons.mp hrun
    by_cases hrest : parts = []
    · exact Or.inl (by rw [hstage, hrest, join_singleton])
    · exact Or.inr ⟨parts, hrest, htail, hstage⟩

theorem exists_replicate_of_mem_extensions {rest : List (List Char)}
    {stage : List Char} (h : stage ∈ extensions [] rest) (hstage : stage ≠ []) :
    ∃ k parts, parts ≠ [] ∧ List.replicate k [] ++ parts <+: rest ∧
      stage = join parts := by
  induction rest with
  | nil => exact absurd h List.not_mem_nil
  | cons segment more ih =>
      by_cases hsegment : segment = []
      · subst hsegment
        rw [extensions, if_pos rfl, List.mem_cons] at h
        obtain ⟨k, parts, hparts, hrun, heq⟩ := ih (h.resolve_left hstage)
        exact ⟨k + 1, parts, hparts, List.cons_prefix_cons.mpr ⟨rfl, hrun⟩, heq⟩
      · obtain ⟨parts, hparts, hrun, heq⟩ :=
          (mem_extensions_nil_iff hsegment).mp h
        exact ⟨0, parts, hparts, hrun, heq⟩

theorem slash_not_mem_of_run {parts : List (List Char)} {path : List Char}
    (h : parts <+: segments path) : ∀ part ∈ parts, '/' ∉ part :=
  fun _ hpart => slash_not_mem_of_mem_segments (h.subset hpart)

/-- A path that begins with no slash begins with a segment that is not empty. -/
theorem exists_segments_cons {path : List Char} (hne : path ≠ [])
    (h : path.head? ≠ some '/') :
    ∃ segment more, segments path = segment :: more ∧ segment ≠ [] := by
  obtain ⟨segment, more, hsegments⟩ :=
    List.exists_cons_of_ne_nil (segments_ne_nil path)
  refine ⟨segment, more, hsegments, fun hnil => ?_⟩
  subst hnil
  have hpath : path = join ([] :: more) := by rw [← hsegments, join_segments]
  by_cases hmore : more = []
  · rw [hmore, join_singleton] at hpath
    exact hne hpath
  · rw [join_cons hmore] at hpath
    rw [hpath] at h
    exact h rfl

theorem join_ne_nil_of_run {path : List Char} (hne : path ≠ [])
    (h : path.head? ≠ some '/') {parts : List (List Char)} (hparts : parts ≠ [])
    (hrun : parts <+: segments path) : join parts ≠ [] := by
  intro hjoin
  obtain ⟨segment, more, hsegments, hsegment⟩ := exists_segments_cons hne h
  have hempty := segments_join hparts (slash_not_mem_of_run hrun)
  rw [hjoin] at hempty
  rw [← hempty, hsegments] at hrun
  exact hsegment (List.cons_prefix_cons.mp hrun).1.symm

/-- The stages of a path that begins with no slash are its initial runs of
segments. -/
theorem mem_prefixes_iff {path stage : List Char} (hne : path ≠ [])
    (h : path.head? ≠ some '/') :
    stage ∈ prefixes path ↔ ∃ parts, parts ≠ [] ∧ parts <+: segments path ∧
      stage = join parts := by
  obtain ⟨segment, more, hsegments, hsegment⟩ := exists_segments_cons hne h
  unfold prefixes
  rw [hsegments, mem_extensions_nil_iff hsegment]

/-- Whatever a path begins with, the segments of a stage stand at its beginning
but for empty ones in front of them. -/
theorem exists_replicate_of_mem_prefixes {path stage : List Char}
    (h : stage ∈ prefixes path) (hstage : stage ≠ []) :
    ∃ k, List.replicate k [] ++ segments stage <+: segments path := by
  obtain ⟨k, parts, hparts, hrun, rfl⟩ :=
    exists_replicate_of_mem_extensions h hstage
  have hslash : ∀ part ∈ parts, '/' ∉ part :=
    fun part hpart => slash_not_mem_of_run hrun part
      (List.mem_append_right _ hpart)
  exact ⟨k, by rwa [segments_join hparts hslash]⟩

theorem mem_prefixes_self {path : List Char} (hne : path ≠ [])
    (h : path.head? ≠ some '/') : path ∈ prefixes path :=
  (mem_prefixes_iff hne h).mpr
    ⟨segments path, segments_ne_nil path, List.prefix_refl _,
      (join_segments path).symm⟩

theorem parent_concat (path : List Char) {segment : List Char}
    (h : '/' ∉ segment) :
    parent (path ++ '/' :: segment) = path := by
  have hdrop := (takeWhile_dropWhile_reverse h ('/' :: path.reverse)).2
  have hreverse : (path ++ '/' :: segment).reverse
      = segment.reverse ++ '/' :: path.reverse := by simp
  unfold parent
  rw [hreverse, hdrop]
  simp

theorem parent_of_slash_not_mem {segment : List Char} (h : '/' ∉ segment) :
    parent segment = [] := by
  have hdrop := (takeWhile_dropWhile_reverse h []).2
  rw [List.append_nil] at hdrop
  unfold parent
  rw [hdrop]
  rfl

theorem leaf_concat (path : List Char) {segment : List Char}
    (h : '/' ∉ segment) :
    leaf (path ++ '/' :: segment) = segment := by
  have htake := (takeWhile_dropWhile_reverse h ('/' :: path.reverse)).1
  have hreverse : (path ++ '/' :: segment).reverse
      = segment.reverse ++ '/' :: path.reverse := by simp
  unfold leaf
  rw [hreverse, htake]
  simp

theorem leaf_of_slash_not_mem {segment : List Char} (h : '/' ∉ segment) :
    leaf segment = segment := by
  have htake := (takeWhile_dropWhile_reverse h []).1
  rw [List.append_nil] at htake
  unfold leaf
  rw [htake]
  simp

/-- A stage ends with the segment that it was appended with. -/
theorem leaf_mem_of_mem_extensions {rest : List (List Char)}
    {path stage : List Char} (hrest : ∀ segment ∈ rest, '/' ∉ segment)
    (h : stage ∈ extensions path rest) : leaf stage ∈ rest := by
  induction rest generalizing path with
  | nil => exact absurd h List.not_mem_nil
  | cons segment more ih =>
      obtain ⟨hsegment, hmore⟩ := List.forall_mem_cons.mp hrest
      rcases List.mem_cons.mp h with rfl | h
      · by_cases hpath : path = []
        · rw [if_pos hpath, leaf_of_slash_not_mem hsegment]
          exact List.mem_cons_self
        · rw [if_neg hpath, leaf_concat path hsegment]
          exact List.mem_cons_self
      · exact List.mem_cons_of_mem _ (ih hmore h)

theorem leaf_mem_segments {path stage : List Char} (h : stage ∈ prefixes path) :
    leaf stage ∈ segments path :=
  leaf_mem_of_mem_extensions (fun _ hsegment =>
    slash_not_mem_of_mem_segments hsegment) h

/-- Nothing stands after the last slash of a path that ends in it. -/
theorem leaf_eq_nil_iff {path : List Char} :
    leaf path = [] ↔ path = [] ∨ path.getLast? = some '/' := by
  have hnil : path = [] ↔ path.reverse = [] := List.reverse_eq_nil_iff.symm
  unfold leaf
  rw [List.reverse_eq_nil_iff, ← List.head?_reverse, hnil]
  cases path.reverse with
  | nil => simp
  | cons last before => simp [List.takeWhile_cons]

/-- Above a stage there is the path so far, another stage, or nothing. -/
theorem parent_mem_extensions {rest : List (List Char)} {path stage : List Char}
    (hrest : ∀ segment ∈ rest, '/' ∉ segment)
    (h : stage ∈ extensions path rest) :
    parent stage = [] ∨ parent stage = path ∨
      parent stage ∈ extensions path rest := by
  induction rest generalizing path with
  | nil => exact absurd h List.not_mem_nil
  | cons segment more ih =>
      obtain ⟨hsegment, hmore⟩ := List.forall_mem_cons.mp hrest
      rcases List.mem_cons.mp h with rfl | h
      · by_cases hpath : path = []
        · rw [if_pos hpath]
          exact Or.inl (parent_of_slash_not_mem hsegment)
        · rw [if_neg hpath]
          exact Or.inr (Or.inl (parent_concat path hsegment))
      · rcases ih hmore h with hnone | hnext | hlater
        · exact Or.inl hnone
        · exact Or.inr (Or.inr (hnext ▸ List.mem_cons_self))
        · exact Or.inr (Or.inr (List.mem_cons_of_mem _ hlater))

/-- The stages of a path are closed under going up, whatever the path begins
with. -/
theorem parent_mem_prefixes {path stage : List Char} (h : stage ∈ prefixes path)
    (hparent : parent stage ≠ []) : parent stage ∈ prefixes path := by
  have hsegments : ∀ segment ∈ segments path, '/' ∉ segment :=
    fun _ => slash_not_mem_of_mem_segments
  rcases parent_mem_extensions hsegments h with hnone | hnone | hmem
  · exact absurd hnone hparent
  · exact absurd hnone hparent
  · exact hmem

end GatewayStack.Path

namespace GatewayStack.LogicalId

open GatewayStack.Path

/-! ## Fragments, segment by segment -/

/-- The fragment of a list of segments. -/
def partsChars (parts : List (List Char)) : List Char :=
  parts.flatMap segmentChars

theorem partsChars_concat (parts : List (List Char)) (part : List Char) :
    partsChars (parts ++ [part]) = partsChars parts ++ segmentChars part := by
  simp [partsChars]

/-- Empty segments leave no trace. -/
theorem partsChars_replicate_append (k : Nat) (parts : List (List Char)) :
    partsChars (List.replicate k [] ++ parts) = partsChars parts := by
  induction k with
  | zero => rfl
  | succ k ih => exact ih

theorem pathChars_eq (path : List Char) :
    pathChars path = partsChars (segments path) := rfl

theorem pathChars_join {parts : List (List Char)}
    (h : ∀ part ∈ parts, '/' ∉ part) :
    pathChars (join parts) = partsChars parts := by
  by_cases hparts : parts = []
  · subst hparts
    rfl
  · rw [pathChars_eq, segments_join hparts h]

/-- The leaf comes last in the fragment of a path. -/
theorem pathChars_parent_leaf (path : List Char) :
    pathChars path = pathChars (parent path) ++ segmentChars (leaf path) := by
  obtain ⟨parts, hsegments, hparent⟩ := exists_segments_concat path
  have hslash : ∀ part ∈ parts, '/' ∉ part := by
    have hrun : parts <+: segments path := ⟨[leaf path], hsegments.symm⟩
    exact slash_not_mem_of_run hrun
  rw [pathChars_eq, hsegments, partsChars_concat, hparent,
    pathChars_join hslash]

end GatewayStack.LogicalId
