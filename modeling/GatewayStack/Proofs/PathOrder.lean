import GatewayStack.Proofs.Fields
import GatewayStack.Proofs.Urls

/-!
# The order of the paths in the tree

The paths of the tree are found by a walk over the events, and along the path
of each event from one segment to the next. What the walk sees are the
initial runs of the segments, each without the empty ones in front of it
(`Path.prefixes_eq`). So it never sees a path that begins with a slash, not
even where the path of an event does, and it sees whatever stands above a
path that it sees.

Then the repetitions are left out and the rest is sorted by slashes. One order
is behind both keys of the result: fewer slashes, or as many and seen earlier
(`PathTree.Precedes`). An insertion keeps it if the new path was seen after all
the old ones, and that is how the paths come once the repetitions are gone
(`FirstSeen.pairwise_idxOf_distinct`). As the order is strict, no path is there
twice, and as a path above another one has fewer slashes, it comes first.
-/

namespace GatewayStack

namespace FirstSeen

variable {α : Type} [DecidableEq α]

theorem distinct_concat (items : List α) (item : α) :
    distinct (items ++ [item]) = add (distinct items) item := by
  unfold distinct
  rw [union_append]
  rfl

/-- Without its repetitions a list is in the order in which its items come
first. -/
theorem pairwise_idxOf_distinct [BEq α] [LawfulBEq α] (items : List α) :
    (distinct items).Pairwise fun a b => items.idxOf a < items.idxOf b := by
  -- from the end, since where an item comes first does not depend on what
  -- follows
  induction items using List.reverseRecOn with
  | nil => exact List.Pairwise.nil
  | append_singleton items item ih =>
      have old : (distinct items).Pairwise
          fun a b => (items ++ [item]).idxOf a < (items ++ [item]).idxOf b := by
        refine ih.imp_of_mem fun {a b} ha hb hlt => ?_
        rwa [List.idxOf_append_of_mem (mem_distinct.mp ha),
          List.idxOf_append_of_mem (mem_distinct.mp hb)]
      rw [distinct_concat, add]
      split
      · exact old
      · next fresh =>
          refine List.pairwise_append.mpr ⟨old, List.pairwise_singleton _ _,
            fun a ha b hb => ?_⟩
          obtain rfl := List.mem_singleton.mp hb
          have hmem := mem_distinct.mp ha
          rw [List.idxOf_append_of_mem hmem,
            List.idxOf_append_of_notMem fun h => fresh (mem_distinct.mpr h)]
          exact Nat.lt_add_right _ (List.idxOf_lt_length_iff.mpr hmem)

end FirstSeen

/-! ## What the walk sees -/

namespace Path

/-- The path of a run of segments, without the empty ones in front of it. -/
def ofRun (run : List (List Char)) : List Char := join (run.dropWhile (· = []))

theorem head?_join_cons {part : List Char} (h : part ≠ [])
    (more : List (List Char)) :
    (join (part :: more)).head? = part.head? := by
  by_cases hmore : more = []
  · rw [hmore, join_singleton]
  · rw [join_cons hmore, List.head?_append_of_ne_nil _ h]

theorem join_cons_ne_nil {part : List Char} (h : part ≠ [])
    (more : List (List Char)) :
    join (part :: more) ≠ [] := by
  intro hnil
  have hhead := head?_join_cons h more
  rw [hnil, List.head?_nil] at hhead
  exact h (List.head?_eq_none_iff.mp hhead.symm)

/-- Past the empty segments a run begins with something, if there is
anything left. -/
theorem dropWhile_empty_cases (run : List (List Char)) :
    run.dropWhile (· = []) = [] ∨
      ∃ first more, first ≠ [] ∧ first ∈ run ∧
        run.dropWhile (· = []) = first :: more := by
  cases hrun : run.dropWhile (· = []) with
  | nil => exact Or.inl rfl
  | cons first more =>
      have hhead := List.head?_dropWhile_not (· = []) run
      rw [hrun] at hhead
      have hmem : first ∈ run.dropWhile (· = []) := hrun ▸ List.mem_cons_self
      exact Or.inr ⟨first, more, of_decide_eq_false hhead,
        (List.dropWhile_sublist _).subset hmem, rfl⟩

/-- One more segment goes behind a slash, unless nothing is before it. -/
theorem ofRun_concat (run : List (List Char)) (segment : List Char) :
    ofRun (run ++ [segment])
      = if ofRun run = [] then segment else ofRun run ++ '/' :: segment := by
  unfold ofRun
  rw [List.dropWhile_append]
  rcases dropWhile_empty_cases run with hrun | ⟨first, more, hfirst, -, hrun⟩
  · rw [hrun, if_pos List.isEmpty_nil, if_pos join_nil]
    by_cases h : segment = []
    · simp [h, join_nil]
    · simp [h, join_singleton]
  · rw [hrun, List.isEmpty_cons, if_neg Bool.false_ne_true,
      if_neg (join_cons_ne_nil hfirst more),
      join_concat (List.cons_ne_nil first more)]

/-- Walking on from a run passes the runs that continue it. -/
theorem extensions_ofRun (run rest : List (List Char)) :
    extensions (ofRun run) rest = rest.inits.tail.map fun more =>
      ofRun (run ++ more) := by
  induction rest generalizing run with
  | nil => rfl
  | cons segment more ih =>
      have runs : (segment :: more).inits.tail
          = [segment] :: more.inits.tail.map (segment :: ·) :=
        congrArg List.tail (List.inits_append [segment] more)
      rw [extensions, ← ofRun_concat, ih, runs, List.map_cons, List.map_map]
      simp only [Function.comp_def, List.append_assoc, List.singleton_append]

/-- The stages of any path are its initial runs of segments, each without the
empty ones in front of it. -/
theorem prefixes_eq (path : List Char) :
    prefixes path = (segments path).inits.tail.map ofRun :=
  extensions_ofRun [] (segments path)

/-- No stage begins with a slash, whatever the path begins with. -/
theorem head?_ne_slash_of_mem_prefixes {path stage : List Char}
    (h : stage ∈ prefixes path) :
    stage.head? ≠ some '/' := by
  rw [prefixes_eq] at h
  obtain ⟨run, hrun, rfl⟩ := List.mem_map.mp h
  have hslash :=
    slash_not_mem_of_run ((List.mem_inits _ _).mp (List.mem_of_mem_tail hrun))
  unfold ofRun
  rcases dropWhile_empty_cases run with hdrop |
    ⟨first, more, hfirst, hmem, hdrop⟩
  · rw [hdrop, join_nil]
    simp
  · rw [hdrop, head?_join_cons hfirst]
    exact fun hhead => hslash _ hmem (List.mem_of_mem_head? hhead)

end Path

namespace PathTree

open GatewayStack.Path

/-- What the walk sees, from event to event and from segment to segment. -/
def seen (events : List Event) : List (List Char) :=
  events.flatMap fun event =>
    if event.path = "" then []
    else (segments event.path.toList).inits.tail.map ofRun

theorem flatMap_eventPaths (events : List Event) :
    events.flatMap eventPaths = seen events := by
  refine congrArg (List.flatMap · events) (funext fun event => ?_)
  rw [eventPaths, prefixes_eq]

theorem mem_paths_iff_seen {events : List Event} {path : String} :
    path ∈ paths events ↔ path.toList ∈ seen events := by
  rw [mem_paths_iff_needed, flatMap_eventPaths]

/-- What stands before a slash of a path in the tree is in the tree. -/
theorem above_mem_paths {events : List Event} {above part : String}
    (h : above ++ "/" ++ part ∈ paths events) (hpart : '/' ∉ part.toList) :
    above ∈ paths events := by
  obtain ⟨event, hevent, proper, hstage⟩ := mem_paths.mp h
  have hchars : (above ++ "/" ++ part).toList
      = above.toList ++ '/' :: part.toList := by
    simp
  rw [hchars] at hstage
  have hne : above.toList ≠ [] := by
    intro hnil
    rw [hnil] at hstage
    exact head?_ne_slash_of_mem_prefixes hstage rfl
  have hparent := parent_concat above.toList hpart
  have hmem := parent_mem_prefixes hstage (by rwa [hparent])
  rw [hparent] at hmem
  exact mem_paths.mpr ⟨event, hevent, proper, hmem⟩

theorem slashes_lt_below (above part : String) :
    slashes above.toList < slashes (above ++ "/" ++ part).toList := by
  unfold slashes
  simp only [String.toList_append, List.count_append]
  have one : "/".toList.count '/' = 1 := rfl
  omega

/-! ## Sorting -/

/-- The path has fewer slashes than another one, or as many and the walk comes
to it earlier. -/
def Precedes (walk : List (List Char)) (path other : List Char) : Prop :=
  slashes path < slashes other ∨
    slashes path = slashes other ∧ walk.idxOf path < walk.idxOf other

section sorting

variable {walk : List (List Char)}

/-- Inserting a path that the walk comes to later than to all the others
keeps the order. -/
theorem pairwise_insert {path : List Char} {sorted : List (List Char)}
    (h : sorted.Pairwise (Precedes walk))
    (later : ∀ other ∈ sorted, walk.idxOf other < walk.idxOf path) :
    (StableSort.insert slashes path sorted).Pairwise (Precedes walk) := by
  induction sorted with
  | nil => exact List.pairwise_singleton _ _
  | cons first rest ih =>
      obtain ⟨hfirst, hrest⟩ := List.pairwise_cons.mp h
      obtain ⟨laterFirst, laterRest⟩ := List.forall_mem_cons.mp later
      rw [StableSort.insert]
      split
      · next fewer =>
          refine List.pairwise_cons.mpr
            ⟨List.forall_mem_cons.mpr ⟨Or.inl fewer, ?_⟩, h⟩
          intro other hother
          rcases hfirst other hother with more | ⟨same, -⟩
          · exact Or.inl (fewer.trans more)
          · exact Or.inl (same ▸ fewer)
      · next asMany =>
          refine List.pairwise_cons.mpr ⟨fun other hother => ?_,
            ih hrest laterRest⟩
          rcases StableSort.mem_insert.mp hother with rfl | hother
          · exact (Nat.lt_or_eq_of_le (Nat.le_of_not_lt asMany)).imp_right
                fun same =>
              ⟨same, laterFirst⟩
          · exact hfirst other hother

/-- The loop keeps the order as long as the walk comes to what is left later
than to what is sorted. -/
theorem pairwise_foldl_insert {items sorted : List (List Char)}
    (h : sorted.Pairwise (Precedes walk))
    (inOrder : items.Pairwise fun path other =>
      walk.idxOf path < walk.idxOf other)
    (later : ∀ path ∈ sorted, ∀ item ∈ items,
      walk.idxOf path < walk.idxOf item) :
    (items.foldl (fun sorted path => StableSort.insert slashes path sorted)
      sorted).Pairwise (Precedes walk) := by
  induction items generalizing sorted with
  | nil => exact h
  | cons item rest ih =>
      obtain ⟨hitem, hrest⟩ := List.pairwise_cons.mp inOrder
      have inserted := pairwise_insert h fun path hpath =>
        later path hpath item List.mem_cons_self
      refine ih inserted hrest fun path hpath other hother => ?_
      rcases StableSort.mem_insert.mp hpath with rfl | hpath
      · exact hitem other hother
      · exact later path hpath other (List.mem_cons_of_mem _ hother)

end sorting

theorem pairwise_paths (events : List Event) :
    (paths events).Pairwise fun path other =>
      Precedes (seen events) path.toList other.toList := by
  unfold paths StableSort.sort
  rw [flatMap_eventPaths, List.pairwise_map]
  simp only [String.toList_ofList]
  exact pairwise_foldl_insert List.Pairwise.nil
    (FirstSeen.pairwise_idxOf_distinct (seen events)) fun _ h =>
      absurd h List.not_mem_nil

/-- A path with fewer slashes than another one is in front of it. -/
theorem mem_before_of_slashes_lt {before after : List String}
    {path above : String} (sorted : (before ++ path :: after).Pairwise
      fun path later => slashes path.toList ≤ slashes later.toList)
    (h : above ∈ before ++ path :: after)
    (fewer : slashes above.toList < slashes path.toList) : above ∈ before := by
  rcases List.mem_append.mp h with hbefore | hrest
  · exact hbefore
  · rcases List.mem_cons.mp hrest with rfl | hafter
    · exact absurd fewer (Nat.lt_irrefl _)
    · have behind :=
        (List.pairwise_cons.mp (List.pairwise_append.mp sorted).2.1).1
          above hafter
      exact absurd behind (Nat.not_le_of_lt fewer)

/-- The paths of the tree are those that the walk sees. None is there twice.
They are sorted by their slashes and, among equals, in the order in which the
walk comes to them first. What stands before the last slash of a path is in
front of it in the list. -/
theorem paths_parents_first (events : List Event) :
    (∀ path, path ∈ paths events ↔ path.toList ∈ seen events) ∧
    (paths events).Nodup ∧
    (paths events).Pairwise (fun path later =>
      slashes path.toList ≤ slashes later.toList) ∧
    (paths events).Pairwise (fun path later =>
      slashes path.toList = slashes later.toList →
      (seen events).idxOf path.toList < (seen events).idxOf later.toList) ∧
    ∀ before path after, paths events = before ++ path :: after →
      ∀ above part, path = above ++ "/" ++ part → '/' ∉ part.toList →
        above ∈ before := by
  have ordered := pairwise_paths events
  have sorted : (paths events).Pairwise
      fun path later => slashes path.toList ≤ slashes later.toList :=
    ordered.imp fun h => h.elim Nat.le_of_lt fun h => Nat.le_of_eq h.1
  refine ⟨fun _ => mem_paths_iff_seen, ordered.imp ?_, sorted,
    ordered.imp ?_, ?_⟩
  · rintro path later precedes rfl
    exact precedes.elim (Nat.lt_irrefl _) fun h => Nat.lt_irrefl _ h.2
  · rintro path later (fewer | ⟨-, earlier⟩) same
    · exact absurd same (Nat.ne_of_lt fewer)
    · exact earlier
  · rintro before path after hpaths above part rfl hpart
    have hmem : above ++ "/" ++ part ∈ paths events := by
      rw [hpaths]
      exact List.mem_append_right _ List.mem_cons_self
    have habove := above_mem_paths hmem hpart
    rw [hpaths] at habove sorted
    exact mem_before_of_slashes_lt sorted habove (slashes_lt_below above part)

/-- Empty segments inside a path and in front of one: the root comes in as a
path, and what is above the path that ends in a slash is in front of it. -/
theorem paths_parents_first_b_slash_slash_c :
    let topic (path : String) : ServiceProxy :=
      ⟨⟨path, .get, none, none, none, none, false, none, [], none⟩,
        .sns ⟨.literal "topic"⟩⟩
    let events := [Event.ofProxy (topic "b//c"), Event.ofProxy (topic "//a")]
    paths events = ["b", "", "a"] ++ "b/" :: ["b//c"] ∧
      "b/" = "b" ++ "/" ++ "" ∧
      '/' ∉ "".toList ∧ "b" ∈ ["b", "", "a"] := by
  intro topic events
  have hpaths : paths events = ["b", "", "a"] ++ "b/" :: ["b//c"] := by decide
  obtain ⟨-, -, -, -, first⟩ := paths_parents_first events
  exact ⟨hpaths, by decide, by decide, first _ _ _ hpaths "b" "" (by decide)
    (by decide)⟩

end PathTree

end GatewayStack
