import GatewayStack.Proofs.AcceptedProxies
import GatewayStack.Proofs.Fields
import GatewayStack.Proofs.ReadAlike
import GatewayStack.Proofs.Reading
import Mathlib.Data.List.Perm.Basic

/-!
# The order of the names in a mapping

Two lists of descriptors that differ in the order of the names in their
mappings, at any depth, are parsed alike (`parse_reordered`): the same proxies
come out, but for the order inside of the values they take over, or the same
errors. Where an error is about one name out of several that are equally wrong,
it may be about another one of them.

The order is a `Likeness` on values that repeat no name. Where a name is looked
up it has no part, mappings that are read as a whole are put in the order of
their names, and a reference is a mapping with one name. The one reader that
walks through the names as they come is the check for unknown ones, and whether
there is one does not depend on the order.
-/

namespace GatewayStack

/-- A search ends somewhere or nowhere, whatever the order. -/
theorem find?_perm {α : Type} {items others : List α} (h : items.Perm others)
    (p : α → Bool) :
    Option.Rel (fun _ _ => True) (items.find? p) (others.find? p) := by
  have hsome : (items.find? p).isSome ↔ (others.find? p).isSome := by
    rw [List.find?_isSome, List.find?_isSome]
    simp only [h.mem_iff]
  cases hs : items.find? p <;> cases ht :
    others.find? p <;> rw [hs, ht] at hsome
  · exact .none
  · exact absurd (hsome.mpr rfl) Bool.false_ne_true
  · exact absurd (hsome.mp rfl) Bool.false_ne_true
  · exact .some trivial

namespace Json

mutual

/-- Two values that differ in the order of the names in their mappings alone,
at any depth. -/
inductive Reordered : Json → Json → Prop
  | refl (value : Json) : Reordered value value
  | arr {items others : List Json} (h : List.Forall₂ Reordered items others) :
      Reordered (.arr items) (.arr others)
  | obj {fields ordered others : Fields Json} (order : fields.Perm ordered)
      (entries : List.Forall₂ ReorderedEntry ordered others) :
      Reordered (.obj fields) (.obj others)

/-- The same name, with two such values. -/
inductive ReorderedEntry : String × Json → String × Json → Prop
  | mk (name : String) {value other : Json} (h : Reordered value other) :
      ReorderedEntry (name, value) (name, other)

end

namespace Reordered

variable {v w : Json} {fields others : Fields Json}

theorem entries (h : Reordered (.obj fields) (.obj others)) :
    ∃ ordered, fields.Perm ordered ∧
      List.Forall₂ ReorderedEntry ordered others := by
  cases h with
  | refl => exact ⟨_, .refl _, List.forall₂_same.mpr fun _ _ => .mk _ (.refl _)⟩
  | obj order entries => exact ⟨_, order, entries⟩

theorem keys_eq {as bs : Fields Json} (h : List.Forall₂ ReorderedEntry as bs) :
    Fields.keys bs = Fields.keys as := by
  induction h with
  | nil => rfl
  | cons hentry _ ih =>
      cases hentry
      rw [Fields.keys_cons, Fields.keys_cons, ih]

theorem keys_perm (h : Reordered (.obj fields) (.obj others)) :
    (Fields.keys fields).Perm (Fields.keys others) := by
  obtain ⟨ordered, order, hentries⟩ := h.entries
  rw [keys_eq hentries]
  exact order.map Prod.fst

theorem singleton {name : String}
    (h : Reordered (.obj [(name, v)]) (.obj others)) :
    ∃ w, others = [(name, w)] ∧ Reordered v w := by
  obtain ⟨ordered, order, hentries⟩ := h.entries
  rw [List.perm_singleton.mp order.symm] at hentries
  obtain ⟨_, _, ⟨_, hvalue⟩, hrest, rfl⟩ :=
    List.forall₂_cons_left_iff.mp hentries
  obtain rfl := List.forall₂_nil_left_iff.mp hrest
  exact ⟨_, rfl, hvalue⟩

/-! ## Looking up a name -/

theorem get?_of_entries {as bs : Fields Json}
    (h : List.Forall₂ ReorderedEntry as bs) (name : String) :
    Option.Rel Reordered (Fields.get? as name) (Fields.get? bs name) := by
  induction h with
  | nil => exact .none
  | cons hentry _ ih =>
      obtain ⟨k, hvalue⟩ := hentry
      rw [Fields.get?, Fields.get?]
      split
      · exact .some hvalue
      · exact ih

theorem get? (h : Reordered (.obj fields) (.obj others))
    (distinct : Fields.Distinct fields) (name : String) :
    Option.Rel Reordered (Fields.get? fields name)
      (Fields.get? others name) := by
  obtain ⟨ordered, order, hentries⟩ := h.entries
  rw [← Fields.get?_perm distinct order]
  exact get?_of_entries hentries name

/-! ## Values that are read as a whole -/

/-- No other value differs from this one in the order of names. -/
def Rigid (value : Json) : Prop := ∀ {v w}, Reordered v w →
    (w = value ↔ v = value)

theorem rigid_str (s : String) : Rigid (.str s) := by
  intro v w h
  cases h <;> simp

theorem rigid_arr {items : List Json} (hitems : ∀ item ∈ items, Rigid item) :
    Rigid (.arr items) := by
  intro v w h
  cases h with
  | refl => exact Iff.rfl
  | obj => simp
  | arr h =>
      rw [arr.injEq, arr.injEq]
      induction h generalizing items with
      | nil => exact Iff.rfl
      | cons hitem _ ih =>
          cases items with
          | nil => simp
          | cons first rest =>
              rw [List.cons.injEq, List.cons.injEq,
                hitems first List.mem_cons_self hitem, ih fun item hmem =>
                  hitems item (List.mem_cons_of_mem _ hmem)]

/-- Of one name alone there is no order. -/
theorem rigid_singleton {value : Json} (hvalue : Rigid value) (name : String) :
    Rigid (.obj [(name, value)]) := by
  intro v w h
  refine ⟨?_, ?_⟩
  · rintro rfl
    cases h with
    | refl => rfl
    | obj order entries =>
        obtain ⟨_, _, ⟨_, hentry⟩, hrest, rfl⟩ :=
          List.forall₂_cons_right_iff.mp entries
        obtain rfl := List.forall₂_nil_right_iff.mp hrest
        rw [List.perm_singleton.mp order, (hvalue hentry).mp rfl]
  · rintro rfl
    cases h with
    | refl => rfl
    | obj order entries =>
        obtain ⟨other, rfl, hentry⟩ := (Reordered.obj order entries).singleton
        rw [(hvalue hentry).mpr rfl]

theorem rigid_toJson (name : ResourceName) : Rigid name.toJson := by
  cases name with
  | literal name => exact rigid_str name
  | ref id => exact rigid_singleton (rigid_str id) "Ref"
  | getAtt id attr =>
      refine rigid_singleton (rigid_arr ?_) "Fn::GetAtt"
      exact List.forall_mem_cons.mpr ⟨rigid_str id,
        List.forall_mem_singleton.mpr (rigid_str attr)⟩

theorem read? (form : ReferenceForm) (h : Reordered v w) :
    form.read? w = form.read? v := by
  refine Option.ext fun name => ?_
  rw [ReferenceForm.read?_eq_some, ReferenceForm.read?_eq_some,
    rigid_toJson name h]

theorem string? (h : Reordered v w) : w.string? = v.string? := by
  cases h <;> rfl

theorem bool? (h : Reordered v w) : w.bool? = v.bool? := by
  cases h <;> rfl

theorem isNull (h : Reordered v w) : w.isNull = v.isNull := by
  cases h <;> rfl

theorem stringList? (h : Reordered v w) : w.stringList? = v.stringList? := by
  have items {xs ys : List Json} (h : List.Forall₂ Reordered xs ys) :
      readItems Json.string? ys = readItems Json.string? xs := by
    induction h with
    | nil => rfl
    | cons hitem _ ih => rw [readItems, readItems, hitem.string?, ih]
  cases h with
  | refl | obj => rfl
  | arr h => exact items h

section fields

variable {α : Type} {read : Json → Option α}

theorem readFields_of_entries (hread : ∀ {v w}, Reordered v w → read w = read v)
    {as bs : Fields Json} (h : List.Forall₂ ReorderedEntry as bs) :
    readFields read bs = readFields read as := by
  induction h with
  | nil => rfl
  | cons hentry _ ih =>
      obtain ⟨name, hvalue⟩ := hentry
      rw [readFields, readFields, hread hvalue, ih]

theorem readFields_eq_some {result : Fields α} :
    readFields read fields = some result ↔
    List.Forall₂ (fun entry item => item.1 = entry.1 ∧
      read entry.2 = some item.2) fields result := by
  induction fields generalizing result with
  | nil => rw [List.forall₂_nil_left_iff, readFields,
    Option.some.injEq, eq_comm]
  | cons entry rest ih =>
      obtain ⟨name, value⟩ := entry
      rw [readFields, List.forall₂_cons_left_iff]
      cases hvalue : read value with
      | none => simp
      | some a =>
          simp only [Option.map_eq_some_iff, ih, Option.some.injEq]
          refine ⟨?_, ?_⟩
          · rintro ⟨more, hmore, rfl⟩
            exact ⟨(name, a), more, ⟨rfl, rfl⟩, hmore, rfl⟩
          · rintro ⟨⟨_, _⟩, more, ⟨rfl, rfl⟩, hmore, rfl⟩
            exact ⟨more, hmore, rfl⟩

theorem keys_readFields {result : Fields α}
    (h : readFields read fields = some result) :
    Fields.keys result = Fields.keys fields := by
  have hentries := readFields_eq_some.mp h
  clear h
  induction hentries with
  | nil => rfl
  | cons hentry _ ih => rw [Fields.keys_cons, Fields.keys_cons, ih, hentry.1]

/-- Put in the order of their names, fields are read to the same in every
order. -/
theorem sorted_readFields {as bs : Fields Json} (distinct : Fields.Distinct as)
    (h : as.Perm bs) {result : Fields α}
    (hread : (readFields read bs).map Fields.sorted = some result) :
    (readFields read as).map Fields.sorted = some result := by
  obtain ⟨more, hmore, rfl⟩ := Option.map_eq_some_iff.mp hread
  obtain ⟨items, hitems, hperm⟩ :=
    List.perm_comp_forall₂ h (readFields_eq_some.mp hmore)
  rw [← readFields_eq_some] at hitems
  have hdistinct : Fields.Distinct items := by
    unfold Fields.Distinct
    rwa [keys_readFields hitems]
  rw [hitems, Option.map_some, Fields.sorted_eq_of_perm hdistinct hperm]

theorem sortedMap (h : Reordered v w)
    (hread : ∀ {v w}, Reordered v w → read w = read v) (tidy : v.Tidy) :
    (w.fields?.bind (readFields read)).map Fields.sorted
      = (v.fields?.bind (readFields read)).map Fields.sorted := by
  cases h with
  | refl | arr => rfl
  | obj order entries =>
      have distinct' : Fields.Distinct _ :=
        (order.map Prod.fst).nodup_iff.mp tidy.distinct
      show (readFields read _).map Fields.sorted
        = (readFields read _).map Fields.sorted
      rw [readFields_of_entries hread entries]
      exact Option.ext fun result =>
        ⟨sorted_readFields tidy.distinct order,
          sorted_readFields distinct' order.symm⟩

end fields

end Reordered

end Json

/-! ## Errors -/

/-- The same violation, but for the name it is about where several are
equally wrong. -/
inductive Violation.Reordered : Violation → Violation → Prop
  | refl (violation : Violation) : Reordered violation violation
  | unknownField (service : Option Service) (path : FieldPath)
      (name other : String) :
      Reordered ⟨service, path ++ [name], .unknownField⟩
        ⟨service, path ++ [other], .unknownField⟩
  | unsupportedProxy (service : Option Service) (path : FieldPath)
      (tag other : String) :
      Reordered ⟨service, path, .unsupportedProxy tag⟩
        ⟨service, path, .unsupportedProxy other⟩
  | multipleServices (service : Option Service) (path : FieldPath)
      {tags others : List String} (h : tags.Perm others) :
      Reordered ⟨service, path, .multipleServices tags⟩
        ⟨service, path, .multipleServices others⟩

/-! ## The likeness -/

namespace Likeness

open Json (Reordered)

/-- Another order of the names, where none is repeated. -/
def OrderedValue (v w : Json) : Prop := v.Tidy ∧ Reordered v w

def OrderedFields (_ : Fields Layout) (as bs : Fields Json) : Prop :=
  OrderedValue (.obj as) (.obj bs)

theorem relates_of_ordered {v w : Json} (h : OrderedValue v w)
    (layout : Layout) :
    Layout.Relates OrderedValue OrderedFields layout v w := by
  cases layout with
  | whole => exact h
  | mapping known =>
      unfold Layout.Relates
      split
      · exact h
      · exact h

variable {known : Fields Layout} {as bs : Fields Json} {v w : Json}

theorem orderedFields_get? (h : OrderedFields known as bs) (service : Service)
    (path : FieldPath) (name : String) :
    Option.Rel (Layout.Relates OrderedValue OrderedFields
      (Layout.under known name)) (Section.get? ⟨service, path, as⟩ name)
      (Section.get? ⟨service, path, bs⟩ name) := by
  obtain ⟨tidy, h⟩ := h
  show Option.Rel _ ((Fields.get? as name).filter _)
    ((Fields.get? bs name).filter _)
  rcases rel_cases (h.get? tidy.distinct name) with ⟨hs, ht⟩ |
    ⟨v, w, hs, ht, hvalue⟩ <;>
    rw [hs, ht]
  · exact .none
  · rw [Option.filter_some, Option.filter_some, hvalue.isNull]
    split
    · exact .some (relates_of_ordered ⟨tidy.get? hs, hvalue⟩ _)
    · exact .none

theorem orderedFields_allowOnly (h : OrderedFields known as bs)
    (service : Service) (path : FieldPath) (names : List String) :
    Alike Violation.Reordered Eq (Section.allowOnly ⟨service, path, as⟩ names)
      (Section.allowOnly ⟨service, path, bs⟩ names) := by
  unfold Section.allowOnly
  rcases rel_cases (find?_perm h.2.keys_perm fun name =>
      !names.contains name) with
    ⟨hs, ht⟩ | ⟨name, other, hs, ht, -⟩ <;> rw [hs, ht]
  · exact .ok rfl
  · exact .error (.unknownField _ _ _ _)

/-- Another order of the names. -/
def order : Likeness where
  value := OrderedValue
  fields := OrderedFields
  violation := Violation.Reordered
  violation_refl := .refl
  value_cases h := by
    cases h.2 with
    | refl => exact Or.inl rfl
    | arr => exact Or.inr (Or.inl ⟨_, _, rfl, rfl⟩)
    | obj => exact Or.inr (Or.inr ⟨_, _, rfl, rfl⟩)
  stringList? h := h.2.stringList?
  stringMap? h := h.2.sortedMap Reordered.string? h.1
  boolMap? h := h.2.sortedMap Reordered.bool? h.1
  read? form _ _ h := h.2.read? form
  get? := orderedFields_get?
  allowOnly h service path names _ :=
    orderedFields_allowOnly h service path names

end Likeness

namespace Schema

open Json (Reordered)

/-- Of several keys the same ones are at fault. -/
theorem keysFault_reordered {tags others : List String} (h : tags.Perm others) :
    Violation.Reordered (topLevel (keysFault tags))
      (topLevel (keysFault others)) := by
  unfold keysFault
  rcases rel_cases (find?_perm h fun tag => (Service.ofTag? tag).isNone) with
    ⟨hs, ht⟩ | ⟨tag, other, hs, ht, -⟩ <;> rw [hs, ht]
  · exact .multipleServices _ _ h
  · exact .unsupportedProxy _ _ _ _

theorem readDescriptor_reordered {descriptor other : Json}
    (tidy : descriptor.Tidy) (h : Reordered descriptor other) :
    Alike Violation.Reordered (ServiceProxy.Like Likeness.OrderedValue)
      (readDescriptor descriptor) (readDescriptor other) := by
  cases descriptor with
  | obj fields =>
      obtain ⟨others, rfl⟩ : ∃ others, other = .obj others := by
        cases h <;> exact ⟨_, rfl⟩
      match fields with
      | [] =>
          obtain rfl := List.map_eq_nil_iff.mp h.keys_perm.nil_eq.symm
          exact .error (.refl _)
      | [(tag, body)] =>
          obtain ⟨other, rfl, hbody⟩ := h.singleton
          have hlike := And.intro (tidy.mem List.mem_cons_self) hbody
          show Alike Likeness.order.violation
            (ServiceProxy.Like Likeness.order.value) _ _
          exact readDescriptor_alike fun service _ =>
            Likeness.relates_of_ordered hlike _
      | first :: second :: rest =>
          have hlength : 2 ≤ others.length := by
            have heq := h.keys_perm.length_eq
            simp only [Fields.keys, List.length_map, List.length_cons] at heq
            omega
          rw [readDescriptor_several (by simp), readDescriptor_several hlength]
          exact .error (keysFault_reordered h.keys_perm)
  | _ => cases h <;> exact .error (.refl _)

/-- In descriptors that repeat no name, the order of the names decides
about nothing but which one of several wrong names is reported. The same
lists are accepted, and the proxies differ in the order inside of the
values that they take over. -/
theorem parse_reordered {descriptors others : List Json}
    (tidy : ∀ descriptor ∈ descriptors, descriptor.Tidy)
    (h : List.Forall₂ Reordered descriptors others) :
    Alike (fun d e => List.Forall₂ (SchemaError.Like Violation.Reordered)
      d.errors e.errors) (List.Forall₂ (ServiceProxy.Like Reordered)) (parse
      descriptors) (parse others) := by
  have hread : List.Forall₂ (fun d e => Alike Likeness.order.violation
      (ServiceProxy.Like Likeness.order.value) (readDescriptor d)
      (readDescriptor e)) descriptors others := by
    induction h with
    | nil => exact .nil
    | cons hfirst _ ih =>
        obtain ⟨hhead, hrest⟩ := List.forall_mem_cons.mp tidy
        exact .cons (readDescriptor_reordered hhead hfirst) (ih hrest)
  exact (parse_alike hread).imp fun _ _ hproxies =>
    hproxies.imp fun _ _ hproxy => hproxy.imp fun _ _ => And.right

/-- The same body backwards, and so with its role. -/
theorem parse_reversed_topic :
    Alike (fun d e => List.Forall₂ (SchemaError.Like Violation.Reordered)
      d.errors e.errors) (List.Forall₂ (ServiceProxy.Like Reordered))
      (parse [.obj [("sns", .obj [("path", .str "a"), ("method", .str "get"),
        ("roleArn", .obj [("Ref", .str "r"), ("Fn::Sub", .str "s")]),
        ("topicName", .str "t")])]])
      (parse [.obj [("sns", .obj [("topicName", .str "t"),
        ("roleArn", .obj [("Fn::Sub", .str "s"), ("Ref", .str "r")]),
        ("method", .str "get"), ("path", .str "a")])]]) := by
  refine parse_reordered ?_
    (.cons (.obj (.refl _) (.cons (.mk "sns" ?_) .nil)) .nil)
  · simp [Fields.Distinct]
  · refine .obj (List.reverse_perm _).symm
      (.cons (.mk _ (.refl _)) (.cons (.mk "roleArn" ?_) ?_))
    · exact .obj (.swap _ _ _)
        (List.forall₂_same.mpr fun _ _ => .mk _ (.refl _))
    · exact List.forall₂_same.mpr fun _ _ => .mk _ (.refl _)

end Schema

end GatewayStack
