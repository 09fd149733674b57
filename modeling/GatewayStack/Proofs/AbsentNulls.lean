import GatewayStack.Proofs.Acceptance
import GatewayStack.Proofs.Fields
import GatewayStack.Proofs.ReadAlike
import Mathlib.Logic.Relation

/-!
# Null fields that may be left out

A field that is known at its place and holds `null` may be left out of a
descriptor. It does not matter which one or how many there are: the list is read
to the same proxies, or refused with the same errors (`parse_without_nulls`).

Leaving one out is a `Likeness`. A reader does not see the field either way, and
the check for unknown names passes over it, since it is known. What stands above
the field is changed in one place, and there one mapping stands for another one.
-/

namespace GatewayStack

namespace Fields

variable {α : Type}

/-- A mapping without a name. -/
def erase (fields : Fields α) (name : String) : Fields α :=
  fields.filter fun entry => entry.1 ≠ name

theorem get?_erase (fields : Fields α) (name other : String) :
    get? (erase fields name) other = if other = name then none
      else get? fields other := by
  induction fields with
  | nil => simp [erase]
  | cons entry rest ih =>
      obtain ⟨k, v⟩ := entry
      unfold erase at ih ⊢
      by_cases hk : k = name
      · subst hk
        rw [List.filter_cons_of_neg (by simp), ih]
        by_cases ho : other = k
        · simp [ho]
        · simp [get?, ho, Ne.symm ho]
      · rw [List.filter_cons_of_pos (by simpa using hk), get?, get?, ih]
        by_cases ho : k = other
        · simp [← ho, hk]
        · simp [ho]

theorem keys_erase (fields : Fields α) (name : String) :
    keys (erase fields name) = (keys fields).filter (· ≠ name) := by
  unfold keys erase
  rw [List.filter_map]
  rfl

theorem keys_set_of_get? {fields : Fields α} {name : String} {old : α}
    (h : get? fields name = some old) (value : α) :
    keys (set fields name value) = keys fields := by
  rw [keys_set, if_pos (mem_keys_of_mem (mem_of_get? h))]

end Fields

namespace Json

/-- The second value is the first one without a `null` that is known
at its place. -/
inductive WithoutNull : Layout → Json → Json → Prop
  | here {known : Fields Layout} {fields : Fields Json} (name : String)
      (mem : name ∈ Fields.keys known) (found :
        Fields.get? fields name = some .null) :
      WithoutNull (.mapping known) (.obj fields)
        (.obj (Fields.erase fields name))
  | inside {known : Fields Layout} {fields : Fields Json} (name : String)
      {layout : Layout} {value less : Json}
      (place : Fields.get? known name = some layout)
      (found : Fields.get? fields name = some value)
      (h : WithoutNull layout value less) :
      WithoutNull (.mapping known) (.obj fields)
        (.obj (Fields.set fields name less))

/-- The same of a descriptor: a `null` is left out of the body of a service. -/
inductive DescriptorWithoutNull : Json → Json → Prop
  | body (service : Service) {entries : Fields Json} {value less : Json}
      (found : Fields.get? entries service.tag = some value)
      (h : WithoutNull (.mapping (Layout.body service)) value less) :
      DescriptorWithoutNull (.obj entries)
        (.obj (Fields.set entries service.tag less))

theorem WithoutNull.exists_obj {layout : Layout} {value less : Json}
    (h : WithoutNull layout value less) :
    ∃ known as bs, layout = .mapping known ∧ value = .obj as ∧
      less = .obj bs := by
  cases h <;> exact ⟨_, _, _, rfl, rfl, rfl⟩

end Json

namespace Likeness

open Json (WithoutNull)

/-- The same mapping, or without a null field somewhere. -/
def NullFields (known : Fields Layout) (as bs : Fields Json) : Prop :=
  as = bs ∨ WithoutNull (.mapping known) (.obj as) (.obj bs)

theorem relates_self (layout : Layout) (value : Json) :
    Layout.Relates Eq NullFields layout value value := by
  cases layout with
  | whole => rfl
  | mapping known => cases value with
    | obj fields => exact Or.inl rfl
    | _ => rfl

theorem relates_of_withoutNull {layout : Layout} {value less : Json}
    (h : WithoutNull layout value less) :
    Layout.Relates Eq NullFields layout value less := by
  obtain ⟨known, as, bs, rfl, rfl, rfl⟩ := h.exists_obj
  exact Or.inr h

theorem rel_self (layout : Layout) (found : Option Json) :
    Option.Rel (Layout.Relates Eq NullFields layout) found found := by
  cases found with
  | none => exact .none
  | some value => exact .some (relates_self layout value)

theorem nullFields_get? {known : Fields Layout} {as bs : Fields Json}
    (h : NullFields known as bs) (service : Service) (path : FieldPath)
    (name : String) :
    Option.Rel (Layout.Relates Eq NullFields (Layout.under known name))
      (Section.get? ⟨service, path, as⟩ name)
      (Section.get? ⟨service, path, bs⟩ name) := by
  show Option.Rel _ ((Fields.get? as name).filter _)
    ((Fields.get? bs name).filter _)
  rcases h with rfl | h
  · exact rel_self _ _
  cases h with
  | @here known fields gone mem found =>
      rw [Fields.get?_erase]
      by_cases hname : name = gone
      · rw [if_pos hname, hname, found]
        exact .none
      · rw [if_neg hname]
        exact rel_self _ _
  | @inside known fields changed layout value less place found h =>
      by_cases hname : changed = name
      · subst hname
        have hlayout : Layout.under known changed = layout := by
          rw [Layout.under, place, Option.getD_some]
        rw [found, Fields.get?_set_self, hlayout]
        obtain ⟨_, as, bs, rfl, rfl, rfl⟩ := h.exists_obj
        exact .some (Or.inr h)
      · rw [Fields.get?_set_of_ne _ _ hname]
        exact rel_self _ _

/-- The first name outside a list is the same when the names that are left
out are in it. -/
theorem nullFields_allowOnly {known : Fields Layout} {as bs : Fields Json}
    (h : NullFields known as bs) (service : Service) (path : FieldPath)
    (names : List String) (hnames : Fields.keys known ⊆ names) :
    Section.allowOnly ⟨service, path, as⟩ names
      = Section.allowOnly ⟨service, path, bs⟩ names := by
  have hfind : (Fields.keys bs).find? (fun name => !names.contains name)
      = (Fields.keys as).find? fun name => !names.contains name := by
    rcases h with rfl | h
    · rfl
    cases h with
    | @here known fields gone mem found =>
        have outside (name : String) :
            decide (decide (name ≠ gone) = true ∧ (!names.contains name) = true)
              = !names.contains name := by
          by_cases hname : name = gone
          · simp [hname, hnames mem]
          · simp [hname]
        rw [Fields.keys_erase, List.find?_filter]
        exact congrArg (fun p => List.find? p _) (funext outside)
    | inside _ place found h => rw [Fields.keys_set_of_get? found]
  unfold Section.allowOnly
  rw [hfind]
  rfl

/-- Leaving out null fields. -/
def nulls : Likeness where
  value := Eq
  fields := NullFields
  violation := Eq
  violation_refl _ := rfl
  value_cases := Or.inl
  stringList? h := by rw [h]
  stringMap? h := by rw [h]
  boolMap? h := by rw [h]
  read? _ _ _ h := by rw [h]
  get? := nullFields_get?
  allowOnly h service path names hnames := by
    rw [nullFields_allowOnly h service path names hnames]
    exact .refl (fun _ => rfl) _

end Likeness

theorem ServiceProxy.Like.eq {a b : ServiceProxy} (h : a.Like Eq b) :
    a = b := by
  obtain ⟨⟨hid, hrole, hothers⟩, htarget⟩ := h
  have eq_of_rel {x y : Option Json} (h : Option.Rel Eq x y) : x = y := by
    rcases rel_cases h with ⟨rfl, rfl⟩ | ⟨v, w, rfl, rfl, rfl⟩ <;> rfl
  rw [← eq_of_rel hid, ← eq_of_rel hrole] at hothers
  exact congrArg₂ ServiceProxy.mk hothers.symm htarget.symm

namespace Schema

open Json (WithoutNull DescriptorWithoutNull)

theorem readDescriptor_withoutNull {descriptor less : Json}
    (h : DescriptorWithoutNull descriptor less) :
    readDescriptor less = readDescriptor descriptor := by
  obtain @⟨service, entries, value, less, found, h⟩ := h
  match entries with
  | [(tag, body)] =>
      rw [Fields.get?] at found
      split at found
      · next htag =>
          obtain rfl := Option.some.inj found
          rw [Fields.set, if_pos htag]
          have hread : Alike Likeness.nulls.violation
              (ServiceProxy.Like Likeness.nulls.value)
              (readDescriptor (.obj [(tag, body)]))
              (readDescriptor (.obj [(tag, less)])) := by
            refine readDescriptor_alike fun other hother => ?_
            rw [htag, Service.ofTag?_eq_some.mpr rfl] at hother
            obtain rfl := Option.some.inj hother
            exact Likeness.relates_of_withoutNull h
          exact (hread.imp fun _ _ => ServiceProxy.Like.eq).eq.symm
      · cases found
  | a :: b :: rest =>
      have hlength : 2 ≤ (Fields.set (a :: b :: rest) service.tag
          less).length := by
        rw [← List.length_map Prod.fst]
        show 2 ≤ (Fields.keys _).length
        rw [Fields.keys_set_of_get? found]
        simp [Fields.keys]
      rw [readDescriptor_several hlength, readDescriptor_several (by simp),
        Fields.keys_set_of_get? found]

/-! ## A whole list -/

section reads

variable {descriptors others : List Json}
  (h : List.Forall₂ (fun d e => readDescriptor e = readDescriptor d)
    descriptors others)
include h

theorem placedFrom_of_reads (start : Nat) :
    placedFrom start others = placedFrom start descriptors := by
  induction h generalizing start with
  | nil => rfl
  | cons hread _ ih => rw [placedFrom, placedFrom, hread, ih]

theorem errorsFrom_of_reads (placed : List Placed) (start : Nat) :
    errorsFrom placed start others = errorsFrom placed start descriptors := by
  induction h generalizing start with
  | nil => rfl
  | cons hread _ ih =>
      rw [errorsFrom, errorsFrom, errorsAt, errorsAt, hread, ih]

/-- A list is parsed by what its descriptors are read to. -/
theorem parse_of_reads : parse others = parse descriptors := by
  simp only [parse_eq, placedFrom_of_reads h, errorsFrom_of_reads h]

end reads

/-- A list is parsed to the same without any nulls that are known at their
places: to the same proxies, or to the same errors. -/
theorem parse_without_nulls {descriptors others : List Json}
    (h : List.Forall₂ (Relation.ReflTransGen DescriptorWithoutNull)
      descriptors others) :
    parse others = parse descriptors := by
  refine parse_of_reads (h.imp fun descriptor less hless => ?_)
  -- one null at a time
  induction hless with
  | refl => rfl
  | tail _ hstep ih => rw [readDescriptor_withoutNull hstep, ih]

/-- A null key of the CORS settings and a null way to name the partition
key: both may go. -/
theorem parse_stream_without_nulls :
    parse [.obj [("kinesis", .obj [("path", .str "a"), ("method", .str "put"),
        ("streamName", .str "s"), ("cors", .obj []),
        ("partitionKey", .obj [("pathParam", .str "id")])])]]
      = parse [.obj [("kinesis",
        .obj [("path", .str "a"), ("method", .str "put"),
          ("streamName", .str "s"), ("cors", .obj [("maxAge", .null)]),
        ("partitionKey", .obj [("bodyParam", .null),
          ("pathParam", .str "id")])])]] :=
  parse_without_nulls <| .cons
    (.head (.body .kinesis rfl
      (.inside "cors" rfl rfl (.here "maxAge" (by decide) rfl)))
      (.single (.body .kinesis rfl
        (.inside "partitionKey" rfl rfl (.here "bodyParam" (by decide) rfl)))))
    .nil

end Schema

end GatewayStack
