/-!
# Lists in first-seen order

Adding an item that is there already changes nothing, and a new one goes to
the end. `union` adds the items of a second list one by one; `distinct` keeps
the first occurrence of everything.
-/

namespace GatewayStack.FirstSeen

variable {α : Type} [DecidableEq α]

/-- A list with one more item, unless the item is in it. -/
def add (seen : List α) (item : α) : List α :=
  if item ∈ seen then seen else seen ++ [item]

/-- A list with the items of another one added in order. -/
def union (seen : List α) : List α → List α
  | [] => seen
  | item :: rest => union (add seen item) rest

/-- The items of a list at their first occurrence. -/
def distinct (items : List α) : List α := union [] items

theorem mem_add {seen : List α} {item other : α} :
    other ∈ add seen item ↔ other ∈ seen ∨ other = item := by
  unfold add
  split
  · next h => exact ⟨Or.inl, fun o => o.elim id (fun e => e ▸ h)⟩
  · simp

theorem mem_union {seen items : List α} {other : α} :
    other ∈ union seen items ↔ other ∈ seen ∨ other ∈ items := by
  induction items generalizing seen with
  | nil => simp [union]
  | cons item rest ih => simp [union, ih, mem_add, or_assoc]

theorem nodup_add {seen : List α} {item : α} (h : seen.Nodup) :
    (add seen item).Nodup := by
  unfold add
  split
  · exact h
  · next hn =>
    rw [List.nodup_append]
    refine ⟨h, by simp, fun a ha b hb => ?_⟩
    rw [List.mem_singleton] at hb
    subst hb
    exact fun e => hn (e ▸ ha)

theorem nodup_union {seen items : List α} (h : seen.Nodup) :
    (union seen items).Nodup := by
  induction items generalizing seen with
  | nil => exact h
  | cons item rest ih => exact ih (nodup_add h)

theorem nodup_distinct (items : List α) : (distinct items).Nodup :=
  nodup_union List.nodup_nil

/-- Nothing is lost and nothing comes in. -/
theorem mem_distinct {items : List α} {other : α} :
    other ∈ distinct items ↔ other ∈ items := by
  simp [distinct, mem_union]

end GatewayStack.FirstSeen
