/-!
# Sequences of checks

A computation that may be refused succeeds exactly when each of its steps does,
with the results handed on. These are the two equations that take such a
sequence apart; nothing below unfolds a sequence in another way.
-/

namespace GatewayStack

variable {ε α β : Type}

theorem bind_eq_ok {x : Except ε α} {f : α → Except ε β} {b : β} :
    (x >>= f) = .ok b ↔ ∃ a, x = .ok a ∧ f a = .ok b := by
  cases x with
  | error e =>
      refine ⟨fun h => ?_, fun ⟨a, ha, _⟩ => ?_⟩
      · cases h
      · cases ha
  | ok a =>
      refine ⟨fun h => ⟨a, rfl, h⟩, fun ⟨a', ha, h⟩ => ?_⟩
      rw [Except.ok.inj ha]
      exact h

theorem map_eq_ok {x : Except ε α} {f : α → β} {b : β} :
    x.map f = .ok b ↔ ∃ a, x = .ok a ∧ f a = b := by
  cases x with
  | error e =>
      refine ⟨fun h => ?_, fun ⟨a, ha, _⟩ => ?_⟩
      · cases h
      · cases ha
  | ok a =>
      refine ⟨fun h => ⟨a, rfl, Except.ok.inj h⟩, fun ⟨a', ha, h⟩ => ?_⟩
      rw [Except.ok.inj ha, ← h]
      rfl

theorem map_eq_bind (x : Except ε α) (f : α → β) :
    x.map f = x >>= fun a => .ok (f a) := by
  cases x <;> rfl

/-- Saying otherwise why something is refused does not change what is
accepted. -/
theorem mapError_eq_ok {δ : Type} {x : Except ε α} {f : ε → δ} {a : α} :
    x.mapError f = .ok a ↔ x = .ok a := by
  cases x with
  | error e =>
      refine iff_of_false (fun h => ?_) fun h => ?_
      · cases h
      · cases h
  | ok b => exact ⟨fun h => congrArg _ (Except.ok.inj h), fun h =>
    congrArg _ (Except.ok.inj h)⟩

theorem mapError_eq_error {δ : Type} {x : Except ε α} {f : ε → δ} {d : δ} :
    x.mapError f = .error d ↔ ∃ e, x = .error e ∧ f e = d := by
  cases x with
  | error e =>
      refine ⟨fun h => ⟨e, rfl, Except.error.inj h⟩, fun ⟨e', he, h⟩ => ?_⟩
      rw [Except.error.inj he, ← h]
      rfl
  | ok a =>
      refine iff_of_false (fun h => ?_) fun ⟨e, he, _⟩ => ?_
      · cases h
      · cases he

/-- What is made of the result can be made at the end of the last step. -/
theorem map_bind {γ : Type} (f : β → γ) (x : Except ε α) (g : α → Except ε β) :
    (x >>= g).map f = x >>= fun a => (g a).map f := by
  cases x <;> rfl

/-- A check that refuses on a condition, in front of the rest. -/
theorem unless_eq_ok {c : Prop} [Decidable c] {e : ε} {f : α → Except ε β}
    {x : Except ε β} {b : β} : (if c then throw e >>= f else x) = .ok b ↔
    ¬ c ∧ x = .ok b := by
  by_cases hc : c
  · rw [if_pos hc]
    refine iff_of_false (fun h => ?_) fun h => h.1 hc
    cases h
  · rw [if_neg hc]
    exact ⟨fun h => ⟨hc, h⟩, fun h => h.2⟩

/-- The computation is not refused. -/
def Succeeds (x : Except ε α) : Prop := ∃ a, x = .ok a

theorem succeeds_ok (a : α) : Succeeds (.ok a : Except ε α) := ⟨a, rfl⟩

theorem not_succeeds_error (e : ε) : ¬ Succeeds (.error e : Except ε α) := by
  intro ⟨a, h⟩
  cases h

theorem succeeds_bind {x : Except ε α} {f : α → Except ε β} :
    Succeeds (x >>= f) ↔ ∃ a, x = .ok a ∧ Succeeds (f a) := by
  unfold Succeeds
  simp only [bind_eq_ok]
  refine ⟨fun ⟨b, a, ha, hb⟩ => ⟨a, ha, b, hb⟩,
    fun ⟨a, ha, b, hb⟩ => ⟨b, a, ha, hb⟩⟩

/-- A last step that only puts results together is not refused. -/
theorem succeeds_pure {a : α} : Succeeds (pure a : Except ε α) ↔ True :=
  iff_true_intro ⟨a, rfl⟩

theorem succeeds_unless {c : Prop} [Decidable c] {e : ε} {f : α → Except ε β}
    {x : Except ε β} :
    Succeeds (if c then throw e >>= f else x) ↔ ¬ c ∧ Succeeds x := by
  unfold Succeeds
  simp only [unless_eq_ok, exists_and_left]

theorem succeeds_map {x : Except ε α} {f : α → β} :
    Succeeds (x.map f) ↔ Succeeds x := by
  unfold Succeeds
  simp only [map_eq_ok]
  exact ⟨fun ⟨_, a, ha, _⟩ => ⟨a, ha⟩, fun ⟨a, ha⟩ => ⟨f a, a, ha, rfl⟩⟩

end GatewayStack
