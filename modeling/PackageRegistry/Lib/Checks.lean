import Mathlib.Logic.Basic

/-! # Chains of checks

A check returns a value or raises. These rules take a chain that has returned apart, one
check at a time.
-/

namespace Checks

variable {ε α β : Type}

theorem bind_ok {x : Except ε α} {f : α → Except ε β} {b : β} :
    x >>= f = .ok b ↔ ∃ a, x = .ok a ∧ f a = .ok b := by
  cases x with
  | error e => exact ⟨nofun, nofun⟩
  | ok a => exact ⟨fun h => ⟨a, rfl, h⟩, by rintro ⟨_, ⟨⟩, h⟩; exact h⟩

theorem ok_bind (a : α) (f : α → Except ε β) : (.ok a : Except ε α) >>= f = f a := rfl

theorem check_ok {x : Except ε Unit} {f : Unit → Except ε β} {b : β} :
    x >>= f = .ok b ↔ x = .ok () ∧ f () = .ok b := by
  rw [bind_ok]
  exact ⟨fun ⟨_, passed, h⟩ => ⟨passed, h⟩, fun ⟨passed, h⟩ => ⟨(), passed, h⟩⟩

theorem map_ok {x : Except ε α} {f : α → β} {b : β} :
    x.map f = .ok b ↔ ∃ a, x = .ok a ∧ f a = b := by
  cases x <;> simp [Except.map]

theorem error_ok {e : ε} {a : α} : (.error e : Except ε α) = .ok a ↔ False :=
  ⟨nofun, False.elim⟩

theorem exists_ok {x : Except ε α} (h : x.isOk = true) : ∃ a, x = .ok a := by
  cases x with
  | error e => cases h
  | ok a => exact ⟨a, rfl⟩

theorem guard_ok {c : Prop} [Decidable c] {x y : Except ε α} {a : α}
    (refused : x = .ok a ↔ False) : (if c then x else y) = .ok a ↔ ¬c ∧ y = .ok a := by
  split
  · rw [refused]
    simp [*]
  · simp [*]

theorem mapM_ok {f : α → Except ε β} {g : α → β} {l : List α} (h : ∀ a ∈ l, f a = .ok (g a)) :
    l.mapM f = .ok (l.map g) := by
  induction l with
  | nil => rfl
  | cons a rest ih =>
      rw [List.forall_mem_cons] at h
      rw [List.mapM_cons, h.1, ok_bind, ih h.2]
      rfl

theorem forM_ok {l : List α} {f : α → Except ε Unit} :
    l.forM f = .ok () ↔ ∀ a ∈ l, f a = .ok () := by
  induction l with
  | nil => simp [pure, Except.pure]
  | cons a rest ih =>
      rw [List.forall_mem_cons, ← ih, List.forM]
      cases f a <;> simp [bind, Except.bind]

end Checks
