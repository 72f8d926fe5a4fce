import Mathlib.Logic.Function.Basic
import Mathlib.Logic.Relation

/-! # Write-once cells

The abstract behaviour of an immutable store: a family of cells, each empty until
one write fills it. No operation empties or overwrites a cell.
-/

namespace WriteOnce

variable {κ ν : Type*}

abbrev Cells (κ ν : Type*) := κ → Option ν

/-- One step: nothing happens, or one empty cell is filled with a value that
    `legal` allows for it. -/
inductive Step [DecidableEq κ] (legal : κ → ν → Prop) : Cells κ ν → Cells κ ν → Prop where
  | stay (cells : Cells κ ν) : Step legal cells cells
  | fill (cells : Cells κ ν) (key : κ) (value : ν) (empty : cells key = none)
      (allowed : legal key value) : Step legal cells (Function.update cells key (some value))

/-- Every value of `before` is still there in `after`. -/
def Keeps (before after : Cells κ ν) : Prop :=
  ∀ key value, before key = some value → after key = some value

theorem Keeps.refl (cells : Cells κ ν) : Keeps cells cells := fun _ _ h => h

theorem Keeps.trans {a b c : Cells κ ν} (first : Keeps a b) (second : Keeps b c) : Keeps a c :=
  fun key value h => second key value (first key value h)

theorem Step.keeps [DecidableEq κ] {legal : κ → ν → Prop} {before after : Cells κ ν}
    (h : Step legal before after) : Keeps before after := by
  cases h with
  | stay => exact Keeps.refl _
  | fill key value empty _ =>
      intro other v present
      by_cases same : other = key
      · subst same
        rw [empty] at present
        cases present
      · rwa [Function.update_of_ne same]

/-- What is in a cell is legal for it, as long as it was legal at the start. -/
theorem Step.legal [DecidableEq κ] {legal : κ → ν → Prop} {before after : Cells κ ν} (h : Step legal before after)
    (start : ∀ key value, before key = some value → legal key value) :
    ∀ key value, after key = some value → legal key value := by
  cases h with
  | stay => exact start
  | fill key value _ allowed =>
      intro other v present
      by_cases same : other = key
      · subst same
        rw [Function.update_self, Option.some.injEq] at present
        exact present ▸ allowed
      · rw [Function.update_of_ne same] at present
        exact start other v present

end WriteOnce
