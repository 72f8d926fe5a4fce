import Mathlib.Data.List.Infix
import Mathlib.Data.List.Induction
import Mathlib.Tactic.Common

/-! # Walks up and down a tree

A path is read from the top, step by step: a name goes down, `..` goes up, unless it stands at
the top, and `.` stays. Which name comes first in the end is a matter of counting.
-/

namespace Descent

inductive Move where
  | down
  | up
  | stay
  deriving DecidableEq

variable {α : Type*} (move : α → Move)

/-- Where a walk stands after one more step. -/
def step (here : List α) (a : α) : List α :=
  match move a with
  | .down => here ++ [a]
  | .up => here.dropLast
  | .stay => here

def walk (here steps : List α) : List α := steps.foldl (step move) here

def downs (steps : List α) : Nat := steps.countP fun a => move a == .down

def ups (steps : List α) : Nat := steps.countP fun a => move a == .up

/-- From nowhere does a walk go down more than it goes up until its end. -/
def Returns (steps : List α) : Prop := ∀ tail, tail <:+ steps → downs move tail ≤ ups move tail

/-- Nowhere has a walk gone up more than it has gone down. -/
def Stays (steps : List α) : Prop := ∀ front, front <+: steps → ups move front ≤ downs move front

/-- A walk from the top comes back there, then goes to `a` and does not leave it. -/
def EndsBelow (a : α) (before after : List α) : Prop :=
  move a = .down ∧ Returns move before ∧ Stays move after

variable {move}

section

variable {here steps : List α} {a : α}

theorem walk_concat : walk move here (steps ++ [a]) = step move (walk move here steps) a := by
  rw [walk, List.foldl_concat, walk]

theorem walk_append {more : List α} :
    walk move here (steps ++ more) = walk move (walk move here steps) more :=
  List.foldl_append

theorem counts_concat (steps : List α) (a : α) :
    downs move (steps ++ [a]) = downs move steps + (if move a = .down then 1 else 0) ∧
      ups move (steps ++ [a]) = ups move steps + (if move a = .up then 1 else 0) := by
  simp [downs, ups, List.countP_append, List.countP_singleton]

/-- A walk stands as deep as the longest descent among its tails. -/
theorem length_walk_le (steps : List α) (depth : Nat) :
    (walk move [] steps).length ≤ depth ↔
      ∀ tail, tail <:+ steps → downs move tail ≤ ups move tail + depth := by
  induction steps using List.reverseRecOn generalizing depth with
  | nil =>
      constructor
      · intro _ tail suffix
        rw [List.suffix_nil.mp suffix]
        simp [downs]
      · intro _
        exact Nat.zero_le _
  | append_singleton steps a ih =>
      have tails : (∀ tail, tail <:+ steps ++ [a] → downs move tail ≤ ups move tail + depth) ↔
          ∀ tail, tail <:+ steps →
            downs move (tail ++ [a]) ≤ ups move (tail ++ [a]) + depth := by
        constructor
        · intro h tail suffix
          exact h _ (List.suffix_concat_iff.mpr (.inr ⟨tail, rfl, suffix⟩))
        · intro h tail suffix
          rcases List.suffix_concat_iff.mp suffix with rfl | ⟨front, rfl, inside⟩
          · exact Nat.zero_le _
          · exact h front inside
      rw [tails, walk_concat, step]
      cases moved : move a with
      | down =>
          rw [List.length_append, List.length_singleton]
          cases depth with
          | zero =>
              refine ⟨fun h => absurd h (by omega), fun h => ?_⟩
              have empty := h [] List.nil_suffix
              simp [moved, downs, ups] at empty
          | succ depth =>
              rw [Nat.add_le_add_iff_right, ih]
              refine forall₂_congr fun tail _ => ?_
              simp only [counts_concat, moved, reduceCtorEq, if_true, if_false]
              omega
      | up =>
          have above : (walk move [] steps).dropLast.length ≤ depth ↔
              (walk move [] steps).length ≤ depth + 1 := by
            rw [List.length_dropLast]
            omega
          rw [above, ih]
          refine forall₂_congr fun tail _ => ?_
          simp only [counts_concat, moved, reduceCtorEq, if_true, if_false]
          omega
      | stay =>
          rw [ih]
          refine forall₂_congr fun tail _ => ?_
          simp only [counts_concat, moved, reduceCtorEq, if_false, Nat.add_zero]

/-- A walk is back at the top just if it returns. -/
theorem walk_eq_nil : walk move [] steps = [] ↔ Returns move steps := by
  rw [← List.length_eq_zero_iff, ← Nat.le_zero, length_walk_le]
  rfl

theorem stays_concat : Stays move (steps ++ [a]) ↔
    Stays move steps ∧ ups move (steps ++ [a]) ≤ downs move (steps ++ [a]) := by
  constructor
  · intro h
    exact ⟨fun front before => h front (before.trans (List.prefix_append _ _)),
      h _ List.prefix_rfl⟩
  · rintro ⟨before, last⟩ front prefix_
    rcases List.prefix_concat_iff.mp prefix_ with rfl | shorter
    · exact last
    · exact before front shorter

/-- A walk that stays below a name keeps it in front. -/
theorem walk_of_stays (h : Stays move steps) : ∃ rest, walk move [a] steps = a :: rest ∧
    rest.length + ups move steps = downs move steps := by
  induction steps using List.reverseRecOn with
  | nil => exact ⟨[], rfl, rfl⟩
  | append_singleton steps b ih =>
      obtain ⟨before, last⟩ := stays_concat.mp h
      obtain ⟨rest, walked, depth⟩ := ih before
      rw [(counts_concat steps b).1, (counts_concat steps b).2] at last ⊢
      rw [walk_concat, walked, step]
      cases moved : move b with
      | down =>
          refine ⟨rest ++ [b], rfl, ?_⟩
          simp only [List.length_append, List.length_singleton, reduceCtorEq, if_true, if_false]
          omega
      | up =>
          simp only [moved, reduceCtorEq, if_true, if_false] at last ⊢
          cases rest with
          | nil =>
              simp only [List.length_nil] at depth
              omega
          | cons c rest =>
              refine ⟨(c :: rest).dropLast, rfl, ?_⟩
              rw [List.length_dropLast]
              simp only [List.length_cons] at depth ⊢
              omega
      | stay => exact ⟨rest, rfl, by simpa [moved] using depth⟩

theorem EndsBelow.concat {before after : List α} {b : α} (h : EndsBelow move a before after)
    (balanced : ups move (after ++ [b]) ≤ downs move (after ++ [b])) :
    EndsBelow move a before (after ++ [b]) :=
  ⟨h.1, h.2.1, stays_concat.mpr ⟨h.2.2, balanced⟩⟩

/-- The name that a walk ends below. -/
theorem endsBelow_of_walk {rest : List α} (h : walk move [] steps = a :: rest) :
    ∃ before after, steps = before ++ a :: after ∧ EndsBelow move a before after ∧
      rest.length + ups move after = downs move after := by
  induction steps using List.reverseRecOn generalizing a rest with
  | nil => cases h
  | append_singleton steps b ih =>
      rw [walk_concat, step] at h
      -- one step further, the depth below the name decides whether the walk is still there
      have further {before after rest' : List α}
          (shape : steps = before ++ a :: after) (ends : EndsBelow move a before after)
          (depth : rest'.length + ups move (after ++ [b]) = downs move (after ++ [b])) :
          ∃ before after, steps ++ [b] = before ++ a :: after ∧ EndsBelow move a before after ∧
            rest'.length + ups move after = downs move after :=
        ⟨before, after ++ [b], by simp [shape], ends.concat (by omega), depth⟩
      cases moved : move b with
      | down =>
          rw [moved] at h
          cases here : walk move [] steps with
          | nil =>
              rw [here] at h
              obtain ⟨rfl, rfl⟩ := List.cons.inj h
              refine ⟨steps, [], rfl, ⟨moved, walk_eq_nil.mp here, fun front inside => ?_⟩, rfl⟩
              rw [List.prefix_nil.mp inside]
              exact Nat.le_refl _
          | cons c others =>
              rw [here] at h
              obtain ⟨rfl, same⟩ := List.cons.inj h
              obtain ⟨before, after, shape, ends, depth⟩ := ih here
              have deeper : rest.length = others.length + 1 := by simp [← same]
              refine further shape ends ?_
              rw [(counts_concat after b).1, (counts_concat after b).2, moved]
              simp only [reduceCtorEq, if_true, if_false]
              omega
      | up =>
          rw [moved] at h
          cases here : walk move [] steps with
          | nil =>
              rw [here] at h
              cases h
          | cons c others =>
              rw [here] at h
              cases others with
              | nil => cases h
              | cons d others =>
                  obtain ⟨rfl, same⟩ := List.cons.inj h
                  obtain ⟨before, after, shape, ends, depth⟩ := ih here
                  have shorter : rest.length = others.length := by simp [← same]
                  rw [List.length_cons] at depth
                  refine further shape ends ?_
                  rw [(counts_concat after b).1, (counts_concat after b).2, moved]
                  simp only [reduceCtorEq, if_true, if_false]
                  omega
      | stay =>
          rw [moved] at h
          obtain ⟨before, after, shape, ends, depth⟩ := ih h
          refine further shape ends ?_
          rw [(counts_concat after b).1, (counts_concat after b).2, moved]
          simpa only [reduceCtorEq, if_false, Nat.add_zero] using depth

theorem walk_of_endsBelow {before after : List α} (h : EndsBelow move a before after) :
    ∃ rest, walk move [] (before ++ a :: after) = a :: rest ∧
      rest.length + ups move after = downs move after := by
  obtain ⟨down, returns, stays⟩ := h
  have split : before ++ a :: after = before ++ ([a] ++ after) := rfl
  rw [split, walk_append, walk_eq_nil.mpr returns, walk_append]
  have first : walk move [] [a] = [a] := by
    rw [walk, List.foldl_cons, List.foldl_nil, step, down]
    rfl
  rw [first]
  exact walk_of_stays stays

end

end Descent
