import Mathlib.Logic.Function.Basic

/-! # Things with at most one owner

An abstract register of who owns what. A thing that is free can be taken, one that is owned
can be shown to its owner, and only its owner gives it up. A log of such moves, latest first,
leads from one register to another.
-/

namespace Ownership

variable {I U : Type} [DecidableEq I]

abbrev Owners (I U : Type) := I → Option U

inductive Move (I U : Type) where
  /-- The owner is named; `new` if the thing was free. -/
  | enter (i : I) (u : U) (new : Bool)
  /-- The owner takes the thing, or has it already. -/
  | join (i : I) (u : U)
  /-- The owner gives up things within a scope. -/
  | release (scope : I → Prop) (u : U)
  | idle

/-- What a move can do to the register -/
def Moves (r r' : Owners I U) : Move I U → Prop
  | .enter i u new => r i = (if new then none else some u) ∧ r' = Function.update r i (some u)
  | .join i u => (r i = none ∨ r i = some u) ∧ r' = Function.update r i (some u)
  | .release scope u => ∀ i, r' i = r i ∨ scope i ∧ r i = some u ∧ r' i = none
  | .idle => r' = r

def Move.releases (i : I) (u : U) : Move I U → Prop
  | .release scope v => scope i ∧ v = u
  | _ => False

/-- The move makes `u` the owner, or finds them to be it. -/
def Move.names (i : I) (u : U) : Move I U → Prop
  | .enter j v _ | .join j v => j = i ∧ v = u
  | _ => False

inductive Replays (start : Owners I U) : List (Move I U) → Owners I U → Prop where
  | nil : Replays start [] start
  | cons {log : List (Move I U)} {r r' : Owners I U} {m : Move I U} (before : Replays start log r)
      (moves : Moves r r' m) : Replays start (m :: log) r'

variable {start r r' : Owners I U} {log newer : List (Move I U)} {m : Move I U} {i : I} {u v : U}

/-- The register says who owns what. -/
def Represents (r : Owners I U) (owns : I → U → Prop) : Prop := ∀ i u, r i = some u ↔ owns i u

section

variable {owns owns' : I → U → Prop}

omit [DecidableEq I] in
theorem Represents.free (h : Represents r owns) (nobody : ∀ v, ¬owns i v) : r i = none :=
  Option.eq_none_iff_forall_ne_some.mpr fun v owned => nobody v ((h i v).mp owned)

omit [DecidableEq I] in
theorem Represents.same (h : Represents r owns) (h' : Represents r' owns')
    (same : ∀ j v, owns' j v ↔ owns j v) : r' = r := by
  funext j
  refine Option.ext fun v => ?_
  rw [h' j v, same j v, h j v]

/-- One owner more, or the same as before -/
theorem Represents.gain (h : Represents r owns) (h' : Represents r' owns')
    (gained : ∀ j v, owns' j v ↔ owns j v ∨ j = i ∧ v = u) : r' = Function.update r i (some u) := by
  funext j
  by_cases same : j = i
  · subst same
    rw [Function.update_self]
    exact (h' j u).mpr ((gained j u).mpr (.inr ⟨rfl, rfl⟩))
  · rw [Function.update_of_ne same]
    refine Option.ext fun v => ?_
    rw [h' j v, gained j v, h j v]
    exact ⟨fun owned => owned.resolve_right fun new => same new.1, .inl⟩

omit [DecidableEq I] in
theorem Represents.loss {scope : I → Prop} (h : Represents r owns) (h' : Represents r' owns')
    (fewer : ∀ j v, owns' j v → owns j v) (kept : ∀ j v, owns j v → owns' j v ∨ scope j ∧ v = u)
    (j : I) : r' j = r j ∨ scope j ∧ r j = some u ∧ r' j = none := by
  cases now : r' j with
  | some v => exact .inl ((h j v).mpr (fewer j v ((h' j v).mp now))).symm
  | none =>
      cases was : r j with
      | none => exact .inl rfl
      | some v =>
          rcases kept j v ((h j v).mp was) with still | ⟨within, rfl⟩
          · rw [(h' j v).mpr still] at now
            cases now
          · exact .inr ⟨within, rfl, rfl⟩

end

/-- Who loses a thing has released it. -/
theorem Moves.keeps (h : Moves r r' m) (owned : r i = some u) : r' i = some u ∨ m.releases i u := by
  cases m with
  | enter j v new =>
      obtain ⟨was, rfl⟩ := h
      by_cases same : i = j
      · subst same
        cases new with
        | true =>
            rw [owned] at was
            cases was
        | false =>
            obtain rfl : u = v := by simpa [owned] using was
            simp
      · simp [Function.update_of_ne same, owned]
  | join j v =>
      obtain ⟨was, rfl⟩ := h
      by_cases same : i = j
      · subst same
        rcases was with free | mine
        · rw [owned] at free
          cases free
        · obtain rfl : u = v := by simpa [owned] using mine
          simp
      · simp [Function.update_of_ne same, owned]
  | release scope v =>
      rcases h i with same | ⟨within, mine, -⟩
      · exact .inl (same.trans owned)
      · exact .inr ⟨within, Option.some.inj (mine.symm.trans owned)⟩
  | idle =>
      have same : r' = r := h
      exact .inl (same ▸ owned)

/-- Who gains a thing is named for it. -/
theorem Moves.gains (h : Moves r r' m) (owned : r' i = some u) : r i = some u ∨ m.names i u := by
  cases m with
  | enter j v new =>
      obtain ⟨-, rfl⟩ := h
      by_cases same : i = j
      · subst same
        exact .inr ⟨rfl, by simpa using owned⟩
      · exact .inl (by simpa [Function.update_of_ne same] using owned)
  | join j v =>
      obtain ⟨-, rfl⟩ := h
      by_cases same : i = j
      · subst same
        exact .inr ⟨rfl, by simpa using owned⟩
      · exact .inl (by simpa [Function.update_of_ne same] using owned)
  | release scope v =>
      rcases h i with same | ⟨-, -, gone⟩
      · exact .inl (same.symm.trans owned)
      · rw [gone] at owned
        cases owned
  | idle =>
      have same : r' = r := h
      exact .inl (same ▸ owned)

theorem Moves.named (h : Moves r r' m) (names : m.names i u) : r' i = some u := by
  cases m with
  | enter j v new =>
      obtain ⟨-, rfl⟩ := h
      obtain ⟨rfl, rfl⟩ := names
      simp
  | join j v =>
      obtain ⟨-, rfl⟩ := h
      obtain ⟨rfl, rfl⟩ := names
      simp
  | release | idle => cases names

/-- A part of a log leads from the register before it. -/
theorem Replays.split (h : Replays start (newer ++ log) r') :
    ∃ r, Replays start log r ∧ Replays r newer r' := by
  induction newer generalizing r' with
  | nil => exact ⟨r', h, .nil⟩
  | cons m newer ih =>
      cases h with
      | cons before moves =>
          obtain ⟨r, first, second⟩ := ih before
          exact ⟨r, first, .cons second moves⟩

/-- An owner stays the owner until they release the thing. -/
theorem Replays.keeps (h : Replays start log r) (owned : start i = some u) :
    r i = some u ∨ ∃ m ∈ log, m.releases i u := by
  induction h with
  | nil => exact .inl owned
  | cons before moves ih =>
      rcases ih with still | ⟨m, mem, released⟩
      · exact (moves.keeps still).imp_right fun released => ⟨_, by simp, released⟩
      · exact .inr ⟨m, List.mem_cons_of_mem _ mem, released⟩

/-- An owner has been the owner from the start, or has been named since. -/
theorem Replays.origin (h : Replays start log r) (owned : r i = some u) :
    start i = some u ∨ ∃ m ∈ log, m.names i u := by
  induction h with
  | nil => exact .inl owned
  | cons before moves ih =>
      rcases moves.gains owned with was | named
      · rcases ih was with first | ⟨m, mem, names⟩
        · exact .inl first
        · exact .inr ⟨m, List.mem_cons_of_mem _ mem, names⟩
      · exact .inr ⟨_, by simp, named⟩

/-- Of two moves that name owners of one thing, the later one names the same owner and finds
    the thing taken, unless the owner has released it in between. -/
theorem Replays.agree {earlier : Move I U} {new : Bool} {before : List (Move I U)}
    (h : Replays start (.enter i u new :: (newer ++ earlier :: before)) r)
    (names : earlier.names i v) : u = v ∧ new = false ∨ ∃ m ∈ newer, m.releases i v := by
  cases h with
  | cons between moves =>
      obtain ⟨r₁, first, second⟩ := between.split
      have owned : r₁ i = some v := by
        cases first with
        | cons _ moves' => exact moves'.named names
      refine (second.keeps owned).imp_left fun still => ?_
      obtain ⟨was, -⟩ := moves
      cases new with
      | true =>
          rw [still] at was
          cases was
      | false => exact ⟨by simpa [still, eq_comm] using was, rfl⟩

end Ownership
