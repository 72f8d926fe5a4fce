import Mathlib.Data.List.Basic

/-! # Registers with a journal

A register counts its writes. A write that names the revision that it expects to find leaves an
entry in a journal, so the journal tells all values of the register. The first value may have
come without an entry.
-/

/-- A value, and how often it has been written -/
structure Register (ν : Type) where
  value : ν
  revision : Nat

namespace Register

/-- A write: what was there before, and what it has left -/
structure Entry (ν : Type) where
  previous : Option ν
  value : ν
  revision : Nat

variable {ν : Type}

/-- The register has had these values, and the journal tells how. -/
structure Traces (values : List ν) (now : Option (Register ν)) (journal : Entry ν → Prop) : Prop where
  now : now = values.getLast?.map fun v => ⟨v, values.length⟩
  entry : ∀ e, journal e → ∃ n, e.revision = n + 1 ∧ values[n]? = some e.value ∧
    e.previous = (values.take n).getLast?
  complete : ∀ n, 0 < n → n < values.length → ∃ e, journal e ∧ e.revision = n + 1

variable {values : List ν} {now : Option (Register ν)} {journal : Entry ν → Prop}

theorem Traces.revision (h : Traces values now journal) :
    (now.map (·.revision)).getD 0 = values.length := by
  rw [h.now]
  rcases List.eq_nil_or_concat values with rfl | ⟨before, v, rfl⟩
  · rfl
  · simp

theorem Traces.value (h : Traces values now journal) : now.map (·.value) = values.getLast? := by
  rw [h.now, Option.map_map]
  exact Option.map_id'

/-- A revision has one entry at most. -/
theorem Traces.unique (h : Traces values now journal) {e e' : Entry ν} (he : journal e)
    (he' : journal e') (same : e.revision = e'.revision) : e = e' := by
  obtain ⟨n, revision, value, previous⟩ := h.entry e he
  obtain ⟨n', revision', value', previous'⟩ := h.entry e' he'
  obtain rfl : n = n' := by omega
  have sameValue : e.value = e'.value := Option.some.inj (value.symm.trans value')
  have samePrevious : e.previous = e'.previous := previous.trans previous'.symm
  cases e
  cases e'
  simp_all

/-- An entry starts from where the one before it has ended. -/
theorem Traces.chain (h : Traces values now journal) {e e' : Entry ν} (he : journal e)
    (he' : journal e') (next : e'.revision = e.revision + 1) : e'.previous = some e.value := by
  obtain ⟨n, revision, value, -⟩ := h.entry e he
  obtain ⟨n', revision', -, previous'⟩ := h.entry e' he'
  obtain rfl : n' = n + 1 := by omega
  obtain ⟨here, value⟩ := List.getElem?_eq_some_iff.mp value
  rw [previous', List.take_add_one, List.getElem?_eq_getElem here, Option.toList_some,
    List.getLast?_concat, value]

/-- One more write, at the revision that is there -/
theorem Traces.write (h : Traces values now journal) {v : ν} {journal' : Entry ν → Prop}
    (entries : ∀ e, journal' e ↔ journal e ∨ e = ⟨now.map (·.value), v, values.length + 1⟩) :
    Traces (values ++ [v]) (some ⟨v, values.length + 1⟩) journal' where
  now := by simp
  entry e he := by
    rcases (entries e).mp he with old | rfl
    · obtain ⟨n, revision, value, previous⟩ := h.entry e old
      obtain ⟨inside, -⟩ := List.getElem?_eq_some_iff.mp value
      refine ⟨n, revision, ?_, ?_⟩
      · rw [List.getElem?_append_left inside, value]
      · rw [List.take_append_of_le_length (Nat.le_of_lt inside), previous]
    · exact ⟨values.length, rfl, by simp, by simp [h.value]⟩
  complete n positive inside := by
    rw [List.length_append, List.length_singleton] at inside
    by_cases old : n < values.length
    · obtain ⟨e, he, revision⟩ := h.complete n positive old
      exact ⟨e, (entries e).mpr (.inl he), revision⟩
    · exact ⟨_, (entries _).mpr (.inr rfl), by simp; omega⟩

/-- Without entries there has been one value at most. -/
theorem Traces.quiet (h : Traces values now journal) (silent : ∀ e, ¬journal e) :
    values.length ≤ 1 := by
  by_contra more
  obtain ⟨e, he, -⟩ := h.complete 1 (by omega) (by omega)
  exact silent e he

/-- A register that has been set without an entry -/
theorem traces_of_silent (silent : ∀ e, ¬journal e) (first : ∀ r, now = some r → r.revision = 1) :
    ∃ values, Traces values now journal := by
  cases now with
  | none => exact ⟨[], rfl, fun e he => (silent e he).elim, by simp⟩
  | some r =>
      refine ⟨[r.value], ?_, fun e he => (silent e he).elim, fun n positive inside => ?_⟩
      · have one := first r rfl
        cases r
        simp_all
      · rw [List.length_singleton] at inside
        omega

end Register
