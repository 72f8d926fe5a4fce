import Mathlib.Data.List.Basic
import Mathlib.Data.List.Count

/-! # Runs of a step function

A system is a total step function on states and events. An interleaving is the
list of its events in the order in which they happen, so a statement about every
interleaving is a statement about every list of events.
-/

namespace Runs

variable {σ ε : Type*} {step : σ → ε → σ}

/-- The state after a list of events. -/
def run (step : σ → ε → σ) (s : σ) (events : List ε) : σ :=
  events.foldl step s

@[simp] theorem run_nil (s : σ) : run step s [] = s := rfl

@[simp] theorem run_cons (s : σ) (e : ε) (es : List ε) :
    run step s (e :: es) = run step (step s e) es := rfl

@[simp] theorem run_append (s : σ) (es fs : List ε) :
    run step s (es ++ fs) = run step (run step s es) fs :=
  List.foldl_append

/-- Every step of the run satisfies `ok`, judged in the state it starts from. -/
def Along (step : σ → ε → σ) (ok : σ → ε → Prop) : σ → List ε → Prop
  | _, [] => True
  | s, e :: es => ok s e ∧ Along step ok (step s e) es

@[simp] theorem along_nil (ok : σ → ε → Prop) (s : σ) : Along step ok s [] := trivial

@[simp] theorem along_cons (ok : σ → ε → Prop) (s : σ) (e : ε) (es : List ε) :
    Along step ok s (e :: es) ↔ ok s e ∧ Along step ok (step s e) es := Iff.rfl

instance decidableAlong {ok : σ → ε → Prop} [∀ s e, Decidable (ok s e)] :
    ∀ (s : σ) (es : List ε), Decidable (Along step ok s es)
  | _, [] => inferInstanceAs (Decidable True)
  | s, e :: es =>
      have : Decidable (Along step ok (step s e) es) := decidableAlong (step s e) es
      inferInstanceAs (Decidable (ok s e ∧ Along step ok (step s e) es))

theorem along_append (ok : σ → ε → Prop) (s : σ) (es fs : List ε) :
    Along step ok s (es ++ fs) ↔ Along step ok s es ∧ Along step ok (run step s es) fs := by
  induction es generalizing s with
  | nil => simp
  | cons e es ih => simp only [List.cons_append, along_cons, ih, run_cons, and_assoc]

theorem Along.mono {ok ok' : σ → ε → Prop} (weaker : ∀ s e, ok s e → ok' s e) {s : σ}
    {es : List ε} (h : Along step ok s es) : Along step ok' s es := by
  induction es generalizing s with
  | nil => trivial
  | cons e es ih => exact ⟨weaker s e h.1, ih h.2⟩

/-- What each guarded step from a state with the invariant satisfies holds along every
    guarded run. -/
theorem Along.of_invariant {I : σ → Prop} {ok ok' : σ → ε → Prop}
    (keeps : ∀ s e, I s → I (step s e)) (each : ∀ s e, I s → ok s e → ok' s e) {s : σ}
    {es : List ε} (start : I s) (h : Along step ok s es) : Along step ok' s es := by
  induction es generalizing s with
  | nil => trivial
  | cons e es ih => exact ⟨each s e start h.1, ih (keeps s e start) h.2⟩

/-- A guard that looks at the event alone holds along a run when it holds of
    every event of the list. -/
theorem along_of_forall {ok : ε → Prop} {es : List ε} (h : ∀ e ∈ es, ok e) (s : σ) :
    Along step (fun _ e => ok e) s es := by
  induction es generalizing s with
  | nil => trivial
  | cons e es ih =>
      exact ⟨h e (by simp), ih (fun e' he' => h e' (List.mem_cons_of_mem _ he')) _⟩

theorem along_of_always {ok : σ → ε → Prop} (h : ∀ s e, ok s e) (s : σ) (es : List ε) :
    Along step ok s es := by
  induction es generalizing s with
  | nil => trivial
  | cons e es ih => exact ⟨h s e, ih (step s e)⟩

/-- The induction of every safety proof: what each admissible step keeps holds
    after every admissible run. -/
theorem run_invariant_along {I : σ → Prop} {A : σ → ε → Prop}
    (keeps : ∀ s e, I s → A s e → I (step s e)) {s : σ} (start : I s) {es : List ε}
    (admissible : Along step A s es) : I (run step s es) := by
  induction es generalizing s with
  | nil => exact start
  | cons e es ih => exact ih (keeps s e start admissible.1) admissible.2

theorem run_invariant {I : σ → Prop} (keeps : ∀ s e, I s → I (step s e)) {s : σ} (start : I s)
    (es : List ε) : I (run step s es) := by
  induction es generalizing s with
  | nil => exact start
  | cons e es ih => exact ih (keeps s e start)

/-- A reflexive and transitive relation that holds across each step from a state
    with the invariant holds across every run. -/
theorem run_relation {I : σ → Prop} {R : σ → σ → Prop} (keeps : ∀ s e, I s → I (step s e))
    (refl : ∀ s, R s s) (trans : ∀ {a b c}, R a b → R b c → R a c)
    (across : ∀ s e, I s → R s (step s e)) {s : σ} (start : I s) (es : List ε) :
    R s (run step s es) := by
  induction es generalizing s with
  | nil => exact refl s
  | cons e es ih => exact trans (across s e start) (ih (keeps s e start))

/-- A rank that no admissible step raises and that every step of one's own lowers
    falls at least by the number of these steps. -/
theorem run_rank {I : σ → Prop} {A : σ → ε → Prop} {mine : ε → Bool} (rank : σ → Nat)
    (keeps : ∀ s e, I s → A s e → I (step s e))
    (never_up : ∀ s e, I s → A s e → rank (step s e) ≤ rank s)
    (down : ∀ s e, I s → A s e → mine e = true → rank (step s e) ≤ rank s - 1) {s : σ}
    (start : I s) {es : List ε} (admissible : Along step A s es) :
    rank (run step s es) ≤ rank s - es.countP mine := by
  induction es generalizing s with
  | nil => exact Nat.le_refl _
  | cons e es ih =>
      obtain ⟨first, rest⟩ := admissible
      have later := ih (keeps s e start first) rest
      have up := never_up s e start first
      rw [run_cons, List.countP_cons]
      split
      · have lower := down s e start first ‹_›
        omega
      · omega

end Runs
