import Mathlib.Data.List.Sort
import Mathlib.Order.Lattice

/-! # Sorting by a key, and the first of the greatest

Python's `sorted` is stable and its `max` takes the first of several greatest
elements. So `max` does not see whether its list is sorted, and a selection from a
sorted list is the sorted selection.
-/

section

variable {α κ : Type*} [LinearOrder κ] (key : α → κ)

/-- `sorted(l, key=key)` -/
def sortBy (l : List α) : List α :=
  l.insertionSort fun a b => key a ≤ key b

/-- `max(l, key=key)` -/
def firstMax : List α → Option α
  | [] => none
  | a :: rest =>
      match firstMax rest with
      | some b => if key b ≤ key a then some a else some b
      | none => some a

end

namespace StableSort

variable {α κ : Type*} [LinearOrder κ] (key : α → κ)

def Ascending (l : List α) : Prop := l.Pairwise fun a b => key a ≤ key b

theorem perm_sortBy (l : List α) : (sortBy key l).Perm l :=
  List.perm_insertionSort _ l

theorem ascending_sortBy (l : List α) : Ascending key (sortBy key l) := by
  have total : Std.Total fun a b : α => key a ≤ key b := ⟨fun a b => le_total (key a) (key b)⟩
  have trans : IsTrans α fun a b => key a ≤ key b := ⟨fun _ _ _ => le_trans⟩
  exact List.pairwise_insertionSort _ l

theorem sortBy_of_ascending {l : List α} (h : Ascending key l) : sortBy key l = l :=
  List.Pairwise.insertionSort_eq h

@[simp] theorem sortBy_sortBy (l : List α) : sortBy key (sortBy key l) = sortBy key l :=
  sortBy_of_ascending key (ascending_sortBy key l)

@[simp] theorem mem_sortBy {l : List α} {a : α} : a ∈ sortBy key l ↔ a ∈ l :=
  (perm_sortBy key l).mem_iff

/-- With distinct keys the order of the list does not matter. -/
theorem sortBy_perm {l l' : List α} (perm : l.Perm l') (distinct : (l.map key).Nodup) :
    sortBy key l = sortBy key l' := by
  refine List.Perm.eq_of_pairwise ?_ (ascending_sortBy key l) (ascending_sortBy key l')
    ((perm_sortBy key l).trans (perm.trans (perm_sortBy key l').symm))
  intro a b inLeft inRight below above
  have aMem : a ∈ l := (mem_sortBy key).mp inLeft
  have bMem : b ∈ l := perm.mem_iff.mpr ((mem_sortBy key).mp inRight)
  exact List.inj_on_of_nodup_map distinct aMem bMem (le_antisymm below above)

/-! ## One insertion -/

def insertBy (a : α) (l : List α) : List α :=
  l.orderedInsert (fun a b => key a ≤ key b) a

theorem sortBy_cons (a : α) (l : List α) : sortBy key (a :: l) = insertBy key a (sortBy key l) :=
  rfl

theorem insertBy_of_le {a : α} {l : List α} (h : ∀ b ∈ l, key a ≤ key b) :
    insertBy key a l = a :: l := by
  cases l with
  | nil => rfl
  | cons b rest => exact List.orderedInsert_cons_of_le _ rest (h b (by simp))

theorem insertBy_of_lt {a b : α} (h : key b < key a) (rest : List α) :
    insertBy key a (b :: rest) = b :: insertBy key a rest :=
  List.orderedInsert_of_not_le _ rest (not_le.mpr h)

theorem filter_insertBy (p : α → Bool) (a : α) {l : List α} (h : Ascending key l) :
    (insertBy key a l).filter p = if p a then insertBy key a (l.filter p) else l.filter p := by
  induction l with
  | nil => exact List.filter_cons
  | cons b rest ih =>
      obtain ⟨above, sorted⟩ := List.pairwise_cons.mp h
      rcases le_or_gt (key a) (key b) with first | later
      · have smallest : ∀ c ∈ b :: rest, key a ≤ key c := by
          rintro c (_ | ⟨_, mem⟩)
          · exact first
          · exact first.trans (above c mem)
        have front := insertBy_of_le key fun c mem =>
          smallest c (List.mem_of_mem_filter (p := p) mem)
        rw [insertBy_of_le key smallest, front, List.filter_cons]
      · rw [insertBy_of_lt key later, List.filter_cons, ih sorted]
        cases kept : p b <;> cases chosen : p a <;>
          simp [kept, insertBy_of_lt key later]

theorem firstMax_insertBy (a : α) (l : List α) :
    firstMax key (insertBy key a l) = firstMax key (a :: l) := by
  induction l with
  | nil => rfl
  | cons b rest ih =>
      rcases le_or_gt (key a) (key b) with first | later
      · exact congrArg (firstMax key) (List.orderedInsert_cons_of_le _ rest first)
      · rw [insertBy_of_lt key later, firstMax, ih]
        cases greatest : firstMax key rest with
        | none => grind [firstMax]
        | some c => grind [firstMax]

/-- What holds between earlier and later elements still does between equal keys. -/
def Refined (R : α → α → Prop) (a b : α) : Prop := key a < key b ∨ key a = key b ∧ R a b

theorem pairwise_insertBy {R : α → α → Prop} {a : α} {l : List α} (sorted : l.Pairwise (Refined key R))
    (before : ∀ b ∈ l, R a b) : (insertBy key a l).Pairwise (Refined key R) := by
  induction l with
  | nil => exact List.pairwise_singleton _ a
  | cons b rest ih =>
      rw [List.forall_mem_cons] at before
      obtain ⟨above, others⟩ := List.pairwise_cons.mp sorted
      have climbs : ∀ c ∈ rest, key b ≤ key c := by
        intro c mem
        rcases above c mem with less | ⟨same, -⟩
        · exact less.le
        · exact same.le
      have refined {c : α} (le : key a ≤ key c) (related : R a c) : Refined key R a c := by
        rcases le.lt_or_eq with less | same
        · exact .inl less
        · exact .inr ⟨same, related⟩
      rcases le_or_gt (key a) (key b) with first | later
      · have smallest : ∀ c ∈ b :: rest, key a ≤ key c :=
          List.forall_mem_cons.mpr ⟨first, fun c mem => first.trans (climbs c mem)⟩
        rw [insertBy_of_le key smallest, List.pairwise_cons, List.forall_mem_cons]
        exact ⟨⟨refined first before.1, fun c mem =>
          refined (first.trans (climbs c mem)) (before.2 c mem)⟩, sorted⟩
      · rw [insertBy_of_lt key later, List.pairwise_cons]
        refine ⟨fun c mem => ?_, ih others before.2⟩
        rcases (List.mem_orderedInsert _).mp mem with rfl | inRest
        · exact .inl later
        · exact above c inRest

/-- Sorting twice: the second key counts first, and the order before decides between equal keys. -/
theorem pairwise_sortBy {R : α → α → Prop} {l : List α} (h : l.Pairwise R) :
    (sortBy key l).Pairwise (Refined key R) := by
  induction l with
  | nil => exact List.Pairwise.nil
  | cons a rest ih =>
      obtain ⟨before, others⟩ := List.pairwise_cons.mp h
      rw [sortBy_cons]
      exact pairwise_insertBy key (ih others) fun b mem => before b ((mem_sortBy key).mp mem)

/-! ## The two operations together -/

/-- Sorting is stable: a selection from the sorted list is sorted by itself. -/
theorem filter_sortBy (p : α → Bool) (l : List α) :
    (sortBy key l).filter p = sortBy key (l.filter p) := by
  induction l with
  | nil => rfl
  | cons a rest ih =>
      rw [sortBy_cons, filter_insertBy key p a (ascending_sortBy key rest), ih, List.filter_cons]
      cases chosen : p a
      · rfl
      · rfl

/-- The first of the greatest is the same in the sorted list. -/
theorem firstMax_sortBy (l : List α) : firstMax key (sortBy key l) = firstMax key l := by
  induction l with
  | nil => rfl
  | cons a rest ih =>
      rw [sortBy_cons, firstMax_insertBy, firstMax, ih]
      rfl

theorem firstMax_mem {l : List α} {a : α} (h : firstMax key l = some a) : a ∈ l := by
  induction l generalizing a with
  | nil => cases h
  | cons b rest ih => grind [firstMax]

theorem firstMax_eq_none {l : List α} : firstMax key l = none ↔ l = [] := by
  cases l with
  | nil => simp [firstMax]
  | cons a rest =>
      rw [firstMax]
      split
      · split <;> simp
      · simp

/-- Before the first of the greatest everything is smaller, and after it nothing is greater. -/
theorem firstMax_split {l : List α} {a : α} (h : firstMax key l = some a) :
    ∃ before after, l = before ++ a :: after ∧ (∀ b ∈ before, key b < key a) ∧
      ∀ b ∈ after, key b ≤ key a := by
  induction l generalizing a with
  | nil => cases h
  | cons b rest ih =>
      rw [firstMax] at h
      split at h
      · rename_i c greatest
        obtain ⟨before, after, rfl, smaller, notGreater⟩ := ih greatest
        split at h
        · rename_i first
          cases h
          refine ⟨[], before ++ c :: after, rfl, by simp, fun d mem => ?_⟩
          rcases List.mem_append.mp mem with early | late
          · exact ((smaller d early).trans_le first).le
          · rcases List.mem_cons.mp late with rfl | late
            · exact first
            · exact (notGreater d late).trans first
        · rename_i later
          cases h
          refine ⟨b :: before, after, rfl, fun d mem => ?_, notGreater⟩
          rcases List.mem_cons.mp mem with rfl | early
          · exact not_le.mp later
          · exact smaller d early
      · rename_i empty
        cases h
        rw [(firstMax_eq_none key).mp empty]
        exact ⟨[], [], rfl, by simp, by simp⟩

/-- There is one first of the greatest. -/
theorem firstMax_of_split {before after : List α} {a : α} (smaller : ∀ b ∈ before, key b < key a)
    (notGreater : ∀ b ∈ after, key b ≤ key a) :
    firstMax key (before ++ a :: after) = some a := by
  induction before with
  | nil =>
      rw [List.nil_append, firstMax]
      split
      · rename_i b greatest
        rw [if_pos (notGreater b (firstMax_mem key greatest))]
      · rfl
  | cons b rest ih =>
      rw [List.forall_mem_cons] at smaller
      rw [List.cons_append, firstMax, ih smaller.2]
      exact if_neg (not_le.mpr smaller.1)

/-- The first of the greatest among the selected ones, in terms of the whole list -/
theorem firstMax_filter {p : α → Bool} {l : List α} {a : α} :
    firstMax key (l.filter p) = some a ↔ ∃ before after, l = before ++ a :: after ∧ p a = true ∧
      (∀ b ∈ before, p b = true → key b < key a) ∧ ∀ b ∈ after, p b = true → key b ≤ key a := by
  constructor
  · intro greatest
    obtain ⟨before, after, split, smaller, notGreater⟩ := firstMax_split key greatest
    obtain ⟨front, back, rfl, rfl, back_eq⟩ := List.filter_eq_append_iff.mp split
    obtain ⟨skipped, rest, rfl, none, selected, rfl⟩ := List.filter_eq_cons_iff.mp back_eq
    refine ⟨front ++ skipped, rest, by simp, selected, fun b mem chosen => ?_,
      fun b mem chosen => notGreater b (List.mem_filter.mpr ⟨mem, chosen⟩)⟩
    rcases List.mem_append.mp mem with early | late
    · exact smaller b (List.mem_filter.mpr ⟨early, chosen⟩)
    · exact absurd chosen (none b late)
  · rintro ⟨before, after, rfl, selected, smaller, notGreater⟩
    rw [List.filter_append, List.filter_cons_of_pos selected]
    apply firstMax_of_split
    · intro b mem
      obtain ⟨mem, chosen⟩ := List.mem_filter.mp mem
      exact smaller b mem chosen
    · intro b mem
      obtain ⟨mem, chosen⟩ := List.mem_filter.mp mem
      exact notGreater b mem chosen

theorem firstMax_greatest {l : List α} {a b : α} (h : firstMax key l = some a) (mem : b ∈ l) :
    key b ≤ key a := by
  obtain ⟨before, after, rfl, smaller, notGreater⟩ := firstMax_split key h
  rcases List.mem_append.mp mem with early | late
  · exact (smaller b early).le
  · rcases List.mem_cons.mp late with rfl | late
    · exact le_rfl
    · exact notGreater b late

/-- A list of images is sorted as the list itself if the keys agree. -/
theorem sortBy_map {β : Type*} {f : α → β} {key' : β → κ} (same : ∀ a, key' (f a) = key a)
    (l : List α) : sortBy key' (l.map f) = (sortBy key l).map f := by
  refine (List.map_insertionSort (fun a b => key a ≤ key b) (fun a b => key' a ≤ key' b) f l ?_).symm
  intro a _ b _
  rw [same, same]

end StableSort
