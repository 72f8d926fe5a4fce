import Mathlib.Order.WithBot
import Mathlib.Data.Prod.Lex
import Mathlib.Data.Sum.Order
import Mathlib.Order.Fin.Basic
import PackageRegistry.Lib.Text

/-! # How Python compares tuples

Two tuples are compared at the first items that are not equal, and a tuple comes after
its proper prefixes. Items of different types are never ordered: `<` raises there. An
encoding into tuples is ordered if `<` never raises on it and agrees with the order of
what it encodes; the rules below build such encodings.
-/

inductive PyValue where
  | int (n : Nat)
  | str (t : Text)
  | tuple (items : List PyValue)

namespace PyValue

mutual

/-- `==`, which never raises -/
def same : PyValue → PyValue → Bool
  | .int m, .int n => m == n
  | .str s, .str t => s == t
  | .tuple xs, .tuple ys => sameItems xs ys
  | _, _ => false

def sameItems : List PyValue → List PyValue → Bool
  | [], [] => true
  | x :: xs, y :: ys => same x y && sameItems xs ys
  | _, _ => false

end

mutual

/-- `<`, with nothing where it raises a `TypeError` -/
def lt : PyValue → PyValue → Option Bool
  | .int m, .int n => some (decide (m < n))
  | .str s, .str t => some (decide (s < t))
  | .tuple xs, .tuple ys => ltItems xs ys
  | _, _ => none

def ltItems : List PyValue → List PyValue → Option Bool
  | [], ys => some (!ys.isEmpty)
  | _ :: _, [] => some false
  | x :: xs, y :: ys => if same x y then ltItems xs ys else lt x y

end

mutual

theorem same_iff (x y : PyValue) : same x y = true ↔ x = y := by
  cases x with
  | int m => cases y <;> simp [same]
  | str s => cases y <;> simp [same]
  | tuple xs =>
      cases y with
      | int | str => simp [same]
      | tuple ys => simpa [same] using sameItems_iff xs ys

theorem sameItems_iff (xs ys : List PyValue) : sameItems xs ys = true ↔ xs = ys := by
  cases xs with
  | nil => cases ys <;> simp [sameItems]
  | cons x xs =>
      cases ys with
      | nil => simp [sameItems]
      | cons y ys => simp [sameItems, same_iff x y, sameItems_iff xs ys]

end

theorem ltItems_cons_self (x : PyValue) (xs ys : List PyValue) :
    ltItems (x :: xs) (x :: ys) = ltItems xs ys := by
  rw [ltItems, if_pos ((same_iff x x).mpr rfl)]

theorem ltItems_cons_ne {x y : PyValue} (different : x ≠ y) (xs ys : List PyValue) :
    ltItems (x :: xs) (y :: ys) = lt x y := by
  rw [ltItems, if_neg fun equal => different ((same_iff x y).mp equal)]

/-! ## Ordered encodings -/

section

variable {α β : Type*} [LinearOrder α] [LinearOrder β]

structure Ordered (encode : α → PyValue) : Prop where
  below : ∀ a b, a < b → lt (encode a) (encode b) = some true
  above : ∀ a b, b ≤ a → lt (encode a) (encode b) = some false

structure OrderedItems (encode : α → List PyValue) : Prop where
  below : ∀ a b, a < b → ltItems (encode a) (encode b) = some true
  above : ∀ a b, b ≤ a → ltItems (encode a) (encode b) = some false

variable {f : α → PyValue}

/-- An item that comes before another one is not equal to it. -/
theorem Ordered.ne (h : Ordered f) {a b : α} (different : a ≠ b) : f a ≠ f b := by
  intro equal
  rcases lt_or_gt_of_ne different with first | later
  · have before := h.below a b first
    rw [equal, h.above b b le_rfl] at before
    cases before
  · have before := h.below b a later
    rw [equal, h.above b b le_rfl] at before
    cases before

theorem Ordered.inj (h : Ordered f) {a b : α} : f a = f b ↔ a = b := by
  constructor
  · intro equal
    by_contra different
    exact h.ne different equal
  · intro equal
    rw [equal]

/-- `<` is defined on the encodings and says what the order says. -/
theorem Ordered.lt_eq (h : Ordered f) (a b : α) [Decidable (a < b)] :
    lt (f a) (f b) = some (decide (a < b)) := by
  by_cases first : a < b
  · rw [h.below a b first, decide_eq_true first]
  · rw [h.above a b (not_lt.mp first), decide_eq_false first]

theorem ordered_int : Ordered PyValue.int where
  below m n first := by simp [lt, first]
  above m n later := by simp [lt, later]

theorem ordered_str : Ordered PyValue.str where
  below s t first := by simp [lt, first]
  above s t later := by simpa [lt] using later

theorem OrderedItems.tuple {g : α → List PyValue} (h : OrderedItems g) :
    Ordered fun a => .tuple (g a) where
  below a b first := by rw [lt, h.below a b first]
  above a b later := by rw [lt, h.above a b later]

theorem Ordered.one (h : Ordered f) : OrderedItems fun a => [f a] where
  below a b first := by rw [ltItems_cons_ne (h.ne first.ne), h.below a b first]
  above a b later := by
    rcases eq_or_lt_of_le later with equal | first
    · rw [equal, ltItems_cons_self]
      rfl
    · rw [ltItems_cons_ne (h.ne first.ne'), h.above a b later]

/-- A first item and the rest: the lexicographic order of the pair -/
theorem Ordered.cons (h : Ordered f) {g : β → List PyValue} (rest : OrderedItems g) :
    OrderedItems fun p : α ×ₗ β => f (ofLex p).1 :: g (ofLex p).2 where
  below p q first := by
    rcases Prod.Lex.lt_iff.mp first with head | ⟨equal, tail⟩
    · rw [ltItems_cons_ne (h.ne head.ne), h.below _ _ head]
    · rw [equal, ltItems_cons_self, rest.below _ _ tail]
  above p q later := by
    rcases Prod.Lex.le_iff.mp later with head | ⟨equal, tail⟩
    · rw [ltItems_cons_ne (h.ne head.ne'), h.above _ _ head.le]
    · rw [equal, ltItems_cons_self, rest.above _ _ tail]

/-- Items of one kind: the lexicographic order of lists -/
theorem Ordered.list (h : Ordered f) : OrderedItems fun l : List α => l.map f where
  below l l' first := by
    induction first with
    | nil => rfl
    | rel head => rw [List.map_cons, List.map_cons, ltItems_cons_ne (h.ne head.ne), h.below _ _ head]
    | cons _ ih => rwa [List.map_cons, List.map_cons, ltItems_cons_self]
  above l l' later := by
    rcases eq_or_lt_of_le later with equal | first
    · rw [equal]
      clear later equal
      induction l with
      | nil => rfl
      | cons a rest ih => rwa [List.map_cons, ltItems_cons_self]
    · clear later
      induction first with
      | nil => rfl
      | rel head =>
          rw [List.map_cons, List.map_cons, ltItems_cons_ne (h.ne head.ne'), h.above _ _ head.le]
      | cons _ ih => rwa [List.map_cons, List.map_cons, ltItems_cons_self]

/-- Two kinds that are told apart by a first item: `0` comes before `1`. -/
def tagged {α β : Type*} (f : α → List PyValue) (g : β → List PyValue) : α ⊕ₗ β → List PyValue :=
  fun s =>
    match ofLex s with
    | .inl a => .int 0 :: f a
    | .inr b => .int 1 :: g b

theorem OrderedItems.tagged {g : α → List PyValue} (h : OrderedItems g) {g' : β → List PyValue}
    (h' : OrderedItems g') : OrderedItems (tagged g g') where
  below s t first := by
    cases first with
    | inl inner => exact (ltItems_cons_self _ _ _).trans (h.below _ _ inner)
    | inr inner => exact (ltItems_cons_self _ _ _).trans (h'.below _ _ inner)
    | sep a b => exact ltItems_cons_ne (by simp) _ _
  above s t later := by
    cases later with
    | inl inner => exact (ltItems_cons_self _ _ _).trans (h.above _ _ inner)
    | inr inner => exact (ltItems_cons_self _ _ _).trans (h'.above _ _ inner)
    | sep a b => exact ltItems_cons_ne (by simp) _ _

/-- `(1,)` for what comes after everything, `(0, ...)` for everything else -/
def topped {α : Type*} (f : α → PyValue) : WithTop α → List PyValue
  | ⊤ => [.int 1]
  | (a : α) => [.int 0, f a]

theorem Ordered.topped (h : Ordered f) : OrderedItems (topped f) where
  below s t first := by
    cases s with
    | top => exact absurd first not_top_lt
    | coe a =>
        cases t with
        | top => exact ltItems_cons_ne (by simp) _ _
        | coe b =>
            exact (ltItems_cons_self _ _ _).trans (h.one.below a b (WithTop.coe_lt_coe.mp first))
  above s t later := by
    cases s with
    | top =>
        cases t with
        | top => exact ltItems_cons_self _ _ _
        | coe b => exact ltItems_cons_ne (by simp) _ _
    | coe a =>
        cases t with
        | top => exact absurd later (by simp)
        | coe b =>
            exact (ltItems_cons_self _ _ _).trans (h.one.above a b (WithTop.coe_le_coe.mp later))

end

end PyValue
