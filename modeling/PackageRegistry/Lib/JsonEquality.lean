import Mathlib.Algebra.Order.Field.Rat
import Mathlib.Tactic.NormNum
import PackageRegistry.Lib.JsonRoundTrip

/-! # How Python compares JSON values

`==` compares numbers of any type by their value, so `1`, `1.0` and `True` are equal, and
dictionaries without regard to the order of their keys. A `NaN` is equal to itself here:
all that `json.loads` returns are one object, which lists and dictionaries compare by
identity.
-/

/-- The value of a number -/
inductive Numeric where
  | rational (q : ℚ)
  | infinite (negative : Bool)
  | nan
deriving DecidableEq

def Double.numeric : Double → Numeric
  | .finite negative significand exponent =>
      let magnitude : ℚ :=
        match exponent with
        | .ofNat k => significand * 2 ^ k
        | .negSucc k => significand / 2 ^ (k + 1)
      .rational (if negative then -magnitude else magnitude)
  | .infinite negative => .infinite negative
  | .nan => .nan

namespace Json

/-- Booleans are integers in Python. -/
def numeric : Json → Option Numeric
  | .bool value => some (.rational (if value then 1 else 0))
  | .int value => some (.rational value)
  | .float value => some value.numeric
  | _ => none

mutual

/-- `==` -/
def equal : Json → Json → Bool
  | .null, .null => true
  | .str s, .str t => s == t
  | .arr items, .arr others => equalItems items others
  | .obj fields, .obj others => fields.length == others.length && equalFields fields others
  | v, w =>
      match numeric v, numeric w with
      | some x, some y => decide (x = y)
      | _, _ => false

def equalItems : List Json → List Json → Bool
  | [], [] => true
  | v :: rest, w :: others => equal v w && equalItems rest others
  | _, _ => false

/-- Every field is found among the others, with an equal value. -/
def equalFields : List (Text × Json) → List (Text × Json) → Bool
  | [], _ => true
  | (key, v) :: rest, others =>
      (match others.lookup key with
        | some w => equal v w
        | none => false) && equalFields rest others

end

@[simp] theorem equal_str (v : Json) (t : Text) : equal v (.str t) = true ↔ v = .str t := by
  cases v <;> simp [equal, numeric]

theorem equal_of_numeric {v w : Json} {x : Numeric} (left : numeric v = some x)
    (right : numeric w = some x) : equal v w = true := by
  cases v <;> cases w <;> simp_all [equal, numeric]

theorem numeric_of_equal_int {v : Json} {i : Int} (h : equal v (.int i) = true) :
    numeric v = some (.rational i) := by
  cases v with
  | bool value => simpa [equal, numeric] using h
  | int value => simpa [equal, numeric] using h
  | float value => simpa [equal, numeric] using h
  | null | str value | arr items | obj fields => simp [equal, numeric] at h

/-- Values equal to one number are equal. -/
theorem equal_trans_int {v w : Json} {i : Int} (left : equal v (.int i) = true)
    (right : equal w (.int i) = true) : equal v w = true :=
  equal_of_numeric (numeric_of_equal_int left) (numeric_of_equal_int right)

theorem equalFields_iff {fields others : List (Text × Json)} :
    equalFields fields others = true ↔
      ∀ f ∈ fields, ∃ w, others.lookup f.1 = some w ∧ equal f.2 w = true := by
  induction fields with
  | nil => simp [equalFields]
  | cons f rest ih =>
      obtain ⟨key, v⟩ := f
      rw [equalFields, Bool.and_eq_true, ih, List.forall_mem_cons]
      cases others.lookup key <;> simp

theorem equalItems_self {items : List Json} (h : ∀ v ∈ items, equal v v = true) :
    equalItems items items = true := by
  induction items with
  | nil => rfl
  | cons v rest ih =>
      rw [List.forall_mem_cons] at h
      rw [equalItems, h.1, ih h.2]
      rfl

/-- A field of a dictionary is found under its key. -/
theorem lookup_of_mem {β : Type} {fields : List (Text × β)} (distinct : (fields.map (·.1)).Nodup)
    {f : Text × β} (mem : f ∈ fields) : fields.lookup f.1 = some f.2 := by
  induction fields with
  | nil => cases mem
  | cons g rest ih =>
      rw [List.map_cons, List.nodup_cons] at distinct
      rcases List.mem_cons.mp mem with rfl | later
      · rw [List.lookup_cons, beq_self_eq_true]
      · have other : f.1 ≠ g.1 := fun same =>
          distinct.1 (same ▸ List.mem_map_of_mem later)
        rw [List.lookup_cons, beq_eq_false_iff_ne.mpr other]
        exact ih distinct.2 later

theorem mem_of_lookup {ν : Type} {fields : List (Text × ν)} {key : Text} {v : ν}
    (found : fields.lookup key = some v) : (key, v) ∈ fields := by
  obtain ⟨front, back, whole, -⟩ := List.lookup_eq_some_iff.mp found
  rw [whole]
  simp

/-- Every value that can be read is equal to itself. -/
theorem equal_self {v : Json} (plain : Plain v) : equal v v = true := by
  induction v using induct with
  | null => rfl
  | bool value => exact equal_of_numeric rfl rfl
  | int value => exact equal_of_numeric rfl rfl
  | float value => exact equal_of_numeric rfl rfl
  | str value => simp
  | arr items ih =>
      exact equalItems_self fun v mem => ih v mem ((plainItems_iff items).mp plain v mem)
  | obj fields ih =>
      obtain ⟨distinct, values⟩ := plain
      have each := (plainFields_iff fields).mp values
      rw [equal, beq_self_eq_true, Bool.true_and]
      exact equalFields_iff.mpr fun f mem =>
        ⟨f.2, lookup_of_mem distinct mem, ih f mem (each f mem)⟩

example : equal (.float .one) (.bool true) = true := by decide +kernel

/-! ## Sorted keys -/

theorem lookup_perm {fields others : List (Text × Json)} (perm : List.Perm fields others)
    (distinct : (fields.map (·.1)).Nodup) (key : Text) :
    fields.lookup key = others.lookup key := by
  have distinct' : (others.map (·.1)).Nodup := (perm.map _).nodup_iff.mp distinct
  cases found : others.lookup key with
  | none =>
      rw [List.lookup_eq_none_iff] at found ⊢
      intro f mem
      exact found f (perm.mem_iff.mp mem)
  | some v =>
      exact lookup_of_mem distinct (perm.mem_iff.mpr (mem_of_lookup found))

theorem lookup_map (fields : List (Text × Json)) (key : Text) :
    (fields.map fun f => (f.1, sortKeys f.2)).lookup key = (fields.lookup key).map sortKeys := by
  induction fields with
  | nil => rfl
  | cons f rest ih =>
      rw [List.map_cons, List.lookup_cons, List.lookup_cons, ih]
      split <;> rfl

/-- A field of a dictionary with sorted keys -/
theorem lookup_sorted {fields : List (Text × Json)} (distinct : (fields.map (·.1)).Nodup)
    (key : Text) :
    (byKey (sortFields fields)).lookup key = (fields.lookup key).map sortKeys := by
  have same : ((sortFields fields).map (·.1)).Nodup := by
    rw [sortFields_eq, List.map_map]
    exact distinct
  rw [← lookup_perm (byKey_perm (sortFields fields)).symm same, sortFields_eq, lookup_map]

theorem length_sorted (fields : List (Text × Json)) :
    (byKey (sortFields fields)).length = fields.length := by
  rw [(byKey_perm _).length_eq, sortFields_eq, List.length_map]

theorem equalItems_sortKeys {items : List Json}
    (h : ∀ v ∈ items, ∀ w, equal v.sortKeys w = equal v w) (others : List Json) :
    equalItems (sortItems items) others = equalItems items others := by
  induction items generalizing others with
  | nil => rfl
  | cons v rest ih =>
      rw [List.forall_mem_cons] at h
      cases others with
      | nil => rfl
      | cons w others => rw [sortItems, equalItems, equalItems, h.1, ih h.2]

/-- The order of the keys is not compared. -/
theorem equal_sortKeys_left (v w : Json) : equal v.sortKeys w = equal v w := by
  induction v using induct generalizing w with
  | null | bool | int | float | str => rfl
  | arr items ih =>
      cases w with
      | arr others =>
          rw [sortKeys, equal, equal]
          exact equalItems_sortKeys ih others
      | _ => rfl
  | obj fields ih =>
      cases w with
      | obj others =>
          rw [sortKeys, equal, equal, length_sorted, Bool.eq_iff_iff, Bool.and_eq_true,
            Bool.and_eq_true, equalFields_iff, equalFields_iff]
          refine and_congr_right fun _ => ?_
          simp only [(byKey_perm _).mem_iff, sortFields_eq, List.forall_mem_map]
          refine forall₂_congr fun f mem => ?_
          simp only [ih f mem]
      | _ => rfl

theorem equalItems_sortKeys_right {items others : List Json}
    (h : ∀ v ∈ items, ∀ w, Plain w → equal v w.sortKeys = equal v w)
    (plain : PlainItems others) :
    equalItems items (sortItems others) = equalItems items others := by
  induction items generalizing others with
  | nil => cases others <;> rfl
  | cons v rest ih =>
      rw [List.forall_mem_cons] at h
      cases others with
      | nil => rfl
      | cons w others => rw [sortItems, equalItems, equalItems, h.1 w plain.1, ih h.2 plain.2]

theorem equal_sortKeys_right (v : Json) {w : Json} (plain : Plain w) :
    equal v w.sortKeys = equal v w := by
  induction v using induct generalizing w with
  | null | bool | int | float | str => cases w <;> rfl
  | arr items ih =>
      cases w with
      | arr others =>
          rw [sortKeys, equal, equal]
          exact equalItems_sortKeys_right (fun v mem w => ih v mem) plain
      | _ => rfl
  | obj fields ih =>
      cases w with
      | obj others =>
          rw [sortKeys, equal, equal, length_sorted, Bool.eq_iff_iff, Bool.and_eq_true,
            Bool.and_eq_true, equalFields_iff, equalFields_iff]
          refine and_congr_right fun _ => forall₂_congr fun f mem => ?_
          rw [lookup_sorted plain.1]
          cases found : others.lookup f.1 with
          | none => simp
          | some w =>
              have inside := (plainFields_iff others).mp plain.2 _ (mem_of_lookup found)
              simp [ih f mem inside]
      | _ => rfl

end Json
