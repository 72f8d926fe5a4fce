import Mathlib.Data.Finset.Card
import Mathlib.Data.List.Lemmas
import Mathlib.Data.List.Nodup

/-! # Dictionaries ordered by use

An `OrderedDict` whose items move to the end when they are used and are taken from the
front when there are too many. An item is still there as long as fewer other keys have been
used since than the dictionary may hold.
-/

/-- The items, least recently used first -/
abbrev OrderedDict (κ ν : Type*) := List (κ × ν)

namespace OrderedDict

variable {κ ν : Type*}

def keys (d : OrderedDict κ ν) : List κ := d.map (·.1)

/-- The items with a value that satisfies `live` -/
def sweep (live : ν → Bool) (d : OrderedDict κ ν) : OrderedDict κ ν :=
  d.filter fun item => live item.2

/-- `popitem(last=False)` until at most `n` items are left -/
def evict (n : Nat) (d : OrderedDict κ ν) : OrderedDict κ ν :=
  d.drop (d.length - n)

theorem length_evict (n : Nat) (d : OrderedDict κ ν) : (evict n d).length ≤ n := by
  rw [evict, List.length_drop]
  omega

theorem keys_sweep_sublist (live : ν → Bool) (d : OrderedDict κ ν) :
    (keys (sweep live d)).Sublist (keys d) :=
  List.filter_sublist.map _

theorem keys_evict_sublist (n : Nat) (d : OrderedDict κ ν) :
    (keys (evict n d)).Sublist (keys d) :=
  (List.drop_sublist _ d).map _

/-! ## What has been used since -/

/-- The last use of `k` has left the value `v`, and every item behind it has been used since. -/
def Recent (d : OrderedDict κ ν) (k : κ) (v : ν) (used : List κ) : Prop :=
  ∃ front back, d = front ++ (k, v) :: back ∧ k ∉ keys front ∧ keys back ⊆ used

variable {d : OrderedDict κ ν} {k : κ} {v : ν} {used : List κ}

theorem Recent.sweep (recent : Recent d k v used) {live : ν → Bool} (alive : live v = true) :
    Recent (sweep live d) k v used := by
  obtain ⟨front, back, rfl, absent, since⟩ := recent
  refine ⟨OrderedDict.sweep live front, OrderedDict.sweep live back, ?_, ?_, ?_⟩
  · rw [OrderedDict.sweep, List.filter_append, List.filter_cons_of_pos (by simpa using alive)]
    rfl
  · intro mem
    exact absent ((keys_sweep_sublist live front).subset mem)
  · exact List.Subset.trans (keys_sweep_sublist live back).subset since

/-- The item goes with its value. -/
theorem Recent.swept (recent : Recent d k v used) (distinct : (keys d).Nodup) {live : ν → Bool}
    (dead : live v = false) : k ∉ keys (OrderedDict.sweep live d) := by
  obtain ⟨front, back, rfl, absent, -⟩ := recent
  have behind : k ∉ keys back := by
    rw [keys, List.map_append, List.map_cons] at distinct
    exact (List.nodup_cons.mp distinct.of_append_right).1
  intro mem
  rw [OrderedDict.sweep, List.filter_append, List.filter_cons_of_neg (by simp [dead]), keys,
    List.map_append, List.mem_append] at mem
  cases mem with
  | inl left => exact absent ((keys_sweep_sublist live front).subset left)
  | inr right => exact behind ((keys_sweep_sublist live back).subset right)

/-! ## Setting an item -/

variable [DecidableEq κ]

def get (k : κ) (d : OrderedDict κ ν) : Option ν := d.lookup k

/-- The item is set and moved to the end. -/
def put (k : κ) (v : ν) (d : OrderedDict κ ν) : OrderedDict κ ν :=
  d.filter (fun item => item.1 ≠ k) ++ [(k, v)]

theorem keys_put (k : κ) (v : ν) (d : OrderedDict κ ν) :
    keys (put k v d) = (keys d).filter (· ≠ k) ++ [k] := by
  rw [keys, put, List.map_append, keys, List.filter_map]
  rfl

theorem mem_keys_put {k k' : κ} {v : ν} {d : OrderedDict κ ν} :
    k' ∈ keys (put k v d) ↔ k' = k ∨ k' ∈ keys d := by
  rw [keys_put, List.mem_append, List.mem_filter, List.mem_singleton]
  by_cases same : k' = k <;> simp [same]

theorem nodup_put (k : κ) (v : ν) {d : OrderedDict κ ν} (distinct : (keys d).Nodup) :
    (keys (put k v d)).Nodup := by
  rw [keys_put]
  refine (distinct.filter _).append (List.nodup_singleton k) ?_
  intro k' left right
  rw [List.mem_singleton] at right
  subst right
  simp at left

theorem get_absent {k : κ} {d : OrderedDict κ ν} (absent : k ∉ keys d) : get k d = none := by
  induction d with
  | nil => rfl
  | cons item rest ih =>
      rw [keys, List.map_cons, List.mem_cons, not_or] at absent
      rw [get, List.lookup_cons, beq_eq_false_iff_ne.mpr absent.1]
      exact ih absent.2

theorem Recent.get (recent : Recent d k v used) : get k d = some v := by
  obtain ⟨front, back, rfl, absent, -⟩ := recent
  have before : front.lookup k = none := get_absent absent
  rw [OrderedDict.get, List.lookup_append, before, List.lookup_cons_self, Option.none_or]

theorem recent_put (d : OrderedDict κ ν) (k : κ) (v : ν) : Recent (put k v d) k v [] := by
  refine ⟨d.filter (fun item => item.1 ≠ k), [], rfl, ?_, List.nil_subset _⟩
  simp [keys]

theorem Recent.put (recent : Recent d k v used) {k' : κ} (other : k' ≠ k) (v' : ν) :
    Recent (put k' v' d) k v (k' :: used) := by
  obtain ⟨front, back, rfl, absent, since⟩ := recent
  refine ⟨front.filter (fun item => item.1 ≠ k'),
    back.filter (fun item => item.1 ≠ k') ++ [(k', v')], ?_, ?_, ?_⟩
  · rw [OrderedDict.put, List.filter_append, List.filter_cons_of_pos (by simpa using other.symm),
      List.append_assoc, List.cons_append]
  · intro mem
    exact absent ((List.filter_sublist.map _).subset mem)
  · intro name mem
    rw [keys, List.map_append, List.mem_append] at mem
    cases mem with
    | inl left =>
        exact List.mem_cons_of_mem k' (since ((List.filter_sublist.map _).subset left))
    | inr right =>
        rw [List.map_singleton, List.mem_singleton] at right
        exact right ▸ List.mem_cons_self

/-- Fewer than `n` keys have been used since, so the item is among the last `n`. -/
theorem Recent.evict (recent : Recent d k v used) (distinct : (keys d).Nodup) {n : Nat}
    (few : used.toFinset.card < n) : Recent (evict n d) k v used := by
  obtain ⟨front, back, rfl, absent, since⟩ := recent
  have distinctBack : (keys back).Nodup := by
    rw [keys, List.map_append, List.map_cons] at distinct
    exact (List.nodup_cons.mp distinct.of_append_right).2
  have bound : back.length < n := calc
    back.length = (keys back).toFinset.card := by
      rw [List.toFinset_card_of_nodup distinctBack, keys, List.length_map]
    _ ≤ used.toFinset.card := Finset.card_le_card fun name mem =>
      List.mem_toFinset.mpr (since (List.mem_toFinset.mp mem))
    _ < n := few
  have before : (front ++ (k, v) :: back).length - n ≤ front.length := by
    simp only [List.length_append, List.length_cons]
    omega
  refine ⟨front.drop ((front ++ (k, v) :: back).length - n), back, ?_, ?_, since⟩
  · rw [OrderedDict.evict, List.drop_append_of_le_length before]
  · intro mem
    exact absent (((List.drop_sublist _ front).map _).subset mem)

end OrderedDict
