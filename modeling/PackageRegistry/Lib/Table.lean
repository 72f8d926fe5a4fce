import Mathlib.Data.List.Lex

/-! # Tables with a primary key

A table is an extensional sorted map: two tables with the same rows are equal, and
listing one goes through the keys in order.
-/

attribute [instance] lexOrd

/-- Rows by primary key. -/
abbrev Table (κ ν : Type) [Ord κ] := Std.ExtTreeMap κ ν compare

namespace Table

/-- A dictionary with these items; a later one replaces an earlier one. -/
abbrev ofList {κ ν : Type} [Ord κ] (rows : List (κ × ν)) : Table κ ν :=
  Std.ExtTreeMap.ofList rows compare

variable {κ ν : Type} [Ord κ] [Std.TransOrd κ] (t : Table κ ν)

@[simp] theorem get_empty (k : κ) : (∅ : Table κ ν)[k]? = none :=
  Std.ExtTreeMap.getElem?_empty

theorem contains_eq (k : κ) : t.contains k = t[k]?.isSome :=
  Std.ExtTreeMap.contains_eq_isSome_getElem?

omit t in
theorem ofList_concat (rows : List (κ × ν)) (k : κ) (v : ν) :
    ofList (rows ++ [(k, v)]) = (ofList rows).insert k v := by
  rw [ofList, Std.ExtTreeMap.ofList_eq_insertMany_empty, Std.ExtTreeMap.insertMany_append,
    Std.ExtTreeMap.insertMany_list_singleton, ofList, Std.ExtTreeMap.ofList_eq_insertMany_empty]

variable [Std.LawfulEqOrd κ]

theorem get_insert [DecidableEq κ] (k k' : κ) (v : ν) :
    (t.insert k v)[k']? = if k = k' then some v else t[k']? := by
  rw [Std.ExtTreeMap.getElem?_insert]
  simp only [Std.LawfulEqCmp.compare_eq_iff_eq]

theorem get_modify [DecidableEq κ] (k k' : κ) (f : ν → ν) :
    (t.modify k f)[k']? = if k = k' then t[k']?.map f else t[k']? := by
  rw [Std.ExtTreeMap.getElem?_modify]
  simp only [Std.LawfulEqCmp.compare_eq_iff_eq]
  split
  · rename_i same
    rw [same]
  · rfl

theorem mem_toList {k : κ} {v : ν} : (k, v) ∈ t.toList ↔ t[k]? = some v :=
  Std.ExtTreeMap.mem_toList_iff_getElem?_eq_some

theorem ext {t t' : Table κ ν} (same : ∀ k : κ, t[k]? = t'[k]?) : t = t' :=
  Std.ExtTreeMap.ext_getElem? same

/-- What is found in a dictionary is one of its items. -/
theorem mem_of_get_ofList [DecidableEq κ] {rows : List (κ × ν)} {k : κ} {v : ν}
    (found : (ofList rows)[k]? = some v) : (k, v) ∈ rows := by
  have built : ofList rows = Std.ExtTreeMap.insertMany (∅ : Table κ ν) rows :=
    Std.ExtTreeMap.ofList_eq_insertMany_empty
  rw [built, Std.ExtTreeMap.getElem?_insertMany_list, Std.ExtTreeMap.getElem?_empty,
    Option.or_none, List.findSomeRev?_eq_findSome?_reverse] at found
  obtain ⟨row, mem, here⟩ := List.exists_of_findSome?_eq_some found
  simp only [Std.LawfulEqCmp.compare_eq_iff_eq] at here
  split at here
  · cases here
    rename_i same
    rw [← same]
    exact List.mem_reverse.mp mem
  · cases here

/-- In a dictionary without repeated keys every item is found. -/
theorem get_ofList [DecidableEq κ] {rows : List (κ × ν)} (distinct : (rows.map (·.1)).Nodup)
    (k : κ) (v : ν) : (ofList rows)[k]? = some v ↔ (k, v) ∈ rows := by
  refine ⟨mem_of_get_ofList, fun mem => ?_⟩
  refine Std.ExtTreeMap.getElem?_ofList_of_mem Std.ReflCmp.compare_self ?_ mem
  exact (List.pairwise_map.mp distinct).imp fun different same =>
    different (Std.LawfulEqCmp.compare_eq_iff_eq.mp same)

theorem nodup_keys : (t.toList.map (·.1)).Nodup :=
  List.pairwise_map.mpr (t.distinct_keys_toList.imp fun different same =>
    different (by rw [same]; exact Std.ReflCmp.compare_self))

@[simp] theorem ofList_toList [DecidableEq κ] : ofList t.toList = t :=
  ext fun k => Option.ext fun v => by
    rw [get_ofList (nodup_keys t), mem_toList]

/-- Two tables with the same rows of a kind list them alike. -/
theorem filter_congr {t t' : Table κ ν} {p q : κ × ν → Bool}
    (same : ∀ k v, t[k]? = some v ∧ p (k, v) = true ↔ t'[k]? = some v ∧ q (k, v) = true) :
    t.toList.filter p = t'.toList.filter q := by
  have sorted : ∀ (t : Table κ ν) (p : κ × ν → Bool),
      (t.toList.filter p).Pairwise fun a b => compare a.1 b.1 = .lt := fun t p =>
    t.ordered_keys_toList.filter p
  have distinct : ∀ (t : Table κ ν) (p : κ × ν → Bool), (t.toList.filter p).Nodup := fun t p =>
    ((List.pairwise_map.mp (nodup_keys t)).imp fun other same => other (congrArg _ same)).filter p
  refine List.Perm.eq_of_pairwise (fun a b _ _ less more => ?_) (sorted t p) (sorted t' q)
    ((List.perm_ext_iff_of_nodup (distinct t p) (distinct t' q)).mpr fun row => ?_)
  · have less' := Std.OrientedCmp.gt_of_lt less
    rw [more] at less'
    cases less'
  · obtain ⟨k, v⟩ := row
    rw [List.mem_filter, List.mem_filter, mem_toList, mem_toList]
    exact same k v

/-- The keys of the rows that satisfy a condition, in order. -/
def keysWhere (p : κ → ν → Bool) : List κ :=
  (t.toList.filter fun row => p row.1 row.2).map (·.1)

theorem mem_keysWhere {p : κ → ν → Bool} {k : κ} :
    k ∈ keysWhere t p ↔ ∃ v, t[k]? = some v ∧ p k v = true := by
  simp [keysWhere]

theorem nodup_keysWhere {p : κ → ν → Bool} : (keysWhere t p).Nodup :=
  (List.filter_sublist.map _).nodup (nodup_keys t)

end Table
