import PackageRegistry.Lib.JsonEquality
import PackageRegistry.Lib.JsonNumbers

/-! # The canonical text is a canonical form

Whatever `json.loads` returns is written so that it is read back. Two values have the same
canonical text if and only if they are the same apart from the order of fields.
-/

namespace Json

/-- The same value, apart from the order of fields. It keeps `1` and `1.0` apart, and also
    `0.0` and `-0.0`. -/
inductive Same : Json → Json → Prop
  | refl (v : Json) : Same v v
  | arr {items others : List Json} (length : items.length = others.length)
      (each : ∀ (i : Nat) v w, items[i]? = some v → others[i]? = some w → Same v w) :
      Same (.arr items) (.arr others)
  | obj {fields others : List (Text × Json)}
      (keys : List.Perm (fields.map (·.1)) (others.map (·.1)))
      (each : ∀ key v w, fields.lookup key = some v → others.lookup key = some w → Same v w) :
      Same (.obj fields) (.obj others)

/-! ## What is read is written so that it is read back -/

theorem plain_number {t rest : Text} {v : Json} (read : number t = some (v, rest)) : Plain v := by
  have float : ∀ negative digits exponent,
      Plain (.float (.ofDecimal negative digits exponent)) := fun negative digits exponent =>
    reads_float (Double.representable_ofDecimal negative digits exponent)
  unfold number at read
  dsimp only at read
  split at read
  · cases read
  · split at read
    · split at read
      · cases read
        trivial
      · cases read
        exact float _ _ _
    · cases read
      exact float _ _ _

theorem plain_scalar {t rest : Text} {v : Json} (read : scalar t = some (v, rest)) : Plain v := by
  unfold scalar at read
  split at read
  · rename_i name w found
    cases read
    have listed := List.mem_of_find?_eq_some found
    simp only [literals, List.mem_cons, Prod.mk.injEq, List.not_mem_nil, or_false] at listed
    rcases listed with ⟨-, rfl⟩ | ⟨-, rfl⟩ | ⟨-, rfl⟩ | ⟨-, rfl⟩ | ⟨-, rfl⟩ | ⟨-, rfl⟩
    · trivial
    · trivial
    · trivial
    · exact reads_float (d := .nan) trivial
    · exact reads_float (d := .infinite false) trivial
    · exact reads_float (d := .infinite true) trivial
  · exact plain_number read

theorem plain_read (fuel : Nat) :
    (∀ t v rest, value fuel t = some (v, rest) → Plain v) ∧
    (∀ t items rest, elements fuel t = some (items, rest) → PlainItems items) ∧
    (∀ t fields rest, members fuel t = some (fields, rest) → PlainFields fields) := by
  induction fuel with
  | zero => exact ⟨by simp [value], by simp [elements], by simp [members]⟩
  | succ fuel ih =>
      obtain ⟨plain_value, plain_elements, plain_members⟩ := ih
      refine ⟨fun t v rest read => ?_, fun t items rest read => ?_, fun t fields rest read => ?_⟩
      · cases t with
        | nil => simp [value] at read
        | cons c t =>
            rw [value] at read
            split at read
            · obtain ⟨_, -, same⟩ := Option.map_eq_some_iff.mp read
              cases same
              trivial
            · split at read
              · split at read
                · cases read
                · split at read
                  · cases read
                    trivial
                  · obtain ⟨⟨items, _⟩, inner, same⟩ := Option.map_eq_some_iff.mp read
                    cases same
                    exact plain_elements _ items _ inner
              · split at read
                · split at read
                  · cases read
                  · split at read
                    · cases read
                      exact ⟨List.nodup_nil, trivial⟩
                    · obtain ⟨⟨fields, _⟩, inner, kept⟩ := Option.bind_eq_some_iff.mp read
                      dsimp only at kept
                      split at kept
                      · rename_i distinct
                        cases kept
                        exact ⟨distinct, plain_members _ fields _ inner⟩
                      · cases kept
                · exact plain_scalar read
      · rw [elements] at read
        obtain ⟨⟨v, after⟩, first, more⟩ := Option.bind_eq_some_iff.mp read
        have plain := plain_value _ v _ first
        dsimp only at more
        split at more
        · cases more
        · split at more
          · cases more
            exact ⟨plain, trivial⟩
          · split at more
            · obtain ⟨⟨others, _⟩, later, same⟩ := Option.bind_eq_some_iff.mp more
              cases same
              exact ⟨plain, plain_elements _ others _ later⟩
            · cases more
      · cases t with
        | nil => simp [members] at read
        | cons q t =>
            rw [members] at read
            split at read
            · obtain ⟨⟨key, after⟩, -, more⟩ := Option.bind_eq_some_iff.mp read
              dsimp only at more
              split at more
              · cases more
              · split at more
                · obtain ⟨⟨v, after⟩, first, more⟩ := Option.bind_eq_some_iff.mp more
                  have plain := plain_value _ v _ first
                  dsimp only at more
                  split at more
                  · cases more
                  · split at more
                    · cases more
                      exact ⟨plain, trivial⟩
                    · split at more
                      · obtain ⟨⟨others, _⟩, later, same⟩ := Option.bind_eq_some_iff.mp more
                        cases same
                        exact ⟨plain, plain_members _ others _ later⟩
                      · cases more
                · cases more
            · cases read

theorem plain_loads {t : Text} {v : Json} (read : loads t = some v) : Plain v := by
  unfold loads at read
  split at read
  · rename_i w rest inner
    split at read
    · cases read
      exact (plain_read _).1 _ _ _ inner
    · cases read
  · cases read

/-! ## The order of fields -/

/-- Sorting sees only which fields there are. -/
theorem byKey_congr {α : Type} {fields others : List (Text × α)} (perm : List.Perm fields others)
    (distinct : (fields.map (·.1)).Nodup) : byKey fields = byKey others := by
  have ordered (l : List (Text × α)) : (byKey l).Pairwise fun a b => a.1 ≤ b.1 := by
    have total : Std.Total fun a b : Text × α => a.1 ≤ b.1 := ⟨fun a b => le_total a.1 b.1⟩
    have trans : IsTrans (Text × α) fun a b => a.1 ≤ b.1 := ⟨fun _ _ _ => le_trans⟩
    exact List.pairwise_insertionSort _ l
  refine List.Perm.eq_of_pairwise ?_ (ordered fields) (ordered others)
    ((byKey_perm fields).trans (perm.trans (byKey_perm others).symm))
  intro a b inFields inOthers below above
  have aMem : a ∈ fields := (byKey_perm fields).mem_iff.mp inFields
  have bMem : b ∈ fields := perm.mem_iff.mpr ((byKey_perm others).mem_iff.mp inOthers)
  exact List.inj_on_of_nodup_map distinct aMem bMem (le_antisymm below above)

theorem perm_sorted {fields others : List (Text × Json)} (distinct : (fields.map (·.1)).Nodup)
    (distinct' : (others.map (·.1)).Nodup)
    (same : ∀ key, (fields.lookup key).map sortKeys = (others.lookup key).map sortKeys) :
    List.Perm (sortFields fields) (sortFields others) := by
  have nodup {l : List (Text × Json)} (h : (l.map (·.1)).Nodup) : (sortFields l).Nodup := by
    rw [sortFields_eq]
    refine List.Nodup.of_map (·.1) ?_
    rw [List.map_map]
    exact h
  have mem_iff {l : List (Text × Json)} (h : (l.map (·.1)).Nodup) (f : Text × Json) :
      f ∈ sortFields l ↔ (l.lookup f.1).map sortKeys = some f.2 := by
    rw [sortFields_eq, List.mem_map, Option.map_eq_some_iff]
    constructor
    · rintro ⟨g, mem, rfl⟩
      exact ⟨g.2, lookup_of_mem h mem, rfl⟩
    · rintro ⟨v, found, sorted⟩
      exact ⟨(f.1, v), mem_of_lookup found, Prod.ext rfl sorted⟩
  rw [List.perm_ext_iff_of_nodup (nodup distinct) (nodup distinct')]
  intro f
  rw [mem_iff distinct, mem_iff distinct', same]

theorem Same.sortKeys_eq {v w : Json} (same : Same v w) (plain : Plain v) (plain' : Plain w) :
    v.sortKeys = w.sortKeys := by
  induction same with
  | refl v => rfl
  | @arr items others length each ih =>
      rw [sortKeys, sortKeys, sortItems_eq, sortItems_eq]
      congr 1
      refine List.ext_getElem? fun i => ?_
      rw [List.getElem?_map, List.getElem?_map]
      cases left : items[i]? with
      | none =>
          rw [List.getElem?_eq_none_iff, length, ← List.getElem?_eq_none_iff] at left
          rw [left]
      | some v =>
          obtain ⟨inside, -⟩ := List.getElem?_eq_some_iff.mp left
          have right : others[i]? = some others[i] := List.getElem?_eq_getElem (length ▸ inside)
          rw [right]
          refine congrArg some (ih i v _ left right ?_ ?_)
          · exact (plainItems_iff items).mp plain v (List.mem_of_getElem? left)
          · exact (plainItems_iff others).mp plain' _ (List.mem_of_getElem? right)
  | @obj fields others keys each ih =>
      rw [sortKeys, sortKeys]
      congr 1
      refine byKey_congr (perm_sorted plain.1 plain'.1 fun key => ?_) ?_
      · cases left : fields.lookup key with
        | none =>
            have absent : others.lookup key = none := by
              rw [List.lookup_eq_none_iff] at left ⊢
              intro f mem
              obtain ⟨g, inFields, sameKey⟩ :=
                List.mem_map.mp (keys.mem_iff.mpr (List.mem_map_of_mem mem))
              rw [← sameKey]
              exact left g inFields
            rw [absent]
        | some v =>
            have mem : key ∈ others.map (·.1) :=
              keys.mem_iff.mp (List.mem_map_of_mem (mem_of_lookup left))
            obtain ⟨g, inOthers, rfl⟩ := List.mem_map.mp mem
            have right := lookup_of_mem plain'.1 inOthers
            rw [right]
            refine congrArg some (ih g.1 v g.2 left right ?_ ?_)
            · exact (plainFields_iff fields).mp plain.2 _ (mem_of_lookup left)
            · exact (plainFields_iff others).mp plain'.2 _ inOthers
      · rw [sortFields_eq, List.map_map]
        exact plain.1

theorem same_of_sortKeys {v w : Json} (plain : Plain v) (plain' : Plain w)
    (sorted : v.sortKeys = w.sortKeys) : Same v w := by
  induction v using induct generalizing w with
  | null | bool | int | float | str =>
      cases w <;> cases sorted
      exact .refl _
  | arr items ih =>
      cases w with
      | arr others =>
          rw [sortKeys, sortKeys, sortItems_eq, sortItems_eq, Json.arr.injEq] at sorted
          have length := congrArg List.length sorted
          rw [List.length_map, List.length_map] at length
          refine .arr length fun i v w left right => ?_
          have each := congrArg (·[i]?) sorted
          simp only [List.getElem?_map, left, right, Option.map_some, Option.some.injEq] at each
          have vMem := List.mem_of_getElem? left
          exact ih v vMem ((plainItems_iff items).mp plain v vMem)
            ((plainItems_iff others).mp plain' w (List.mem_of_getElem? right)) each
      | null | bool | int | float | str | obj => cases sorted
  | obj fields ih =>
      cases w with
      | obj others =>
          rw [sortKeys, sortKeys, Json.obj.injEq] at sorted
          have keys (l : List (Text × Json)) :
              List.Perm ((byKey (sortFields l)).map (·.1)) (l.map (·.1)) := by
            refine ((byKey_perm (sortFields l)).map (·.1)).trans (List.Perm.of_eq ?_)
            rw [sortFields_eq, List.map_map]
            rfl
          refine .obj ((keys fields).symm.trans (sorted ▸ keys others)) fun key v w left right => ?_
          have each := lookup_sorted plain.1 key
          rw [sorted, lookup_sorted plain'.1, left, right, Option.map_some, Option.map_some,
            Option.some.injEq] at each
          have vMem := mem_of_lookup left
          exact ih _ vMem ((plainFields_iff fields).mp plain.2 _ vMem)
            ((plainFields_iff others).mp plain'.2 _ (mem_of_lookup right)) each.symm
      | null | bool | int | float | str | arr => cases sorted

theorem same_sortKeys {v : Json} (plain : Plain v) : Same v v.sortKeys := by
  induction v using induct with
  | null | bool | int | float | str => exact .refl _
  | arr items ih =>
      rw [sortKeys, sortItems_eq]
      refine .arr (List.length_map _).symm fun i v w left right => ?_
      rw [List.getElem?_map, left, Option.map_some, Option.some.injEq] at right
      have mem := List.mem_of_getElem? left
      exact right ▸ ih v mem ((plainItems_iff items).mp plain v mem)
  | obj fields ih =>
      rw [sortKeys]
      have keys := (byKey_perm (sortFields fields)).map (·.1)
      rw [sortFields_eq, List.map_map] at keys
      refine .obj ?_ fun key v w left right => ?_
      · rw [sortFields_eq]
        exact keys.symm
      · rw [lookup_sorted plain.1, left, Option.map_some, Option.some.injEq] at right
        have mem := mem_of_lookup left
        exact right ▸ ih _ mem ((plainFields_iff fields).mp plain.2 _ mem)

/-- A reordering can be written and read as well. -/
theorem Same.plain {v w : Json} (same : Same v w) (plain : Plain v) : Plain w := by
  induction same with
  | refl => exact plain
  | @arr items others length each ih =>
      refine (plainItems_iff others).mpr fun w mem => ?_
      obtain ⟨i, inside, rfl⟩ := List.mem_iff_getElem.mp mem
      have left : items[i]? = some items[i] := List.getElem?_eq_getElem (length ▸ inside)
      have right : others[i]? = some others[i] := List.getElem?_eq_getElem inside
      exact ih i _ _ left right
        ((plainItems_iff items).mp plain _ (List.mem_of_getElem? left))
  | @obj fields others keys each ih =>
      have distinct : (others.map (·.1)).Nodup := keys.nodup_iff.mp plain.1
      refine ⟨distinct, (plainFields_iff others).mpr fun f mem => ?_⟩
      obtain ⟨g, inFields, sameKey⟩ := List.mem_map.mp (keys.mem_iff.mpr (List.mem_map_of_mem mem))
      have left : fields.lookup f.1 = some g.2 := sameKey ▸ lookup_of_mem plain.1 inFields
      exact ih f.1 _ _ left (lookup_of_mem distinct mem)
        ((plainFields_iff fields).mp plain.2 g inFields)

/-- What is the same as a value is also the same as what its canonical text is read as. -/
theorem Same.sorted {v w : Json} (same : Same v w) (plain : Plain v) (plain' : Plain w) :
    Same v w.sortKeys := by
  refine same_of_sortKeys plain (plain_sortKeys plain') ?_
  rw [same.sortKeys_eq plain plain']
  exact (same_sortKeys plain').sortKeys_eq plain' (plain_sortKeys plain')

/-- Equal canonical texts mean the same value, and the order of fields means nothing. -/
theorem canonical_json_iff {v w : Json} (plain : Plain v) (plain' : Plain w) :
    canonical_json v = canonical_json w ↔ Same v w := by
  constructor
  · intro texts
    exact same_of_sortKeys plain plain' (sortKeys_eq_of_canonical_json plain plain' texts)
  · intro same
    rw [canonical_json, canonical_json, same.sortKeys_eq plain plain']

end Json
