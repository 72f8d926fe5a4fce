import Mathlib.Data.List.Nodup
import Mathlib.Data.List.Perm.Subperm
import PackageRegistry.Lib.Text

/-! # Collecting the pages of a list

`collectPages` of `app/lib/api.ts`, against a registry that grows and reorders its list while
the pages are read.
-/

namespace PackageRegistry.Browser

/-- A page, with what the loop looks at -/
structure RegistryPage (T : Type) where
  items : List T
  total : Nat

/-- What is thrown: an `Error` with a message, or whatever the read was rejected with -/
inductive Thrown (ε : Type) where
  | error (message : Text)
  | rejected (reason : ε)

/-- The variables of the loop -/
structure Collected (T : Type) where
  items : List T
  total : Option Nat
  ids : List Text

def Collected.empty {T : Type} : Collected T := ⟨[], none, []⟩

section

variable {T ε : Type} (id : T → Option Text)

/-- The loop over the items of a page: nothing is left where an id is seen again. An item without
    an id, or with an empty one, passes. -/
def noteIds : List Text → List T → Option (List Text)
  | ids, [] => some ids
  | ids, item :: rest =>
      match (id item).filter (· ≠ []) with
      | some name => if ids.contains name then none else noteIds (name :: ids) rest
      | none => noteIds ids rest

/-- What the loop does with a page -/
def takePage (collected : Collected T) (page : RegistryPage T) : Except (Thrown ε) (Collected T) :=
  if collected.total.any (page.total != ·) then
    .error (.error (text "Registry changed during pagination"))
  else
    match noteIds id collected.ids page.items with
    | none => .error (.error (text "Registry changed during pagination"))
    | some ids =>
        if page.items.isEmpty ∧ collected.items.length < page.total then
          .error (.error (text "Incomplete registry response"))
        else .ok ⟨collected.items ++ page.items, some page.total, ids⟩

/-- The loop from its `k`-th read on, with the number of the last read. Nothing is known of it when
    the fuel is used up. -/
def collectFrom (read : Nat → Nat → Except ε (RegistryPage T)) :
    Nat → Nat → Collected T → Option (Nat × Except (Thrown ε) (List T))
  | 0, _, _ => none
  | fuel + 1, k, collected =>
      match read k collected.items.length with
      | .error reason => some (k, .error (.rejected reason))
      | .ok page =>
          match takePage id collected page with
          | .error thrown => some (k, .error thrown)
          | .ok collected' =>
              if collected'.items.length < page.total then collectFrom read fuel (k + 1) collected'
              else some (k, .ok collected'.items)

def collectPages (read : Nat → Nat → Except ε (RegistryPage T)) (fuel : Nat) :
    Option (Nat × Except (Thrown ε) (List T)) :=
  collectFrom id read fuel 0 .empty

end

/-- A registry whose items have ids and are never taken away. Its list may stand in another order
    at every read, and a read may fail. -/
structure Server (T ε : Type) where
  id : T → Option Text
  list : Nat → List T
  named : ∀ k, ∀ item ∈ list k, ∃ name, name ≠ [] ∧ id item = some name
  distinct : ∀ k, ((list k).map id).Nodup
  grows : ∀ k, list k ⊆ list (k + 1)
  /-- How many items a page holds, if there are as many -/
  size : Nat → Nat → Nat
  size_pos : ∀ k offset, 0 < size k offset
  fails : Nat → Option ε

variable {T ε : Type}

def Server.read (server : Server T ε) (k offset : Nat) : Except ε (RegistryPage T) :=
  match server.fails k with
  | some reason => .error reason
  | none => .ok ⟨((server.list k).drop offset).take (server.size k offset), (server.list k).length⟩

/-! ## What a page adds -/

section

variable {id : T → Option Text} {ids ids' : List Text} {items : List T}

/-- All ids of a page are noted, and none of them was there before. -/
theorem noteIds_some (named : ∀ item ∈ items, ∃ name, name ≠ [] ∧ id item = some name)
    (noted : noteIds id ids items = some ids') :
    (∀ name, name ∈ ids' ↔ name ∈ ids ∨ some name ∈ items.map id) ∧
      ∀ name ∈ ids, some name ∉ items.map id := by
  induction items generalizing ids with
  | nil =>
      cases noted
      simp
  | cons item rest ih =>
      rw [List.forall_mem_cons] at named
      obtain ⟨⟨name, nonempty, here⟩, named⟩ := named
      have truthy : (id item).filter (· ≠ []) = some name := by simp [here, nonempty]
      simp only [noteIds, truthy, List.contains_eq_mem, decide_eq_true_eq] at noted
      split at noted
      · cases noted
      · rename_i fresh
        obtain ⟨members, apart⟩ := ih named noted
        constructor
        · intro other
          rw [members, List.mem_cons, List.map_cons, List.mem_cons, here, Option.some.injEq]
          tauto
        · intro other among
          rw [List.map_cons, List.mem_cons, here, Option.some.injEq, not_or]
          exact ⟨fun same => fresh (same ▸ among), apart other (List.mem_cons_of_mem _ among)⟩

end

namespace Server

variable (server : Server T ε)

/-- What holds before the `k`-th read -/
structure Inv (k : Nat) (collected : Collected T) : Prop where
  known : collected.items ⊆ server.list k
  distinct : (collected.items.map server.id).Nodup
  ids : ∀ name, name ∈ collected.ids ↔ some name ∈ collected.items.map server.id

theorem inv_empty : server.Inv 0 .empty := by
  constructor <;> simp [Collected.empty]

variable {server} {k : Nat} {collected collected' : Collected T} {page : RegistryPage T}

theorem takePage_ok {thrown : Type} (taken : (takePage server.id collected page :
      Except (Thrown thrown) (Collected T)) = .ok collected') :
    (∀ n, collected.total = some n → page.total = n) ∧
      (page.items ≠ [] ∨ page.total ≤ collected.items.length) ∧
      noteIds server.id collected.ids page.items = some collected'.ids ∧
      collected'.items = collected.items ++ page.items ∧ collected'.total = some page.total := by
  unfold takePage at taken
  split at taken
  · cases taken
  · rename_i total
    split at taken
    · cases taken
    · rename_i ids noted
      split at taken
      · cases taken
      · rename_i complete
        cases taken
        refine ⟨fun n same => ?_, ?_, noted, rfl, rfl⟩
        · simpa [same] using total
        · rw [not_and_or, List.isEmpty_iff, not_lt] at complete
          exact complete

/-- Taking a slice of the current list keeps the invariant until the next read. -/
theorem inv_takePage (inv : server.Inv k collected) (slice : page.items.Sublist (server.list k))
    (noted : noteIds server.id collected.ids page.items = some collected'.ids)
    (joined : collected'.items = collected.items ++ page.items) :
    collected'.items ⊆ server.list k ∧ (collected'.items.map server.id).Nodup ∧
      ∀ name, name ∈ collected'.ids ↔ some name ∈ collected'.items.map server.id := by
  have named := fun item mem => server.named k item (slice.subset mem)
  obtain ⟨members, apart⟩ := noteIds_some named noted
  rw [joined, List.map_append]
  refine ⟨List.append_subset.mpr ⟨inv.known, slice.subset⟩, ?_, fun name => ?_⟩
  · refine List.Nodup.append inv.distinct ((slice.map server.id).nodup (server.distinct k)) ?_
    intro name old new
    obtain ⟨item, mem, rfl⟩ := List.mem_map.mp new
    obtain ⟨name, -, here⟩ := named item mem
    rw [here] at old new
    exact apart name ((inv.ids name).mpr old) new
  · rw [members, List.mem_append, inv.ids]

/-- Distinct items of a list that are as many as the list are all of it. -/
theorem complete (known : collected.items ⊆ server.list k)
    (distinct : (collected.items.map server.id).Nodup)
    (enough : (server.list k).length ≤ collected.items.length) :
    collected.items.Nodup ∧ ∀ item, item ∈ collected.items ↔ item ∈ server.list k := by
  have nodup := distinct.of_map server.id
  have perm := (nodup.subperm known).perm_of_length_le enough
  exact ⟨nodup, fun item => perm.mem_iff⟩

/-- The loop ends: every further read adds an item while the total stays what it was. -/
theorem collectFrom_ends (server : Server T ε) {n fuel : Nat} (inv : server.Inv k collected)
    (total : collected.total = some n ∨ collected.total = none ∧ (server.list k).length = n)
    (enough : n - collected.items.length < fuel) :
    ∃ last result, collectFrom server.id server.read fuel k collected = some (last, result) ∧
      ∀ items, result = .ok items →
        items.Nodup ∧ ∀ item, item ∈ items ↔ item ∈ server.list last := by
  induction fuel generalizing k collected with
  | zero => omega
  | succ fuel ih =>
      rw [collectFrom]
      cases answer : server.read k collected.items.length with
      | error reason => exact ⟨k, _, rfl, fun items returned => by cases returned⟩
      | ok page =>
          have here : page.items.Sublist (server.list k) ∧
              page.total = (server.list k).length := by
            rw [Server.read] at answer
            split at answer
            · cases answer
            · cases answer
              exact ⟨(List.take_sublist _ _).trans (List.drop_sublist _ _), rfl⟩
          cases taken : (takePage server.id collected page : Except (Thrown ε) (Collected T)) with
          | error thrown =>
              simp only [taken]
              exact ⟨k, _, rfl, fun items returned => by cases returned⟩
          | ok collected' =>
              simp only [taken]
              obtain ⟨constant, progress, noted, joined, total'⟩ := takePage_ok taken
              obtain ⟨known, distinct, ids⟩ := inv_takePage inv here.1 noted joined
              have same : page.total = n := by
                rcases total with named | ⟨-, length⟩
                · exact constant n named
                · exact here.2.trans length
              split
              · refine ih ⟨fun item mem => server.grows k (known mem), distinct, ids⟩
                  (.inl (total'.trans (congrArg some same))) ?_
                have longer : collected'.items.length =
                    collected.items.length + page.items.length := by
                  rw [joined, List.length_append]
                rcases progress with some_ | past
                · have positive := List.length_pos_of_ne_nil some_
                  omega
                · omega
              · refine ⟨k, _, rfl, ?_⟩
                rintro items ⟨⟩
                exact complete known distinct (by omega)

end Server

end PackageRegistry.Browser
