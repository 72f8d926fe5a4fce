import PackageRegistry.Lib.RelationalRules

/-! # How rows evolve

What may become of the row under a key of a table, as a reflexive and transitive relation.
Writes that keep to it make commits and runs that keep to it.
-/

namespace Relational

open Transactions

variable {Name : Type} [DecidableEq Name] {Row : Name → Type} {Key Q ε α : Type}

structure Evolution (Row : Name → Type) where
  rel : (T : Name) → Text → Option (Row T) → Option (Row T) → Prop
  refl : ∀ T key row, rel T key row row
  trans : ∀ {T key a b c}, rel T key a b → rel T key b c → rel T key a c

namespace Evolution

variable (E : Evolution Row)

/-- Every row has evolved. -/
def Across (a b : Database Row) : Prop := ∀ T key, E.rel T key (a.row T key) (b.row T key)

/-- A write that keeps to the evolution, whatever the row is -/
def Keeps (w : Write Row) : Prop := ∀ row, E.rel w.table w.key row (w.change.on row)

/-- What pending writes make of the rows -/
def Far (fin : Database Row) (pending : List (Write Row)) : Prop :=
  ∀ T key, E.rel T key (fin.row T key) (rowAfter pending T key (fin.row T key))

variable {E} {a b c fin : Database Row} {pending written : List (Write Row)} {T : Name} {key : Text}

omit [DecidableEq Name] in
theorem Across.refl : E.Across a a := fun T key => E.refl T key _

omit [DecidableEq Name] in
theorem Across.trans (first : E.Across a b) (second : E.Across b c) : E.Across a c :=
  fun T key => E.trans (first T key) (second T key)

/-- A write changes one row. -/
theorem across_apply {db : Database Row} {w : Write Row}
    (step : E.rel w.table w.key (db.row w.table w.key) (w.change.on (db.row w.table w.key))) :
    E.Across db (db.apply w) := by
  intro T' key'
  obtain ⟨T, key, change⟩ := w
  rw [apply_row]
  by_cases same : T = T'
  · subst same
    rw [onRow_same]
    split
    · rename_i same
      exact same ▸ step
    · exact E.refl ..
  · rw [onRow_other same]
    exact E.refl ..

/-- The rows evolve, whatever else transactions keep to. -/
def restraint (E : Evolution Row) : Restraint (Database Row) where
  allows := E.Across
  refl _ := fun T key => E.refl T key _
  trans first second := fun T key => E.trans (first T key) (second T key)

omit [DecidableEq Name] in
theorem Across.mono {E' : Evolution Row} (h : E.Across a b)
    (wider : ∀ T key row row', E.rel T key row row' → E'.rel T key row row') : E'.Across a b :=
  fun T key => wider T key _ _ (h T key)

/-- Only these rows evolve. -/
def within (E : Evolution Row) (touched : Name → Text → Prop) : Evolution Row where
  rel T key a b := E.rel T key a b ∧ (¬touched T key → b = a)
  refl T key row := ⟨E.refl T key row, fun _ => rfl⟩
  trans first second := ⟨E.trans first.1 second.1, fun away => (second.2 away).trans (first.2 away)⟩

omit [DecidableEq Name] in
theorem Across.within_mono {touched touched' : Name → Text → Prop}
    (h : (E.within touched).Across a b) (wider : ∀ T key, touched T key → touched' T key) :
    (E.within touched').Across a b :=
  h.mono fun T key _ _ rel => ⟨rel.1, fun away => rel.2 fun here => away (wider T key here)⟩

/-- Rows that are only added -/
def adding (new : (T : Name) → Text → Row T → Prop) : Evolution Row where
  rel T key old now := now = old ∨ old = none ∧ ∃ row, now = some row ∧ new T key row
  refl _ _ _ := .inl rfl
  trans first second := by
    rcases first with rfl | ⟨rfl, row, rfl, added⟩
    · exact second
    · rcases second with rfl | ⟨impossible, -⟩
      · exact .inr ⟨rfl, row, rfl, added⟩
      · cases impossible

omit [DecidableEq Name] in
theorem adding_new {new : (T : Name) → Text → Row T → Prop} {row : Row T} (added : new T key row) :
    (adding new).rel T key none (some row) := .inr ⟨rfl, row, rfl, added⟩

omit [DecidableEq Name] in
theorem adding_mono {new new' : (T : Name) → Text → Row T → Prop} {old now : Option (Row T)}
    (h : (adding new).rel T key old now) (wider : ∀ row, new T key row → new' T key row) :
    (adding new').rel T key old now := by
  rcases h with rfl | ⟨rfl, row, rfl, added⟩
  · exact .inl rfl
  · exact .inr ⟨rfl, row, rfl, wider row added⟩

theorem Far.across (h : E.Far fin pending) : E.Across fin (view Database.apply fin pending) := by
  intro T key
  rw [view_row]
  exact h T key

theorem far_nil : E.Far fin [] := fun T key => E.refl T key _

/-- One more write, which keeps to the evolution for the row that it finds -/
theorem Far.concat (h : E.Far fin pending) {change : Change (Row T)}
    (keeps : E.rel T key (rowAfter pending T key (fin.row T key))
      (change.on (rowAfter pending T key (fin.row T key)))) :
    E.Far fin (pending ++ [⟨T, key, change⟩]) := by
  intro T' key'
  rw [rowAfter_append, rowAfter_cons, rowAfter_nil]
  by_cases same : T = T'
  · subst same
    rw [onRow_same]
    split
    · rename_i same
      subst same
      exact E.trans (h T key) keeps
    · exact h T key'
  · rw [onRow_other same]
    exact h T' key'

theorem Far.update (h : E.Far fin pending) {row : Row T} {g : Row T → Row T}
    (here : rowAfter pending T key (fin.row T key) = some row) (keeps : E.rel T key (some row) (some (g row))) :
    E.Far fin (pending ++ [⟨T, key, .update g⟩]) := by
  refine h.concat ?_
  rw [here]
  exact keeps

theorem Far.insert (h : E.Far fin pending) {row : Row T}
    (free : rowAfter pending T key (fin.row T key) = none) (keeps : E.rel T key none (some row)) :
    E.Far fin (pending ++ [⟨T, key, .insert row⟩]) := by
  refine h.concat ?_
  rw [free]
  exact keeps

theorem far_insert {row : Row T} (free : fin.row T key = none) (keeps : E.rel T key none (some row)) :
    E.Far fin [⟨T, key, .insert row⟩] := by
  have free' : rowAfter [] T key (fin.row T key) = none := free
  exact far_nil.insert free' keeps

theorem Keeps.onRow {w : Write Row} (h : E.Keeps w) (T : Name) (key : Text) (row : Option (Row T)) :
    E.rel T key row (w.onRow T key row) := by
  obtain ⟨T', key', change⟩ := w
  by_cases same : T' = T
  · subst same
    rw [onRow_same]
    split
    · rename_i same
      exact same ▸ h row
    · exact E.refl T' key row
  · rw [onRow_other same]
    exact E.refl T key row

theorem rowAfter_keeps (keeps : ∀ w ∈ written, E.Keeps w) (T : Name) (key : Text)
    (row : Option (Row T)) : E.rel T key row (rowAfter written T key row) := by
  induction written generalizing row with
  | nil => exact E.refl T key row
  | cons w ws ih =>
      have first : E.rel T key row (w.onRow T key row) := (keeps w (by simp)).onRow T key row
      exact E.trans first (ih (fun w' mem => keeps w' (by simp [mem])) _)

theorem Far.append (h : E.Far fin pending) (keeps : ∀ w ∈ written, E.Keeps w) :
    E.Far fin (pending ++ written) := by
  intro T key
  rw [rowAfter_append]
  exact E.trans (h T key) (rowAfter_keeps keeps T key _)

theorem far_of_keeps (keeps : ∀ w ∈ written, E.Keeps w) : E.Far fin written :=
  fun T key => rowAfter_keeps keeps T key _

omit [DecidableEq Name] in
theorem keeps_update {g : Row T → Row T} (keeps : ∀ row, E.rel T key (some row) (some (g row))) :
    E.Keeps ⟨T, key, .update g⟩ := by
  intro row
  cases row with
  | none => exact E.refl T key none
  | some row => exact keeps row

/-- A set-based statement changes only rows that match. -/
theorem Far.sweep {mode : LockMode} {p : Text → Row T → Bool} {change : Change (Row T)} {seen : Prop}
    {held : Held (Resource Name Key)} (h : E.Far fin pending)
    (swept : Swept T mode p change seen fin pending written [] held)
    (keeps : ∀ key row, p key row = true → E.rel T key (some row) (change.on (some row))) :
    E.Far fin (pending ++ written) := by
  intro T' key
  by_cases same : T = T'
  · subst same
    rcases swept.rows key with unchanged | ⟨-, row, here, matches_, changed⟩
    · rw [unchanged]
      exact h T key
    · have first := h T key
      rw [here] at first
      rw [changed]
      exact E.trans first (keeps key row matches_)
  · rw [swept.other same]
    exact h T' key

/-! ## Programs that keep to an evolution -/

section

variable {needs : Needs Row Key} {extra : Restraint (Database Row)} {β : Type}
  {post : Post (Database Row) (Resource Name Key) (Write Row) (Failure ε) α}
  {held : Held (Resource Name Key)}

/-- Whatever is read, the program goes on with the evolution, and has its locks. -/
def Evolves (needs : Needs Row Key) (extra : Restraint (Database Row)) (E : Evolution Row)
    (t : Statement Row Key Q ε β) : Prop :=
  ∀ fin pending held, AllCovered needs held pending → E.Far fin pending →
    Closing needs extra (fun result fin pending' held' => match result with
      | .ok _ => (∀ l ∈ held, l ∈ held') ∧ AllCovered needs held' pending' ∧ E.Far fin pending'
      | .error _ => True) t fin pending held

variable {t : Statement Row Key Q ε β}

theorem Evolves.ends (h : Evolves needs extra E t) {f : β → Statement Row Key Q ε α}
    (covered : AllCovered needs held pending) (far : E.Far fin pending)
    (refused : ∀ failure pending held, post (.error failure) fin pending held)
    (rest : ∀ b pending' held', (∀ l ∈ held, l ∈ held') → AllCovered needs held' pending' →
      E.Far fin pending' → Closing needs extra post (f b) fin pending' held') :
    Closing needs extra post (t.bind f) fin pending held := by
  refine .bind ((h fin pending held covered far).mono fun result pending' held' after => ?_)
  cases result with
  | error failure => exact refused failure pending' held'
  | ok b => exact rest b pending' held' after.1 after.2.1 after.2.2

theorem evolves_of_adds (h : Adds needs extra E.Keeps t) : Evolves needs extra E t := by
  intro fin pending held covered far
  refine (h fin pending held).mono fun result pending' held' after => ?_
  cases result with
  | error => trivial
  | ok b =>
      obtain ⟨kept, written, rfl, keeps, more⟩ := after
      exact ⟨kept, (covered.among kept).append more, far.append keeps⟩

theorem Evolves.bind (h : Evolves needs extra E t) {f : β → Statement Row Key Q ε α}
    (h' : ∀ b, Evolves needs extra E (f b)) : Evolves needs extra E (t.bind f) := by
  intro fin pending held covered far
  refine h.ends covered far (fun _ _ _ => trivial) fun b pending' held' kept covered' far' => ?_
  refine (h' b fin pending' held' covered' far').mono fun result pending'' held'' after => ?_
  cases result with
  | error => trivial
  | ok a => exact ⟨fun l mem => after.1 l (kept l mem), after.2⟩

theorem evolves_updateWhere {q : Q} {p : Text → Row T → Bool} {g : Row T → Row T}
    (nothing_new : ∀ row r m, needs T (g row) r m → needs T row r m)
    (keeps : ∀ key row, p key row = true → E.rel T key (some row) (some (g row))) :
    Evolves needs extra E (updateWhere q T p g : Statement Row Key Q ε Unit) := by
  intro fin pending held covered far
  rw [← Tx.bind_done (updateWhere q T p g)]
  refine updateWhere_ends False False.elim fun written held' kept swept => ?_
  exact ⟨kept, (covered.among kept).append (swept.covered_update nothing_new), far.sweep swept keeps⟩

theorem evolves_deleteWhere {q : Q} {p : Text → Row T → Bool}
    (keeps : ∀ key row, p key row = true → E.rel T key (some row) none) :
    Evolves needs extra E (deleteWhere q T p : Statement Row Key Q ε Unit) := by
  intro fin pending held covered far
  rw [← Tx.bind_done (deleteWhere q T p)]
  refine deleteWhere_ends False False.elim fun written held' kept swept => ?_
  exact ⟨kept, (covered.among kept).append swept.covered_delete, far.sweep swept keeps⟩

end

end Evolution

/-! ## Rows that stay -/

/-- A row that is there stays, and what is related to it takes its place. -/
def Persists {ν : Type} (same : ν → ν → Prop) (old new : Option ν) : Prop :=
  ∀ row, old = some row → ∃ row', new = some row' ∧ same row row'

theorem Persists.refl {ν : Type} {same : ν → ν → Prop} (refl : ∀ row, same row row) (row : Option ν) :
    Persists same row row := fun row' here => ⟨row', here, refl row'⟩

theorem Persists.trans {ν : Type} {same : ν → ν → Prop}
    (trans : ∀ a b c, same a b → same b c → same a c) {a b c : Option ν} (first : Persists same a b)
    (second : Persists same b c) : Persists same a c := by
  intro row here
  obtain ⟨row', here', same'⟩ := first row here
  obtain ⟨row'', here'', same''⟩ := second row' here'
  exact ⟨row'', here'', trans row row' row'' same' same''⟩

theorem persists_none {ν : Type} {same : ν → ν → Prop} {new : Option ν} : Persists same none new :=
  fun _ here => by cases here

theorem persists_some {ν : Type} {same : ν → ν → Prop} {old new : ν} (h : same old new) :
    Persists same (some old) (some new) := by
  intro row here
  obtain rfl := Option.some.inj here
  exact ⟨new, rfl, h⟩

/-- A row that is there has been there, and what it was is related to it. -/
def Stems {ν : Type} (same : ν → ν → Prop) (old new : Option ν) : Prop :=
  ∀ row', new = some row' → ∃ row, old = some row ∧ same row row'

theorem Stems.refl {ν : Type} {same : ν → ν → Prop} (refl : ∀ row, same row row) (row : Option ν) :
    Stems same row row := fun row' here => ⟨row', here, refl row'⟩

theorem Stems.trans {ν : Type} {same : ν → ν → Prop}
    (trans : ∀ a b c, same a b → same b c → same a c) {a b c : Option ν} (first : Stems same a b)
    (second : Stems same b c) : Stems same a c := by
  intro row'' here
  obtain ⟨row', between, same'⟩ := second row'' here
  obtain ⟨row, before, same⟩ := first row' between
  exact ⟨row, before, trans row row' row'' same same'⟩

theorem stems_none {ν : Type} {same : ν → ν → Prop} {old : Option ν} : Stems same old none :=
  fun _ here => by cases here

theorem stems_some {ν : Type} {same : ν → ν → Prop} {old new : ν} (h : same old new) :
    Stems same (some old) (some new) := by
  intro row' here
  obtain rfl := Option.some.inj here
  exact ⟨old, rfl, h⟩

omit [DecidableEq Name] in
/-- What is only added stays. -/
theorem adding_persists {new : (T : Name) → Text → Row T → Prop} {T : Name} {key : Text}
    {same : Row T → Row T → Prop} (refl : ∀ row, same row row) {old now : Option (Row T)}
    (h : (Evolution.adding new).rel T key old now) : Persists same old now := by
  rcases h with rfl | ⟨rfl, -⟩
  · exact .refl refl now
  · exact persists_none

end Relational
