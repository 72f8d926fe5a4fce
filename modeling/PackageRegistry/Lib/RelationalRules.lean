import PackageRegistry.Lib.RowLocks
import PackageRegistry.Lib.Stages

/-! # Rules for the statements of a relational database

One rule for each statement, over the database to which the transaction commits: what a
statement has read of a row that it locks is what the row is at the end.
-/

namespace Relational

open Transactions

variable {Name : Type} [DecidableEq Name] {Row : Name → Type} {Key Q ε α β : Type}
  {needs : Needs Row Key} {extra : Restraint (Database Row)}
  {post : Post (Database Row) (Resource Name Key) (Write Row) (Failure ε) α}
  {fin : Database Row} {pending : List (Write Row)} {held : Held (Resource Name Key)}

/-- A program with its end in sight, among transactions that heed the locks -/
abbrev Closing (needs : Needs Row Key) (extra : Restraint (Database Row))
    (post : Post (Database Row) (Resource Name Key) (Write Row) (Failure ε) α)
    (t : Statement Row Key Q ε α) (fin : Database Row) (pending : List (Write Row))
    (held : Held (Resource Name Key)) : Prop :=
  Ends Database.apply (peers needs extra) post t fin pending held

omit [DecidableEq Name] in
theorem noKeyUpdate_of_mem {T : Name} {key : Text} {m : LockMode}
    (strong : ∀ n, LockMode.noKeyUpdate.conflicts n = true → m.conflicts n = true)
    (mem : (Resource.row T key, m) ∈ held) : Locks held (.row T key) .noKeyUpdate :=
  ⟨m, mem, strong⟩

/-- Peers that heed the locks, whatever else they keep to -/
def Heeding (needs : Needs Row Key) (P : Peers (Database Row) (Resource Name Key)) : Prop :=
  ∀ held db db', P.allows held db db' → Others needs held db db'

omit [DecidableEq Name] in
theorem heeding_peers : Heeding needs (peers needs extra) := fun _ _ _ allowed => allowed.1

section

variable {P : Peers (Database Row) (Resource Name Key)} (heeds : Heeding needs P)

include heeds

theorem Heeding.read_locked {db : Database Row} {T : Name} {key : Text}
    (allowed : P.allows held db fin) (mine : Locks held (.row T key) .noKeyUpdate) :
    (view Database.apply db pending).row T key = rowAfter pending T key (fin.row T key) := by
  rw [view_row, (heeds _ _ _ allowed).row T key mine]

theorem Heeding.selectForUpdate_ends {q : Q} {T : Name} {p : Text → Row T → Bool}
    {f : Option (Text × Row T) → Statement Row Key Q ε α}
    (absent : ∀ db, P.allows held db fin →
      (∀ key row, (view Database.apply db pending).row T key = some row → p key row = false) →
      Ends Database.apply P post (f none) fin pending held)
    (gone : ∀ key row, p key row = true →
      Ends Database.apply P post (f none) fin pending ((.row T key, .update) :: held))
    (found : ∀ key row, rowAfter pending T key (fin.row T key) = some row → p key row = true →
      Ends Database.apply P post (f (some (key, row))) fin pending ((.row T key, .update) :: held)) :
    Ends Database.apply P post ((selectForUpdate q T p).bind f) fin pending held := by
  refine .bind (.query fun db allowed => ?_)
  split
  · rename_i none_found
    exact absent db allowed fun key row here => first_none none_found key row here
  · rename_i key row first
    refine .acquire fun db' allowed' => ?_
    have same : (view Database.apply db' pending).row T key =
        rowAfter pending T key (fin.row T key) :=
      heeds.read_locked allowed' (locks_of_update (by simp))
    cases here : ((view Database.apply db' pending).row T key).filter (p key) with
    | none =>
        simp only [here, Option.map_none]
        exact gone key row (first_some first).2
    | some row' =>
        obtain ⟨here', matches_⟩ := Option.filter_eq_some_iff.mp here
        simp only [here, Option.map_some]
        exact found key row' (same.symm.trans here') matches_

theorem Heeding.updateRow_ends {q : Q} {T : Name} {key : Text} {g : Row T → Row T}
    {f : Unit → Statement Row Key Q ε α}
    (stale : post (.error .stale) fin pending ((.row T key, .noKeyUpdate) :: held))
    (rest : ∀ row, rowAfter pending T key (fin.row T key) = some row →
      Ends Database.apply P post (f ()) fin (pending ++ [⟨T, key, .update g⟩])
        ((.row T key, .noKeyUpdate) :: held)) :
    Ends Database.apply P post ((updateRow q T key g).bind f) fin pending held := by
  refine .bind (.acquire (.query fun db allowed => ?_))
  rw [heeds.read_locked allowed (locks_of_mem (by simp))]
  cases here : rowAfter pending T key (fin.row T key) with
  | none => exact stale
  | some row => exact rest row here

theorem Heeding.insertRow_ends {q : Q} {T : Name} {key : Text} {row : Row T}
    {f : Unit → Statement Row Key Q ε α} (refused : post (.error .integrity) fin pending held)
    (rest : rowAfter pending T key (fin.row T key) = none →
      Ends Database.apply P post (f ()) fin (pending ++ [⟨T, key, .insert row⟩])
        ((.row T key, .update) :: held)) :
    Ends Database.apply P post ((insertRow q T key row).bind f) fin pending held := by
  refine .bind (.insertNew (fun _ _ _ => refused) fun db allowed free => ?_)
  rw [heeds.read_locked allowed (locks_of_update (by simp)), Option.isSome_eq_false_iff,
    Option.isNone_iff_eq_none] at free
  exact rest free

end

/-- A locked row is at the end what it was when it was read. -/
theorem read_locked {db : Database Row} {T : Name} {key : Text}
    (allowed : (peers needs extra).allows held db fin) (mine : Locks held (.row T key) .noKeyUpdate) :
    (view Database.apply db pending).row T key = rowAfter pending T key (fin.row T key) :=
  heeding_peers.read_locked allowed mine

theorem selectForUpdate_ends {q : Q} {T : Name} {p : Text → Row T → Bool}
    {f : Option (Text × Row T) → Statement Row Key Q ε α}
    (absent : ∀ db, (peers needs extra).allows held db fin →
      (∀ key row, (view Database.apply db pending).row T key = some row → p key row = false) →
      Closing needs extra post (f none) fin pending held)
    (gone : ∀ key row, p key row = true →
      Closing needs extra post (f none) fin pending ((.row T key, .update) :: held))
    (found : ∀ key row, rowAfter pending T key (fin.row T key) = some row → p key row = true →
      Closing needs extra post (f (some (key, row))) fin pending ((.row T key, .update) :: held)) :
    Closing needs extra post ((selectForUpdate q T p).bind f) fin pending held :=
  heeding_peers.selectForUpdate_ends absent gone found

theorem updateRow_ends {q : Q} {T : Name} {key : Text} {g : Row T → Row T}
    {f : Unit → Statement Row Key Q ε α}
    (stale : post (.error .stale) fin pending ((.row T key, .noKeyUpdate) :: held))
    (rest : ∀ row, rowAfter pending T key (fin.row T key) = some row →
      Closing needs extra post (f ()) fin (pending ++ [⟨T, key, .update g⟩])
        ((.row T key, .noKeyUpdate) :: held)) :
    Closing needs extra post ((updateRow q T key g).bind f) fin pending held :=
  heeding_peers.updateRow_ends stale rest

theorem deleteRow_ends {q : Q} {T : Name} {key : Text} {f : Unit → Statement Row Key Q ε α}
    (gone : rowAfter pending T key (fin.row T key) = none →
      Closing needs extra post (f ()) fin pending ((.row T key, .update) :: held))
    (rest : ∀ row, rowAfter pending T key (fin.row T key) = some row →
      Closing needs extra post (f ()) fin (pending ++ [⟨T, key, .delete⟩])
        ((.row T key, .update) :: held)) :
    Closing needs extra post ((deleteRow q T key).bind f) fin pending held := by
  refine .bind (.acquire (.query fun db allowed => ?_))
  have same := @read_locked _ _ _ _ _ _ _ pending _ _ T key allowed (locks_of_update (by simp))
  rw [same]
  cases here : rowAfter pending T key (fin.row T key) with
  | none => exact gone here
  | some row => exact rest row here

theorem insertRow_ends {q : Q} {T : Name} {key : Text} {row : Row T}
    {f : Unit → Statement Row Key Q ε α} (refused : post (.error .integrity) fin pending held)
    (rest : rowAfter pending T key (fin.row T key) = none →
      Closing needs extra post (f ()) fin (pending ++ [⟨T, key, .insert row⟩])
        ((.row T key, .update) :: held)) :
    Closing needs extra post ((insertRow q T key row).bind f) fin pending held :=
  heeding_peers.insertRow_ends refused rest

theorem isSome_onRow_mono (w : Write Row) {T : Name} {key : Text} {row row' : Option (Row T)}
    (more : row.isSome = true → row'.isSome = true) :
    (w.onRow T key row).isSome = true → (w.onRow T key row').isSome = true := by
  obtain ⟨T', key', change⟩ := w
  by_cases same : T' = T
  · subst same
    rw [onRow_same, onRow_same]
    split
    · cases change <;> simp_all [Change.on]
    · exact more
  · rw [onRow_other same, onRow_other same]
    exact more

theorem isSome_rowAfter_mono (pending : List (Write Row)) {T : Name} {key : Text}
    {row row' : Option (Row T)} (more : row.isSome = true → row'.isSome = true) :
    (rowAfter pending T key row).isSome = true → (rowAfter pending T key row').isSome = true := by
  induction pending generalizing row row' with
  | nil => exact more
  | cons w ws ih => exact ih (isSome_onRow_mono w more)

theorem Heeding.refer_ends {P : Peers (Database Row) (Resource Name Key)} (heeds : Heeding needs P)
    {q : Q} {T : Name} {key : Text} {f : Unit → Statement Row Key Q ε α}
    (refused : post (.error .integrity) fin pending ((.row T key, .keyShare) :: held))
    (rest : ∀ row, rowAfter pending T key (fin.row T key) = some row →
      Ends Database.apply P post (f ()) fin pending ((.row T key, .keyShare) :: held)) :
    Ends Database.apply P post ((refer q T key).bind f) fin pending held := by
  refine .bind (.acquire (.query fun db allowed => ?_))
  split
  · rename_i here
    rw [view_row] at here
    have there : (rowAfter pending T key (fin.row T key)).isSome = true := by
      refine isSome_rowAfter_mono pending (fun here => ?_) here
      obtain ⟨row, here⟩ := Option.isSome_iff_exists.mp here
      obtain ⟨row', there⟩ :=
        (heeds _ _ _ allowed).present T key row (locks_of_mem (by simp)) here
      rw [there]
      rfl
    obtain ⟨row, there⟩ := Option.isSome_iff_exists.mp there
    exact rest row there
  · exact refused

theorem refer_ends {q : Q} {T : Name} {key : Text} {f : Unit → Statement Row Key Q ε α}
    (refused : post (.error .integrity) fin pending ((.row T key, .keyShare) :: held))
    (rest : ∀ row, rowAfter pending T key (fin.row T key) = some row →
      Closing needs extra post (f ()) fin pending ((.row T key, .keyShare) :: held)) :
    Closing needs extra post ((refer q T key).bind f) fin pending held :=
  heeding_peers.refer_ends refused rest

theorem enter_ends {q : Q} {value : Key} {taken : Database Row → Bool}
    {f : Unit → Statement Row Key Q ε α}
    (refused : post (.error .integrity) fin pending ((.index value, .update) :: held))
    (rest : ∀ db, (peers needs extra).allows ((.index value, .update) :: held) db fin →
      taken (view Database.apply db pending) = false →
      Closing needs extra post (f ()) fin pending ((.index value, .update) :: held)) :
    Closing needs extra post ((enter q value taken).bind f) fin pending held := by
  refine .bind (.acquire (.query fun db allowed => ?_))
  split
  · exact refused
  · rename_i free
    exact rest db allowed (Bool.eq_false_iff.mpr free)

/-! ## Set-based statements -/

/-- How far a set-based statement has got over what was written before it. If its
    snapshot has `seen` every row that matches at the end, each of them has been changed
    or is still to come. -/
structure Swept (T : Name) (mode : LockMode) (p : Text → Row T → Bool) (change : Change (Row T))
    (seen : Prop) (fin : Database Row) (base written : List (Write Row)) (keys : List Text)
    (held : Held (Resource Name Key)) : Prop where
  writes : ∀ w ∈ written, ∃ key, w = ⟨T, key, change⟩ ∧ (.row T key, mode) ∈ held
  distinct : keys.Nodup
  rows : ∀ key, rowAfter (base ++ written) T key (fin.row T key) = rowAfter base T key (fin.row T key) ∨
    key ∉ keys ∧ ∃ row, rowAfter base T key (fin.row T key) = some row ∧ p key row = true ∧
      rowAfter (base ++ written) T key (fin.row T key) = change.on (some row)
  rest : seen → ∀ key row, rowAfter base T key (fin.row T key) = some row → p key row = true →
    key ∈ keys ∨ rowAfter (base ++ written) T key (fin.row T key) = change.on (some row)

section

variable {T : Name} {mode : LockMode} {p : Text → Row T → Bool} {change : Change (Row T)}
  {seen : Prop} {base written : List (Write Row)} {keys : List Text} {key : Text}

theorem Swept.among (h : Swept T mode p change seen fin base written keys held)
    {held' : Held (Resource Name Key)} (more : ∀ l ∈ held, l ∈ held') :
    Swept T mode p change seen fin base written keys held' :=
  { h with writes := fun w mem => (h.writes w mem).imp fun _ => And.imp_right (more _) }

/-- What is still to come has not been changed. -/
theorem Swept.unchanged (h : Swept T mode p change seen fin base written keys held)
    (mem : key ∈ keys) :
    rowAfter (base ++ written) T key (fin.row T key) = rowAfter base T key (fin.row T key) :=
  (h.rows key).resolve_right fun later => later.1 mem

theorem Swept.changed (h : Swept T mode p change seen fin base written (key :: keys) held) {row : Row T}
    (here : rowAfter (base ++ written) T key (fin.row T key) = some row) (matches_ : p key row = true) :
    Swept T mode p change seen fin base (written ++ [⟨T, key, change⟩]) keys
      ((.row T key, mode) :: held) := by
  have before := (h.unchanged (List.mem_cons_self ..)).symm.trans here
  have distinct := List.nodup_cons.mp h.distinct
  have after : ∀ key', rowAfter (base ++ (written ++ [⟨T, key, change⟩])) T key' (fin.row T key') =
      if key = key' then change.on (some row) else rowAfter (base ++ written) T key' (fin.row T key') := by
    intro key'
    rw [← List.append_assoc, rowAfter_append, rowAfter_cons, rowAfter_nil, onRow_same]
    split
    · rename_i same
      rw [← same, here]
    · rfl
  refine ⟨fun w mem => ?_, distinct.2, fun key' => ?_, fun all key' row' there matches' => ?_⟩
  · rcases List.mem_append.mp mem with old | new
    · exact (h.writes w old).imp fun _ => And.imp_right (List.mem_cons_of_mem _)
    · exact ⟨key, List.mem_singleton.mp new, by simp⟩
  · rw [after]
    split
    · rename_i same
      subst same
      exact .inr ⟨distinct.1, row, before, matches_, rfl⟩
    · exact (h.rows key').imp_right (And.imp_left (mt (List.mem_cons_of_mem _)))
  · rw [after]
    split
    · rename_i same
      subst same
      obtain rfl := Option.some.inj (before.symm.trans there)
      exact .inr rfl
    · rename_i other
      exact (h.rest all key' row' there matches').imp_left fun mem =>
        (List.mem_cons.mp mem).resolve_left (Ne.symm other)

theorem Swept.skipped (h : Swept T mode p change seen fin base written (key :: keys) held)
    (passed : (rowAfter (base ++ written) T key (fin.row T key)).any (p key) = false) :
    Swept T mode p change seen fin base written keys ((.row T key, mode) :: held) where
  writes w mem := (h.writes w mem).imp fun _ => And.imp_right (List.mem_cons_of_mem _)
  distinct := (List.nodup_cons.mp h.distinct).2
  rows key' := (h.rows key').imp_right (And.imp_left (mt (List.mem_cons_of_mem _)))
  rest all key' row there matches_ := by
    refine (h.rest all key' row there matches_).imp_left fun mem =>
      (List.mem_cons.mp mem).resolve_left ?_
    rintro rfl
    rw [h.unchanged mem, there, Option.any_some, matches_] at passed
    cases passed

/-- Rows of other tables stay as they are. -/
theorem Swept.other (h : Swept T mode p change seen fin base written keys held) {T' : Name}
    (away : T ≠ T') (key : Text) (row : Option (Row T')) :
    rowAfter (base ++ written) T' key row = rowAfter base T' key row := by
  rw [rowAfter_append]
  refine rowAfter_untouched (fun w mem same => ?_) _
  obtain ⟨key', rfl, -⟩ := h.writes w mem
  exact absurd same away

/-- When the snapshot has seen every row that matches, none is left in the end. -/
theorem Swept.none_left (h : Swept T mode p change seen fin base written [] held) (all : seen)
    (settles : ∀ row row', change.on (some row) = some row' → p key row' = false) {row : Row T}
    (there : rowAfter (base ++ written) T key (fin.row T key) = some row) : p key row = false := by
  rcases h.rows key with same | ⟨-, old, -, -, changed⟩
  · refine Bool.eq_false_iff.mpr fun matches_ => ?_
    rcases h.rest all key row (same.symm.trans there) matches_ with still | changed
    · cases still
    · have settled := settles row row (changed.symm.trans there)
      rw [matches_] at settled
      cases settled
  · exact settles old row (changed.symm.trans there)

theorem changeRows_ends {q : Q}
    (strong : ∀ n, LockMode.noKeyUpdate.conflicts n = true → mode.conflicts n = true)
    (sweep : Swept T mode p change seen fin base written keys held) :
    Closing needs extra (fun result fin pending held' => match result with
        | .ok () => (∀ l ∈ held, l ∈ held') ∧ ∃ written', pending = base ++ written' ∧
            Swept T mode p change seen fin base written' [] held'
        | .error _ => False)
      (changeRows q T mode p change keys : Statement Row Key Q ε Unit) fin (base ++ written) held := by
  induction keys generalizing written held with
  | nil => exact ⟨fun _ mem => mem, written, rfl, sweep⟩
  | cons key keys ih =>
      refine .acquire (.query fun db allowed => ?_)
      have same := @read_locked _ _ _ _ _ _ _ (base ++ written) _ _ T key allowed
        (noKeyUpdate_of_mem strong (by simp))
      split
      · rename_i found
        rw [same] at found
        obtain ⟨row, here, matches_⟩ := (Option.any_eq_true _ _).mp found
        refine .put ?_
        rw [List.append_assoc]
        refine (ih (sweep.changed here matches_)).mono fun result pending' held' after => ?_
        cases result with
        | ok => exact ⟨fun l mem => after.1 l (List.mem_cons_of_mem _ mem), after.2⟩
        | error => exact after
      · rename_i passed
        rw [same] at passed
        refine (ih (sweep.skipped (Bool.eq_false_iff.mpr passed))).mono
          fun result pending' held' after => ?_
        cases result with
        | ok => exact ⟨fun l mem => after.1 l (List.mem_cons_of_mem _ mem), after.2⟩
        | error => exact after

theorem changeWhere_ends (seen : Prop) {q : Q} {f : Unit → Statement Row Key Q ε α}
    (strong : ∀ n, LockMode.noKeyUpdate.conflicts n = true → mode.conflicts n = true)
    (sees : seen → ∀ db, (peers needs extra).allows held db fin → ∀ key row,
      rowAfter base T key (fin.row T key) = some row → p key row = true →
      ∃ old, rowAfter base T key (db.row T key) = some old ∧ p key old = true)
    (rest : ∀ written held', (∀ l ∈ held, l ∈ held') →
      Swept T mode p change seen fin base written [] held' →
      Closing needs extra post (f ()) fin (base ++ written) held') :
    Closing needs extra post ((changeWhere q T mode p change).bind f) fin base held := by
  refine .bind (.query fun db allowed => ?_)
  have snapshot : Swept T mode p change seen fin base []
      (Table.keysWhere ((view Database.apply db base).table T) p) held := by
    refine ⟨fun w mem => (by cases mem), Table.nodup_keysWhere _, fun key => .inl (by simp),
      fun all key row there matches_ => .inl ?_⟩
    obtain ⟨old, here, matched⟩ := sees all db allowed key row there matches_
    exact (Table.mem_keysWhere _).mpr ⟨old, (view_row db base T key).trans here, matched⟩
  have ended := @changeRows_ends Name _ Row Key Q ε needs extra fin held T mode p change seen base []
    _ q strong snapshot
  rw [List.append_nil] at ended
  refine ended.mono fun result pending held' after => ?_
  cases result with
  | ok =>
      obtain ⟨kept, written, rfl, swept⟩ := after
      exact rest written held' kept swept
  | error => exact after.elim

theorem updateWhere_ends (seen : Prop) {q : Q} {g : Row T → Row T} {f : Unit → Statement Row Key Q ε α}
    (sees : seen → ∀ db, (peers needs extra).allows held db fin → ∀ key row,
      rowAfter base T key (fin.row T key) = some row → p key row = true →
      ∃ old, rowAfter base T key (db.row T key) = some old ∧ p key old = true)
    (rest : ∀ written held', (∀ l ∈ held, l ∈ held') →
      Swept T .noKeyUpdate p (.update g) seen fin base written [] held' →
      Closing needs extra post (f ()) fin (base ++ written) held') :
    Closing needs extra post ((updateWhere q T p g).bind f) fin base held :=
  changeWhere_ends seen (fun _ h => h) sees rest

theorem deleteWhere_ends (seen : Prop) {q : Q} {f : Unit → Statement Row Key Q ε α}
    (sees : seen → ∀ db, (peers needs extra).allows held db fin → ∀ key row,
      rowAfter base T key (fin.row T key) = some row → p key row = true →
      ∃ old, rowAfter base T key (db.row T key) = some old ∧ p key old = true)
    (rest : ∀ written held', (∀ l ∈ held, l ∈ held') →
      Swept T .update p .delete seen fin base written [] held' →
      Closing needs extra post (f ()) fin (base ++ written) held') :
    Closing needs extra post ((deleteWhere q T p).bind f) fin base held :=
  changeWhere_ends seen (fun n _ => LockMode.update_conflicts n) sees rest

/-- The writes of an UPDATE that needs nothing new have their locks. -/
theorem Swept.covered_update {g : Row T → Row T}
    (h : Swept T .noKeyUpdate p (.update g) seen fin base written keys held)
    (nothing_new : ∀ row r m, needs T (g row) r m → needs T row r m) :
    AllCovered needs held written := by
  intro w mem
  obtain ⟨key, rfl, mine⟩ := h.writes w mem
  exact ⟨locks_of_mem mine, fun row r m needed => .inl (nothing_new row r m needed)⟩

theorem Swept.covered_delete (h : Swept T .update p .delete seen fin base written keys held) :
    AllCovered needs held written := by
  intro w mem
  obtain ⟨key, rfl, mine⟩ := h.writes w mem
  exact locks_of_mem mine

/-- `SELECT ... ORDER BY ... FOR UPDATE`: every row that is found is locked, and is at the
    end as it was then. -/
theorem lockRows_ends {q : Q} (distinct : keys.Nodup) :
    Closing needs extra (fun result fin pending' held' => match result with
        | .ok found => pending' = base ∧ (∀ l ∈ held, l ∈ held') ∧ List.Sublist found keys ∧
            ∀ key ∈ found, (Resource.row T key, .update) ∈ held' ∧
              ∃ row, rowAfter base T key (fin.row T key) = some row ∧ p key row = true
        | .error _ => False)
      (lockRows q T p keys : Statement Row Key Q ε (List Text)) fin base held := by
  induction keys generalizing held with
  | nil => exact ⟨rfl, fun _ mem => mem, .refl _, fun key mem => by cases mem⟩
  | cons key keys ih =>
      refine .acquire (.query fun db allowed => ?_)
      have same := @read_locked _ _ _ _ _ _ _ base _ _ T key allowed (locks_of_update (by simp))
      have rest := @ih ((Resource.row T key, .update) :: held) (List.nodup_cons.mp distinct).2
      split
      · rename_i found
        rw [same] at found
        obtain ⟨row, here, matches_⟩ := (Option.any_eq_true _ _).mp found
        refine .bind (rest.mono fun result pending' held' after => ?_)
        cases result with
        | error => exact after
        | ok others =>
            obtain ⟨rfl, kept, part, good⟩ := after
            refine ⟨rfl, fun l mem => kept l (List.mem_cons_of_mem _ mem), part.cons_cons key, ?_⟩
            intro key' mem
            rcases List.mem_cons.mp mem with rfl | later
            · exact ⟨kept _ (by simp), row, here, matches_⟩
            · exact good key' later
      · refine rest.mono fun result pending' held' after => ?_
        cases result with
        | error => exact after
        | ok others =>
            obtain ⟨rfl, kept, part, good⟩ := after
            exact ⟨rfl, fun l mem => kept l (List.mem_cons_of_mem _ mem), part.cons key, good⟩

theorem lockWhere_ends {q : Q} {f : List Text → Statement Row Key Q ε α}
    (rest : ∀ found held', (∀ l ∈ held, l ∈ held') → found.Nodup →
      (∀ key ∈ found, (Resource.row T key, .update) ∈ held' ∧
        ∃ row, rowAfter base T key (fin.row T key) = some row ∧ p key row = true) →
      Closing needs extra post (f found) fin base held') :
    Closing needs extra post ((lockWhere q T p).bind f) fin base held := by
  refine .bind (.query fun db _ => ?_)
  have distinct := Table.nodup_keysWhere ((view Database.apply db base).table T) (p := p)
  refine (lockRows_ends distinct).mono fun result pending' held' after => ?_
  cases result with
  | error => exact after.elim
  | ok found =>
      obtain ⟨rfl, kept, part, good⟩ := after
      exact rest found held' kept (part.nodup distinct) good

end

/-! ## Programs of which only the kind of their writes matters -/

/-- Whatever is read, the program adds writes of one kind, under their locks. -/
def Adds (needs : Needs Row Key) (extra : Restraint (Database Row)) (kind : Write Row → Prop)
    (t : Statement Row Key Q ε β) : Prop :=
  ∀ fin pending held,
    Closing needs extra (fun result _ pending' held' => match result with
      | .ok _ => (∀ l ∈ held, l ∈ held') ∧ ∃ written, pending' = pending ++ written ∧
          (∀ w ∈ written, kind w) ∧ AllCovered needs held' written
      | .error _ => True) t fin pending held

section

variable {kind : Write Row → Prop} {t : Statement Row Key Q ε β}

theorem Adds.ends (h : Adds needs extra kind t) {f : β → Statement Row Key Q ε α}
    (refused : ∀ failure pending held, post (.error failure) fin pending held)
    (rest : ∀ b written held', (∀ l ∈ held, l ∈ held') → (∀ w ∈ written, kind w) →
      AllCovered needs held' written →
      Closing needs extra post (f b) fin (pending ++ written) held') :
    Closing needs extra post (t.bind f) fin pending held := by
  refine .bind ((h fin pending held).mono fun result pending' held' after => ?_)
  cases result with
  | error failure => exact refused failure pending' held'
  | ok b =>
      obtain ⟨kept, written, rfl, same, covered⟩ := after
      exact rest b written held' kept same covered

theorem adds_pure (b : β) : Adds needs extra kind (.done b : Statement Row Key Q ε β) :=
  fun _ _ _ => ⟨fun _ mem => mem, [], by simp, fun _ mem => (by cases mem), allCovered_nil⟩

theorem adds_raise (failure : Failure ε) :
    Adds needs extra kind (.raise failure : Statement Row Key Q ε β) := fun _ _ _ => trivial

theorem Adds.bind (h : Adds needs extra kind t) {f : β → Statement Row Key Q ε α}
    (h' : ∀ b, Adds needs extra kind (f b)) : Adds needs extra kind (t.bind f) := by
  intro fin pending held
  refine h.ends (fun _ _ _ => trivial) fun b written held' kept same covered => ?_
  refine (h' b fin _ held').mono fun result pending' held'' after => ?_
  cases result with
  | error => trivial
  | ok a =>
      obtain ⟨kept', written', rfl, same', covered'⟩ := after
      refine ⟨fun l mem => kept' l (kept l mem), written ++ written', by simp, ?_,
        (covered.among kept').append covered'⟩
      exact fun w mem => (List.mem_append.mp mem).elim (same w) (same' w)

theorem Adds.weaken (h : Adds needs extra kind t) {kind' : Write Row → Prop}
    (weaker : ∀ w, kind w → kind' w) : Adds needs extra kind' t := by
  intro fin pending held
  refine (h fin pending held).mono fun result pending' held' after => ?_
  cases result with
  | error => trivial
  | ok a =>
      obtain ⟨kept, written, rfl, same, covered⟩ := after
      exact ⟨kept, written, rfl, fun w mem => weaker w (same w mem), covered⟩

variable {q : Q} {T : Name} {p : Text → Row T → Bool} {g : Row T → Row T} {key : Text} {row : Row T}

theorem adds_query {g : Database Row → β} :
    Adds needs extra kind (Tx.query q g : Statement Row Key Q ε β) :=
  fun _ _ _ _ _ => ⟨fun _ mem => mem, [], by simp, fun _ mem => (by cases mem), allCovered_nil⟩

theorem adds_acquire {r : Resource Name Key} {m : LockMode} :
    Adds needs extra kind (Tx.acquire q r m : Statement Row Key Q ε Unit) :=
  fun _ _ _ => ⟨fun _ mem => List.mem_cons_of_mem _ mem, [], by simp, fun _ mem => (by cases mem),
    allCovered_nil⟩

theorem adds_selectForUpdate :
    Adds needs extra kind (selectForUpdate q T p : Statement Row Key Q ε (Option (Text × Row T))) := by
  refine .bind adds_query fun found => ?_
  split
  · exact adds_pure _
  · exact .bind adds_acquire fun _ => adds_query

theorem adds_updateWhere (nothing_new : ∀ row r m, needs T (g row) r m → needs T row r m)
    (is_kind : ∀ key, kind ⟨T, key, .update g⟩) :
    Adds needs extra kind (updateWhere q T p g : Statement Row Key Q ε Unit) := by
  intro fin pending held
  rw [← Tx.bind_done (updateWhere q T p g)]
  refine updateWhere_ends False False.elim fun written held' kept swept => ?_
  refine ⟨kept, written, rfl, fun w mem => ?_, swept.covered_update nothing_new⟩
  obtain ⟨key, rfl, -⟩ := swept.writes w mem
  exact is_kind key

theorem adds_deleteWhere (is_kind : ∀ key, kind ⟨T, key, .delete⟩) :
    Adds needs extra kind (deleteWhere q T p : Statement Row Key Q ε Unit) := by
  intro fin pending held
  rw [← Tx.bind_done (deleteWhere q T p)]
  refine deleteWhere_ends False False.elim fun written held' kept swept => ?_
  refine ⟨kept, written, rfl, fun w mem => ?_, swept.covered_delete⟩
  obtain ⟨key, rfl, -⟩ := swept.writes w mem
  exact is_kind key

theorem adds_updateRow (nothing_new : ∀ row r m, needs T (g row) r m → needs T row r m)
    (is_kind : kind ⟨T, key, .update g⟩) :
    Adds needs extra kind (updateRow q T key g : Statement Row Key Q ε Unit) := by
  intro fin pending held
  rw [← Tx.bind_done (updateRow q T key g)]
  refine updateRow_ends trivial fun row _ => ?_
  refine ⟨fun _ mem => List.mem_cons_of_mem _ mem, _, rfl, fun w mem => ?_, fun w mem => ?_⟩
  · exact List.mem_singleton.mp mem ▸ is_kind
  · exact List.mem_singleton.mp mem ▸ covered_update (locks_of_mem (by simp)) nothing_new

theorem adds_insertRow (nothing : ∀ r m, ¬needs T row r m) (is_kind : kind ⟨T, key, .insert row⟩) :
    Adds needs extra kind (insertRow q T key row : Statement Row Key Q ε Unit) := by
  intro fin pending held
  rw [← Tx.bind_done (insertRow q T key row)]
  refine insertRow_ends trivial fun _ => ?_
  refine ⟨fun _ mem => List.mem_cons_of_mem _ mem, _, rfl, fun w mem => ?_, fun w mem => ?_⟩
  · exact List.mem_singleton.mp mem ▸ is_kind
  · exact List.mem_singleton.mp mem ▸
      covered_insert (by simp) fun r m needed => absurd needed (nothing r m)

theorem adds_lockWhere :
    Adds needs extra kind (lockWhere q T p : Statement Row Key Q ε (List Text)) := by
  intro fin pending held
  rw [← Tx.bind_done (lockWhere q T p)]
  refine lockWhere_ends fun found held' kept _ _ => ?_
  exact ⟨kept, [], by simp, fun _ mem => (by cases mem), allCovered_nil⟩

theorem adds_deleteRow (is_kind : kind ⟨T, key, .delete⟩) :
    Adds needs extra kind (deleteRow q T key : Statement Row Key Q ε Unit) := by
  intro fin pending held
  rw [← Tx.bind_done (deleteRow q T key)]
  refine deleteRow_ends (fun _ => ?_) fun row _ => ?_
  · exact ⟨fun _ mem => List.mem_cons_of_mem _ mem, [], by simp, fun _ mem => (by cases mem),
      allCovered_nil⟩
  · refine ⟨fun _ mem => List.mem_cons_of_mem _ mem, _, rfl, fun w mem => ?_, fun w mem => ?_⟩
    · exact List.mem_singleton.mp mem ▸ is_kind
    · rw [List.mem_singleton.mp mem]
      exact locks_of_mem (by simp)

theorem adds_refer : Adds needs extra kind (refer q T key : Statement Row Key Q ε Unit) := by
  refine .bind adds_acquire fun _ => .bind adds_query fun found => ?_
  split
  · exact adds_pure _
  · exact adds_raise _

theorem adds_enter {value : Key} {taken : Database Row → Bool} :
    Adds needs extra kind (enter q value taken : Statement Row Key Q ε Unit) := by
  refine .bind adds_acquire fun _ => .bind adds_query fun found => ?_
  split
  · exact adds_raise _
  · exact adds_pure _

end

/-! ## Runs -/

section

variable {extras : Pid → Restraint (Database Row)}
  {posts : Pid → Post (Database Row) (Resource Name Key) (Write Row) (Failure ε) α}
  {s : State (Database Row) (Resource Name Key) (Write Row) Q (Failure ε) α}

/-- A lawful commit is fair to everybody whose restraint it keeps. -/
theorem heading_step_lawful [DecidableEq Key]
    (h : Heading Database.apply (fun pid => peers needs (extras pid)) posts s) (e : Event)
    (lawful : ∀ pid a pending, posts pid (.ok a) s.db pending (s.held pid) →
      Lawful needs (s.held pid) s.db (view Database.apply s.db pending))
    (kept : ∀ pid a pending q, e = .step pid → s.proc pid = .running (.done a) pending → q ≠ pid →
      (extras q).allows s.db (view Database.apply s.db pending)) :
    Heading Database.apply (fun pid => peers needs (extras pid)) posts (s.step Database.apply e) := by
  refine h.step e fun pid a pending is_step at_ q t pending' other _ => ⟨?_, ?_⟩
  · exact (lawful pid a pending (h.post_of_done at_)).others
      fun r m m' mine theirs => h.compatible (Ne.symm other) mine theirs
  · exact kept pid a pending q is_step at_ other

theorem heading_step [DecidableEq Key]
    (h : Heading Database.apply (fun pid => peers needs (extras pid)) posts s) (e : Event)
    (covered : ∀ pid a pending, posts pid (.ok a) s.db pending (s.held pid) →
      AllCovered needs (s.held pid) pending)
    (kept : ∀ pid a pending q, e = .step pid → s.proc pid = .running (.done a) pending → q ≠ pid →
      (extras q).allows s.db (view Database.apply s.db pending)) :
    Heading Database.apply (fun pid => peers needs (extras pid)) posts (s.step Database.apply e) :=
  heading_step_lawful h e (fun pid a pending post => (covered pid a pending post).lawful) kept

/-- The step lemma for requests of several transactions -/
theorem serving_step [DecidableEq Key]
    {posts : Pid → List α → Post (Database Row) (Resource Name Key) (Write Row) (Failure ε) α}
    {s : Service (Database Row) (Resource Name Key) (Write Row) Q (Failure ε) α}
    (h : Serving Database.apply (fun pid => peers needs (extras pid)) posts s) (e : Event)
    (lawful : ∀ pid a pending,
      posts pid (s.results pid) (.ok a) s.state.db pending (s.state.held pid) →
      Lawful needs (s.state.held pid) s.state.db (view Database.apply s.state.db pending))
    (kept : ∀ pid a pending q, e = .step pid → s.state.proc pid = .running (.done a) pending →
      q ≠ pid → (extras q).allows s.state.db (view Database.apply s.state.db pending)) :
    Serving Database.apply (fun pid => peers needs (extras pid)) posts (s.step Database.apply e) := by
  refine h.step e fun pid a pending is_step at_ q t pending' other _ => ⟨?_, ?_⟩
  · exact (lawful pid a pending (h.post_of_done at_)).others
      fun r m m' mine theirs => h.heading.compatible (Ne.symm other) mine theirs
  · exact kept pid a pending q is_step at_ other

end

end Relational
