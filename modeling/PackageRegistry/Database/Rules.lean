import PackageRegistry.Database.Promoting
import PackageRegistry.Lib.Evolution
import PackageRegistry.Lib.Leads

/-! # Rules for the writes of the registry

Published rows stay as they are, every row has the key of its columns and refers to rows that are
there, and the rows of a module change only under the lock on the module.
-/

namespace PackageRegistry.Database

open Transactions Relational

/-- What is seen of a database by a transaction with these writes -/
abbrev upon (db : Db) (pending : List (Write Row)) : Db := view Database.apply db pending

theorem upon_row (db : Db) (pending : List (Write Row)) (T : TableName) (key : Text) :
    (upon db pending).row T key = rowAfter pending T key (db.row T key) := view_row ..

theorem upon_concat (db : Db) (pending : List (Write Row)) (w : Write Row) :
    upon db (pending ++ [w]) = (upon db pending).apply w := view_concat ..

/-- The tables whose rows belong to a module -/
def Owned : TableName → Prop
  | .module_versions | .module_dependencies | .module_channels => True
  | _ => False

/-- The rows of a module, behind the row of the module -/
def ofModule : Guards TableName Key := fun T key r =>
  Owned T ∧ ∃ module_id rest, key = Text.pair module_id rest ∧ r = .row .modules module_id

/-- Modules come only from imports, and events only under the lock on their module. -/
def needed : Needs Row Key
  | .modules, _, r, m => r = .index .shadow_import ∧ m = .update
  | .promotion_events, e, r, m => r = .row .modules e.module_id ∧ m = .update
  | _, _, _, _ => False

/-- What may become of a row -/
def Succeeds : (T : TableName) → Row T → Row T → Prop
  | .artifacts, _, _ => True
  | .module_channels, c, c' =>
      c'.module_id = c.module_id ∧ c'.channel = c.channel ∧ c.revision ≤ c'.revision
  | .publishers, row, row' => row' = row
  | .modules, row, row' => row' = row
  | .module_versions, row, row' => row' = row
  | .module_dependencies, row, row' => row' = row
  | .promotion_events, row, row' => row' = row

theorem Succeeds.refl {T : TableName} (row : Row T) : Succeeds T row row := by
  cases T <;> simp [Succeeds]

theorem Succeeds.trans {T : TableName} {a b c : Row T} (first : Succeeds T a b)
    (second : Succeeds T b c) : Succeeds T a c := by
  cases T with
  | artifacts => trivial
  | module_channels =>
      exact ⟨second.1.trans first.1, second.2.1.trans first.2.1, first.2.2.trans second.2.2⟩
  | _ => exact Eq.trans second first

/-- How the registry evolves -/
def history : Evolution Row where
  rel T _ a b := Persists (Succeeds T) a b
  refl _ _ row := .refl Succeeds.refl row
  trans first second := first.trans (fun _ _ _ => Succeeds.trans) second

/-- A later state of the registry. A version comes with its dependencies, and gets no more. -/
structure Later (db db' : Db) : Prop where
  evolved : history.Across db db'
  dependencies : ∀ key d, db'.row .module_dependencies key = some d →
    db.row .module_dependencies key = some d ∨
      db.row .module_versions (versionId d.owner_module_id d.owner_version) = none

def growth : Restraint Db where
  allows := Later
  refl _ := ⟨.refl, fun _ _ here => .inl here⟩
  trans first second := by
    refine ⟨first.evolved.trans second.evolved, fun key d here => ?_⟩
    rcases second.dependencies key d here with between | absent
    · exact first.dependencies key d between
    · refine .inr (Option.eq_none_iff_forall_ne_some.mpr fun v before => ?_)
      obtain ⟨v', between, -⟩ := first.evolved .module_versions _ v before
      rw [absent] at between
      cases between

theorem later_write {db : Db} {T : TableName} {key : Text} {change : Change (Row T)}
    (other : T ≠ .module_dependencies)
    (succeeds : Persists (Succeeds T) (db.row T key) (change.on (db.row T key))) :
    Later db (db.apply ⟨T, key, change⟩) := by
  refine ⟨Evolution.across_apply succeeds, fun key' d here => .inl ?_⟩
  rwa [apply_row, onRow_other other] at here

/-- A row is found under the key of its columns. -/
def Keyed : (T : TableName) → Text → Row T → Prop
  | .module_versions, key, v => key = versionId v.module_id v.version
  | .module_dependencies, key, d =>
      key = dependencyId d.owner_module_id d.owner_version d.dependency_module_id
  | .module_channels, key, c => key = channelId c.module_id c.channel
  | .promotion_events, key, e => key = e.result.promotion_id
  | _, _, _ => True

/-- Every row has its key, and refers to rows that are there. -/
structure Linked (db : Db) : Prop where
  keyed : ∀ T key row, db.row T key = some row → Keyed T key row
  refers : ∀ T key row, db.row T key = some row → ∀ ref ∈ references T row,
    (db.row ref.1 ref.2).isSome = true

/-- Rows with other keys stay, and so what refers to them. -/
theorem Linked.write {db : Db} (h : Linked db) {T : TableName} {key : Text} {change : Change (Row T)}
    {new : Row T} (written : change.on (db.row T key) = some new) (keyed : Keyed T key new)
    (refers : ∀ ref ∈ references T new, ((db.apply ⟨T, key, change⟩).row ref.1 ref.2).isSome = true) :
    Linked (db.apply ⟨T, key, change⟩) := by
  have here : (db.apply ⟨T, key, change⟩).row T key = some new := by
    rw [apply_row, onRow_same, if_pos rfl, written]
  have other : ∀ T' key', (T' = T ∧ key' = key) ∨
      (db.apply ⟨T, key, change⟩).row T' key' = db.row T' key' := by
    intro T' key'
    rw [apply_row]
    by_cases same : T = T'
    · subst same
      by_cases sameKey : key = key'
      · exact .inl ⟨rfl, sameKey.symm⟩
      · exact .inr (by rw [onRow_same, if_neg sameKey])
    · exact .inr (onRow_other same ..)
  refine ⟨fun T' key' row' there => ?_, fun T' key' row' there ref mem => ?_⟩
  · rcases other T' key' with ⟨rfl, rfl⟩ | same
    · rw [here, Option.some.injEq] at there
      exact there ▸ keyed
    · exact h.keyed T' key' row' (same.symm.trans there)
  · rcases other T' key' with ⟨rfl, rfl⟩ | same
    · rw [here, Option.some.injEq] at there
      exact refers ref (there ▸ mem)
    · have before := h.refers T' key' row' (same.symm.trans there) ref mem
      rcases other ref.1 ref.2 with ⟨table, name⟩ | same'
      · rw [table, name, here]
        rfl
      · rw [same']
        exact before

/-! ## Progress of a transaction -/

abbrev At := Point Lock (Write Row)

/-- What holds of a transaction between two statements -/
structure Progress (fin : Db) (p : At) : Prop where
  covered : AllCovered needed p.held p.pending
  minds : AllMind ofModule p.held p.pending
  linked : ∀ db, Others needed p.held db fin → Still ofModule p.held db fin → Linked db →
    Linked (upon db p.pending)

/-- Rows that are there, and stay -/
def Referred (fin : Db) (p : At) (refs : List (TableName × Text)) : Prop :=
  ∀ ref ∈ refs, Locks p.held (.row ref.1 ref.2) .keyShare ∧
    ((upon fin p.pending).row ref.1 ref.2).isSome = true

structure Onward (R : Restraint Db) (fin : Db) (p p' : At) : Prop where
  kept : ∀ l ∈ p.held, l ∈ p'.held
  allowed : R.allows (upon fin p.pending) (upon fin p'.pending)
  progress : Progress fin p → Progress fin p'

def onward (R : Restraint Db) (fin : Db) : Course Lock (Write Row) where
  goes := Onward R fin
  refl _ := ⟨fun _ mem => mem, R.refl _, id⟩
  trans first second := ⟨fun l mem => second.kept l (first.kept l mem),
    R.trans first.allowed second.allowed, second.progress ∘ first.progress⟩

variable {R : Restraint Db} {fin : Db} {p p' : At} {T : TableName} {key : Text} {row : Row T}

theorem progress_start : Progress fin .start := ⟨allCovered_nil, allMind_nil, fun _ _ _ => id⟩

theorem Progress.among (h : Progress fin p) {held : Held Lock} (more : ∀ l ∈ p.held, l ∈ held) :
    Progress fin ⟨p.pending, held⟩ :=
  ⟨h.covered.among more, h.minds.among more,
    fun db others still => h.linked db (others.among more) (still.among more)⟩

theorem onward_among {held : Held Lock} (more : ∀ l ∈ p.held, l ∈ held) :
    Onward R fin p ⟨p.pending, held⟩ :=
  ⟨more, R.refl _, fun progress => progress.among more⟩

theorem Onward.mono {R' : Restraint Db} (h : Onward R fin p p')
    (wider : ∀ db db', R.allows db db' → R'.allows db db') : Onward R' fin p p' :=
  ⟨h.kept, wider _ _ h.allowed, h.progress⟩

/-- A write goes on with what holds of a transaction. -/
theorem Progress.write (h : Progress fin p) {change : Change (Row T)} {new : Row T}
    (covered : Covered needed p.held ⟨T, key, change⟩)
    (minds : Minds ofModule p.held ⟨T, key, change⟩)
    (written : ∀ db, Others needed p.held db fin →
      change.on ((upon db p.pending).row T key) = some new) (keyed : Keyed T key new)
    (refers : Referred fin (p.write ⟨T, key, change⟩) (references T new)) :
    Progress fin (p.write ⟨T, key, change⟩) := by
  refine ⟨h.covered.concat covered, h.minds.concat minds, fun db others still linked => ?_⟩
  have present : ∀ ref ∈ references T new,
      ((upon db (p.pending ++ [⟨T, key, change⟩])).row ref.1 ref.2).isSome = true :=
    fun ref mem => still.present (refers ref mem).1 (refers ref mem).2
  simp only [Point.write, upon_concat] at present ⊢
  exact (h.linked db others still linked).write (written db others) keyed present

/-- A row that is new, under the locks that it needs -/
structure Fits (R : Restraint Db) (p : At) (T : TableName) (key : Text) (row : Row T) : Prop where
  behind : ∀ r, ofModule T key r → Locks p.held r .update
  needs : ∀ r m, needed T row r m → Locks p.held r m
  keyed : Keyed T key row
  keeps : ∀ db : Db, db.row T key = none → R.allows db (db.apply ⟨T, key, .insert row⟩)

/-- The row is there, with all that it refers to. -/
theorem Fits.onward (h : Fits R p T key row) {held : Held Lock}
    (more : ∀ l ∈ (.row T key, .update) :: p.held, l ∈ held)
    (free : (upon fin p.pending).row T key = none)
    (refers : Referred fin ⟨p.pending ++ [⟨T, key, .insert row⟩], held⟩ (references T row)) :
    Onward R fin p ⟨p.pending ++ [⟨T, key, .insert row⟩], held⟩ := by
  have more' : ∀ l ∈ p.held, l ∈ held := fun l mem => more l (List.mem_cons_of_mem _ mem)
  have mine : (.row T key, .update) ∈ held := more _ (by simp)
  refine ⟨more', ?_, fun progress => ?_⟩
  · rw [upon_concat]
    exact h.keeps _ free
  · refine (progress.among more').write (covered_insert mine fun r m need => (h.needs r m need).among more')
      ⟨fun r guarded => (h.behind r guarded).among more', fun _ => locks_of_update mine⟩
      (fun _ _ => rfl) h.keyed refers

/-- Where rows evolve one by one, a row may be added that may come from nothing. -/
theorem keeps_insert {E : Evolution Row} (new : E.rel T key none (some row)) (db : Db)
    (free : db.row T key = none) : E.restraint.allows db (db.apply ⟨T, key, .insert row⟩) := by
  refine Evolution.across_apply ?_
  dsimp only
  rw [free]
  exact new

theorem row_inserted : (upon fin (p.pending ++ [⟨T, key, .insert row⟩])).row T key = some row := by
  rw [upon_concat, apply_row, onRow_same, if_pos rfl]
  rfl

/-! ## Statements -/

/-- A transaction of the registry: others only bring it further, and keep to what is always true. -/
def keeping (Inv : Db → Prop) : Restraint Db where
  allows a b := Later a b ∧ (Inv b → Inv a)
  refl db := ⟨growth.refl db, id⟩
  trans first second := ⟨growth.trans first.1 second.1, first.2 ∘ second.2⟩

/-- The peers of a transaction -/
abbrev others (Inv : Db → Prop) : Peers Db Lock := wardens ofModule needed (keeping Inv)

/-- Whatever others do, the transaction goes on to `P`, or fails. -/
abbrev Leading {β : Type} (R : Restraint Db) (Inv : Db → Prop) (P : β → At → Prop)
    (t : Program β) (fin : Db) (p : At) : Prop :=
  Leads Database.apply (others Inv) (onward R fin) P t fin p

section

variable {Inv : Db → Prop} {β : Type} {P : β → At → Prop}

theorem raise_leads {e : DatabaseException} : Leading R Inv P (raise e) fin p := trivial

theorem pure_leads {b : β} (ok : P b p) : Leading R Inv P (pure b) fin p := Leads.pure ok

theorem checked_leads {c : Checked β} (ok : ∀ b, c = .ok b → P b p) :
    Leading R Inv P (checked c) fin p := by
  cases c with
  | ok b => exact pure_leads (ok b rfl)
  | error e => exact raise_leads

theorem get_leads {P : Option (Row T) → At → Prop}
    (ok : ∀ db, (others Inv).allows p.held db fin → P ((upon db p.pending).row T key) p) :
    Leading R Inv P (get T key) fin p := .query ok

/-- A foreign key finds its row, and holds on to it. -/
theorem referAll_ends {refs : List (TableName × Text)}
    {result : Post Db Lock (Write Row) (Failure DatabaseException) Unit} {pending : List (Write Row)}
    {held : Held Lock} (refused : ∀ e pending held, result (.error e) fin pending held)
    (rest : ∀ held', (∀ l ∈ held, l ∈ held') → Referred fin ⟨pending, held'⟩ refs →
      result (.ok ()) fin pending held') :
    Ends Database.apply (others Inv) result (referAll refs) fin pending held := by
  induction refs generalizing held with
  | nil => exact rest held (fun _ mem => mem) (by simp [Referred])
  | cons ref refs ih =>
      obtain ⟨T, key⟩ := ref
      rw [referAll, Tx.bind_eq]
      refine heeding_wardens.refer_ends (refused ..) fun target here => ?_
      refine ih fun held' kept there => rest held' (fun l mem => kept l (by simp [mem])) ?_
      rw [← upon_row] at here
      refine List.forall_mem_cons.mpr ⟨⟨locks_of_mem (kept _ (by simp)), ?_⟩, there⟩
      rw [here]
      rfl

/-- An INSERT with its foreign keys -/
theorem insert_leads (fits : Fits R p T key row) :
    Leading R Inv (fun _ p' => (upon fin p.pending).row T key = none ∧
        (upon fin p'.pending).row T key = some row)
      (do
        insertRow () T key row
        referAll (references T row)) fin p := by
  rw [Tx.bind_eq]
  refine heeding_wardens.insertRow_ends trivial fun free => ?_
  rw [← upon_row] at free
  refine referAll_ends (fun _ _ _ => trivial) fun held' more refers => ?_
  exact ⟨fits.onward more free refers, free, row_inserted⟩

/-- The UPDATE of a row, under the locks that it needs -/
structure Alters (R : Restraint Db) (fin : Db) (p : At) (T : TableName) (key : Text)
    (f : Row T → Row T) (refs : List (TableName × Text)) : Prop where
  behind : ∀ r, ofModule T key r → Locks p.held r .update
  needs : ∀ row r m, needed T (f row) r m → needed T row r m
  keyed : ∀ row, (upon fin p.pending).row T key = some row → Keyed T key (f row)
  refers : ∀ row, (upon fin p.pending).row T key = some row → references T (f row) = refs
  keeps : ∀ row, (upon fin p.pending).row T key = some row →
    R.allows (upon fin p.pending) ((upon fin p.pending).apply ⟨T, key, .update f⟩)

/-- An UPDATE with its foreign keys -/
theorem update_leads {f : Row T → Row T} {refs : List (TableName × Text)}
    (alters : Alters R fin p T key f refs) :
    Leading R Inv (fun _ p' => ∃ row, (upon fin p.pending).row T key = some row ∧
        (upon fin p'.pending).row T key = some (f row))
      (do
        updateRow () T key f
        referAll refs) fin p := by
  rw [Tx.bind_eq]
  refine heeding_wardens.updateRow_ends trivial fun row here => ?_
  rw [← upon_row] at here
  refine referAll_ends (fun _ _ _ => trivial) fun held' more refers => ?_
  have more' : ∀ l ∈ p.held, l ∈ held' := fun l mem => more l (List.mem_cons_of_mem _ mem)
  have mine : Locks held' (.row T key) .noKeyUpdate := locks_of_mem (more _ (by simp))
  refine ⟨⟨more', ?_, fun progress => ?_⟩, row, here, ?_⟩
  · rw [upon_concat]
    exact alters.keeps row here
  · refine (progress.among more').write ⟨mine, fun row r m need => .inl (alters.needs row r m need)⟩
      ⟨fun r guarded => (alters.behind r guarded).among more', False.elim⟩ (fun db others => ?_)
      (alters.keyed row here) ?_
    · have same : (upon db p.pending).row T key = some row := by
        rw [upon_row, ← others.row T key mine, ← upon_row, here]
      rw [same]
      rfl
    · rw [alters.refers row here]
      exact refers
  · rw [upon_concat, apply_row, onRow_same, if_pos rfl, here]
    rfl

section

variable {s : Settings}

theorem sendable_leads {P : Unit → At → Prop} (ok : P () p) :
    Leading R Inv P (sendable s T key row) fin p := by
  unfold sendable
  split
  · exact pure_leads ok
  · exact raise_leads

theorem add_leads (fits : Fits R p T key row) :
    Leading R Inv (fun _ p' => (upon fin p.pending).row T key = none ∧
      (upon fin p'.pending).row T key = some row) (add s T key row) fin p := by
  rw [add, Tx.bind_eq]
  refine (sendable_leads (P := fun _ p' => p' = p) rfl).bind fun _ p' _ same => ?_
  subst same
  exact insert_leads fits

theorem insertIfAbsent_leads (fits : Fits R p T key row) :
    Leading R Inv (fun _ p' => ((upon fin p.pending).row T key).isSome = true → p' = p)
      (insertIfAbsent s T key row) fin p := by
  rw [insertIfAbsent, Tx.bind_eq]
  refine (sendable_leads (P := fun _ p' => p' = p) rfl).bind fun _ p' _ same => ?_
  subst same
  rw [Tx.bind_eq]
  refine .insertNew (fun db _ _ => ?_) fun db allowed free => ?_
  · have same : Leading R Inv (fun _ p'' => ((upon fin p'.pending).row T key).isSome = true →
        p'' = p') (pure ()) fin p' := pure_leads fun _ => rfl
    exact same
  · rw [heeding_wardens.read_locked allowed (locks_of_update (by simp)), ← upon_row,
      Option.isSome_eq_false_iff, Option.isNone_iff_eq_none] at free
    refine referAll_ends (fun _ _ _ => trivial) fun held' more refers => ?_
    refine ⟨fits.onward more free refers, fun here => ?_⟩
    rw [free] at here
    cases here

theorem expectRecord_leads {columns : List Text} {expected : Row T → Bool} {found : Option (Row T)} :
    Leading R Inv (fun record p' => found = some record ∧ expected record = true ∧ p' = p)
      (expectRecord T columns expected found) fin p := by
  cases found with
  | none => exact raise_leads
  | some record =>
      rw [expectRecord]
      split
      · exact pure_leads ⟨rfl, ‹_›, rfl⟩
      · exact raise_leads

theorem ensure_record_leads (fits : Fits R p T key row) {columns : List Text}
    {expected : Row T → Bool} :
    Leading R Inv (fun record _ => expected record = true)
      (ensure_record s T columns key row expected) fin p := by
  rw [ensure_record, Tx.bind_eq]
  refine (get_leads (P := fun _ p' => p' = p) fun _ _ => rfl).bind fun found p' _ same => ?_
  subst same
  cases found with
  | some record => exact expectRecord_leads.mono fun _ _ _ result => result.2.1
  | none =>
      refine (insertIfAbsent_leads fits).bind fun _ p₁ _ _ => ?_
      refine (get_leads (P := fun _ _ => True) fun _ _ => trivial).bind fun found p₂ _ _ => ?_
      exact expectRecord_leads.mono fun _ _ _ result => result.2.1

end

end

end PackageRegistry.Database
