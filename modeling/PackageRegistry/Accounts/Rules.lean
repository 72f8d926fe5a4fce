import PackageRegistry.Accounts.Tables

/-! # Rules for the statements of the accounts

The rules of the relational library at these tables, and the ones for the audit log.
-/

namespace PackageRegistry.Accounts

open Transactions Relational
open PackageRegistry.Auth (UserId AuthError)

abbrev Needed := Needs Row Key

abbrev Ending (α : Type) := Post Db Lock (Write Row) (Failure AuthError) α

section

variable {α : Type} {needs : Needed} {extra : Restraint Db} {post : Ending α} {fin : Db}
  {pending : List (Write Row)} {held : Held Lock}

theorem get_ends {T : TableName} {key : Text} {f : Option (Row T) → Program α}
    (rest : ∀ db, (peers needs extra).allows held db fin →
      Closing needs extra post (f ((view Database.apply db pending).row T key)) fin pending held) :
    Closing needs extra post ((get T key).bind f) fin pending held := .query rest

theorem find_ends {T : TableName} {p : Row T → Bool} {f : Option (Text × Row T) → Program α}
    (absent : ∀ db, (peers needs extra).allows held db fin →
      (∀ key row, (view Database.apply db pending).row T key = some row → p row = false) →
      Closing needs extra post (f none) fin pending held)
    (found : ∀ db key row, (peers needs extra).allows held db fin →
      (view Database.apply db pending).row T key = some row → p row = true →
      Closing needs extra post (f (some (key, row))) fin pending held) :
    Closing needs extra post ((find T p).bind f) fin pending held := by
  refine .query fun db allowed => ?_
  cases first : (view Database.apply db pending).first T fun _ row => p row with
  | none => exact absent db allowed (first_none first)
  | some row => exact found db row.1 row.2 allowed (first_some first).1 (first_some first).2

theorem findAll_ends {T : TableName} {p : Row T → Bool} {f : List (Text × Row T) → Program α}
    (rest : ∀ db rows, (peers needs extra).allows held db fin →
      (∀ key row, (key, row) ∈ rows ↔
        (view Database.apply db pending).row T key = some row ∧ p row = true) →
      Closing needs extra post (f rows) fin pending held) :
    Closing needs extra post ((findAll T p).bind f) fin pending held := by
  refine .query fun db allowed => rest db _ allowed fun key row => ?_
  rw [List.mem_filter, Table.mem_toList]
  rfl

theorem getForUpdate_ends {T : TableName} {key : Text} {f : Option (Row T) → Program α}
    (absent : ∀ db, (peers needs extra).allows held db fin →
      (view Database.apply db pending).row T key = none →
      Closing needs extra post (f none) fin pending held)
    (gone : Closing needs extra post (f none) fin pending ((.row T key, .update) :: held))
    (found : ∀ row, rowAfter pending T key (fin.row T key) = some row →
      Closing needs extra post (f (some row)) fin pending ((.row T key, .update) :: held)) :
    Closing needs extra post ((getForUpdate T key).bind f) fin pending held := by
  unfold getForUpdate
  rw [Tx.bind_eq, Tx.bind_assoc]
  refine selectForUpdate_ends (fun db allowed free => absent db allowed ?_) (fun key' row same => ?_)
    fun key' row here same => ?_
  · refine Option.eq_none_iff_forall_ne_some.mpr fun row here => ?_
    simpa using free key row here
  · obtain rfl : key' = key := by simpa using same
    exact gone
  · obtain rfl : key' = key := by simpa using same
    exact found row here

/-- A row that is locked for its lock alone: it may not be there. -/
theorem lock_ends {T : TableName} {key : Text} {f : Option (Row T) → Program α}
    (rest : ∀ row held', (∀ l ∈ held, l ∈ held') →
      ((.row T key, .update) ∈ held' ∨ ∃ db, (peers needs extra).allows held db fin ∧
        (view Database.apply db pending).row T key = none) →
      Closing needs extra post (f row) fin pending held') :
    Closing needs extra post ((getForUpdate T key).bind f) fin pending held := by
  refine getForUpdate_ends (fun db allowed gone => ?_) ?_ fun row _ => ?_
  · exact rest none held (fun _ mem => mem) (.inr ⟨db, allowed, gone⟩)
  · exact rest none _ (fun _ mem => List.mem_cons_of_mem _ mem) (.inl (by simp))
  · exact rest (some row) _ (fun _ mem => List.mem_cons_of_mem _ mem) (.inl (by simp))

theorem findForUpdate_ends {T : TableName} {p : Row T → Bool}
    {f : Option (Text × Row T) → Program α}
    (absent : ∀ db, (peers needs extra).allows held db fin →
      (∀ key row, (view Database.apply db pending).row T key = some row → p row = false) →
      Closing needs extra post (f none) fin pending held)
    (gone : ∀ key, Closing needs extra post (f none) fin pending ((.row T key, .update) :: held))
    (found : ∀ key row, rowAfter pending T key (fin.row T key) = some row → p row = true →
      Closing needs extra post (f (some (key, row))) fin pending ((.row T key, .update) :: held)) :
    Closing needs extra post ((findForUpdate T p).bind f) fin pending held :=
  selectForUpdate_ends absent (fun key _ _ => gone key) found

/-- `findForUpdate_ends` when nothing is known of a row that is not found. -/
theorem findForUpdate_either {T : TableName} {p : Row T → Bool}
    {f : Option (Text × Row T) → Program α}
    (absent : ∀ held', (∀ l ∈ held, l ∈ held') → Closing needs extra post (f none) fin pending held')
    (found : ∀ key row, rowAfter pending T key (fin.row T key) = some row → p row = true →
      Closing needs extra post (f (some (key, row))) fin pending ((.row T key, .update) :: held)) :
    Closing needs extra post ((findForUpdate T p).bind f) fin pending held :=
  findForUpdate_ends (fun _ _ _ => absent held fun _ mem => mem)
    (fun _ => absent _ fun _ mem => List.mem_cons_of_mem _ mem) found

theorem update_ends {T : TableName} {key : Text} {g : Row T → Row T} {f : Unit → Program α}
    (refused : ∀ failure pending held, post (.error failure) fin pending held)
    (rest : ∀ row, rowAfter pending T key (fin.row T key) = some row →
      Closing needs extra post (f ()) fin (pending ++ [⟨T, key, .update g⟩])
        ((.row T key, .noKeyUpdate) :: held)) :
    Closing needs extra post ((update T key g).bind f) fin pending held :=
  updateRow_ends (refused _ _ _) rest

theorem referTo_ends {T : TableName} {user_id : Option UserId} {f : Unit → Program α}
    (refused : ∀ failure pending held, post (.error failure) fin pending held)
    (rest : ∀ held', (∀ l ∈ held, l ∈ held') →
      (∀ id, user_id = some id → (.row .users id, .keyShare) ∈ held' ∧
        ∃ user, rowAfter pending .users id (fin.row .users id) = some user) →
      Closing needs extra post (f ()) fin pending held') :
    Closing needs extra post ((referTo T user_id).bind f) fin pending held := by
  cases user_id with
  | none => exact rest held (fun _ mem => mem) (fun _ same => by cases same)
  | some id =>
      refine refer_ends (refused _ _ _) fun user there =>
        rest _ (fun _ mem => List.mem_cons_of_mem _ mem) ?_
      rintro _ ⟨⟩
      exact ⟨by simp, user, there⟩

/-- The entry needs its actor, who is locked and there. -/
theorem insertAudit_ends {id : Text} {entry : AuthAuditLog} {f : Unit → Program α}
    (refused : ∀ failure pending held, post (.error failure) fin pending held)
    (nothing : ∀ r m, ¬needs .auth_audit_logs entry r m)
    (rest : ∀ held', (∀ l ∈ held, l ∈ held') →
      (∀ user_id, entry.actor_user_id = some user_id → (.row .users user_id, .keyShare) ∈ held' ∧
        ∃ user, rowAfter pending .users user_id (fin.row .users user_id) = some user) →
      Covered needs held' ⟨.auth_audit_logs, id, .insert entry⟩ →
      Closing needs extra post (f ()) fin (pending ++ [⟨.auth_audit_logs, id, .insert entry⟩]) held') :
    Closing needs extra post ((insertAudit id entry).bind f) fin pending held := by
  unfold insertAudit
  simp only [Tx.bind_eq, Tx.bind_assoc]
  refine insertRow_ends (refused _ _ _) fun _ => referTo_ends refused fun held₁ more₁ actor => ?_
  refine referTo_ends refused fun held₂ more₂ _ => ?_
  have more : ∀ l ∈ (.row .auth_audit_logs id, .update) :: held, l ∈ held₂ := fun l mem =>
    more₂ l (more₁ l mem)
  refine rest held₂ (fun l mem => more l (List.mem_cons_of_mem _ mem)) (fun user_id same => ?_)
    (covered_insert (more _ (by simp)) fun r m needed => absurd needed (nothing r m))
  obtain ⟨mine, user, there⟩ := actor user_id same
  exact ⟨more₂ _ mine, user, by simpa using there⟩

/-! Programs of which only the kind of their writes matters -/

variable {kind : Write Row → Prop} {T : TableName} {p : Row T → Bool} {g : Row T → Row T} {key : Text}

theorem adds_get : Adds needs extra kind (get T key) := adds_query

theorem adds_update (nothing_new : ∀ row r m, needs T (g row) r m → needs T row r m)
    (is_kind : kind ⟨T, key, .update g⟩) : Adds needs extra kind (update T key g) :=
  adds_updateRow nothing_new is_kind

theorem adds_updateAll
    (nothing_new : ∀ row r m, needs T (g row) r m → needs T row r m)
    (is_kind : ∀ key, kind ⟨T, key, .update g⟩) : Adds needs extra kind (updateAll T p g) :=
  adds_updateWhere nothing_new is_kind

theorem adds_deleteAll (is_kind : ∀ key, kind ⟨T, key, .delete⟩) :
    Adds needs extra kind (deleteAll T p) :=
  adds_deleteWhere is_kind

theorem adds_findForUpdate : Adds needs extra kind (findForUpdate T p) := adds_selectForUpdate

theorem adds_find : Adds needs extra kind (find T p) := adds_query

theorem adds_insert {row : Row T} (nothing : ∀ r m, ¬needs T row r m)
    (is_kind : kind ⟨T, key, .insert row⟩) : Adds needs extra kind (insert T key row) :=
  adds_insertRow nothing is_kind

theorem adds_unique {value : Key} : Adds needs extra kind (unique T value p) := adds_enter

theorem adds_referTo {user_id : Option UserId} : Adds needs extra kind (referTo T user_id) := by
  cases user_id with
  | none => exact adds_pure _
  | some id => exact adds_refer

theorem adds_insertAudit {id : Text} {entry : AuthAuditLog}
    (nothing : ∀ r m, ¬needs .auth_audit_logs entry r m)
    (is_kind : kind ⟨.auth_audit_logs, id, .insert entry⟩) :
    Adds needs extra kind (insertAudit id entry) :=
  .bind (adds_insert nothing is_kind) fun _ => .bind adds_referTo fun _ => adds_referTo

end

end PackageRegistry.Accounts
