import Mathlib.Data.List.Induction
import PackageRegistry.Auth.Sessions

/-! # Which revocations are complete

The UPDATE of a revocation sees the sessions of its snapshot. A refresh that commits
while the UPDATE runs adds a session that the snapshot does not have, and this
session stays alive. Only `reset_password` is safe from that: it locks the user's
row, which the successor's foreign key check needs. In every other case the
revocation is complete as long as no rotation in its scope commits while its UPDATE
goes through its rows.
-/

namespace PackageRegistry.Auth

open Transactions Runs

/-! ## Writes, one session at a time -/

/-- What a write makes of the row under a key. -/
def Write.onSession (jti : Text) : Write → Option UserSession → Option UserSession
  | .revoke key revoked_at reason, row =>
      if key = jti then row.map (·.revoke revoked_at reason) else row
  | .rotate key now next, row => if key = jti then row.map (·.rotate now next) else row
  | .addSession key record, row => if key = jti then some record else row
  | _, row => row

/-- What pending writes make of the row under a key. -/
def rowAfter (pending : List Write) (jti : Text) (row : Option UserSession) : Option UserSession :=
  pending.foldl (fun row w => w.onSession jti row) row

theorem apply_session (db : Db) (w : Write) (jti : Text) :
    (db.apply w).user_sessions[jti]? = w.onSession jti db.user_sessions[jti]? := by
  cases w with
  | revoke | rotate => simp only [Db.apply, Write.onSession, Table.get_modify]
  | addSession => simp only [Db.apply, Write.onSession, Table.get_insert]
  | setPassword | addToken | useToken | invalidateToken | audit => rfl

theorem view_session (db : Db) (pending : List Write) (jti : Text) :
    (view Db.apply db pending).user_sessions[jti]? =
      rowAfter pending jti db.user_sessions[jti]? := by
  induction pending generalizing db with
  | nil => rfl
  | cons w ws ih => exact (ih (db.apply w)).trans (by rw [apply_session]; rfl)

@[simp] theorem rowAfter_concat (pending : List Write) (w : Write) (jti : Text)
    (row : Option UserSession) :
    rowAfter (pending ++ [w]) jti row = w.onSession jti (rowAfter pending jti row) := by
  simp [rowAfter]

/-- One row later: the same session, which is not alive again once revoked. -/
structure Kept (old new : UserSession) : Prop where
  user : new.user_id = old.user_id
  family : new.family_id = old.family_id
  revoked : new.revoked_at = none → old.revoked_at = none

theorem Kept.refl (r : UserSession) : Kept r r := ⟨rfl, rfl, id⟩

theorem Kept.trans {a b c : UserSession} (first : Kept a b) (second : Kept b c) : Kept a c :=
  ⟨second.user.trans first.user, second.family.trans first.family,
    first.revoked ∘ second.revoked⟩

theorem Kept.covers {old new : UserSession} (kept : Kept old new) (scope : Scope) :
    scope.covers new = scope.covers old := by
  cases scope with
  | family id => simp only [Scope.covers, kept.family]
  | user id => simp only [Scope.covers, kept.user]

theorem Kept.live {old new : UserSession} (kept : Kept old new) {scope : Scope}
    (h : scope.live new = true) : scope.live old = true := by
  simp only [Scope.live, Bool.and_eq_true, Option.isNone_iff_eq_none, kept.covers] at h ⊢
  exact ⟨h.1, kept.revoked h.2⟩

theorem Kept.still_live {old new : UserSession} (kept : Kept old new) {scope : Scope}
    (h : scope.live old = true) (alive : new.revoked_at = none) : scope.live new = true := by
  simp only [Scope.live, Bool.and_eq_true, kept.covers] at h ⊢
  exact ⟨h.1, by simp [alive]⟩

def Write.adds (jti : Text) : Write → Bool
  | .addSession key _ => key == jti
  | _ => false

/-- A new session of the scope -/
def Write.extends (scope : Scope) : Write → Bool
  | .addSession _ record => scope.covers record
  | _ => false

def Write.touches (jti : Text) : Write → Bool
  | .revoke key _ _ | .rotate key _ _ | .addSession key _ => key == jti
  | _ => false

theorem onSession_kept {w : Write} {jti : Text} (old : w.adds jti = false) (r : UserSession) :
    ∃ r', w.onSession jti (some r) = some r' ∧ Kept r r' := by
  cases w with
  | revoke key at_ reason =>
      by_cases same : key = jti
      · exact ⟨r.revoke at_ reason, by simp [Write.onSession, same], rfl, rfl, nofun⟩
      · exact ⟨r, by simp [Write.onSession, same], .refl r⟩
  | rotate key now next =>
      by_cases same : key = jti
      · exact ⟨r.rotate now next, by simp [Write.onSession, same], rfl, rfl, nofun⟩
      · exact ⟨r, by simp [Write.onSession, same], .refl r⟩
  | addSession key record =>
      have other : key ≠ jti := by simpa [Write.adds] using old
      exact ⟨r, by simp [Write.onSession, other], .refl r⟩
  | setPassword | addToken | useToken | invalidateToken | audit => exact ⟨r, rfl, .refl r⟩

theorem rowAfter_kept {pending : List Write} {jti : Text}
    (old : ∀ w ∈ pending, w.adds jti = false) (r : UserSession) :
    ∃ r', rowAfter pending jti (some r) = some r' ∧ Kept r r' := by
  induction pending generalizing r with
  | nil => exact ⟨r, rfl, .refl r⟩
  | cons w ws ih =>
      obtain ⟨mid, here, first⟩ := onSession_kept (old w (by simp)) r
      obtain ⟨r', there, second⟩ := ih (fun w' mem => old w' (by simp [mem])) mid
      exact ⟨r', by rw [← there, ← here]; rfl, first.trans second⟩

theorem onSession_untouched {w : Write} {jti : Text} (away : w.touches jti = false)
    (row : Option UserSession) : w.onSession jti row = row := by
  cases w <;> simp_all [Write.onSession, Write.touches]

theorem rowAfter_untouched {pending : List Write} {jti : Text}
    (away : ∀ w ∈ pending, w.touches jti = false) (row : Option UserSession) :
    rowAfter pending jti row = row := by
  induction pending generalizing row with
  | nil => rfl
  | cons w ws ih =>
      have rest := ih (fun w' mem => away w' (by simp [mem])) (w.onSession jti row)
      exact rest.trans (onSession_untouched (away w (by simp)) row)

/-- A row that was not there is one that some write has added. -/
theorem rowAfter_new {pending : List Write} {jti : Text} {r : UserSession}
    (h : rowAfter pending jti none = some r) :
    ∃ record, .addSession jti record ∈ pending ∧ Kept record r := by
  induction pending using List.reverseRecOn generalizing r with
  | nil => cases h
  | append_singleton ws w ih =>
      rw [rowAfter_concat] at h
      by_cases adds : w.adds jti = true
      · cases w with
        | addSession key record =>
            have same : key = jti := by simpa [Write.adds] using adds
            subst same
            have whole : record = r := by simpa [Write.onSession] using h
            exact ⟨record, by simp, whole ▸ .refl record⟩
        | revoke | rotate | setPassword | addToken | useToken | invalidateToken | audit => cases adds
      · have old : w.adds jti = false := Bool.eq_false_iff.mpr adds
        cases before : rowAfter ws jti none with
        | none =>
            rw [before] at h
            cases w with
            | addSession key record =>
                have other : key ≠ jti := by simpa [Write.adds] using old
                simp [Write.onSession, other] at h
            | revoke | rotate => simp [Write.onSession] at h
            | setPassword | addToken | useToken | invalidateToken | audit => cases h
        | some mid =>
            obtain ⟨record, mem, first⟩ := ih before
            obtain ⟨r', here, second⟩ := onSession_kept old mid
            rw [before, here, Option.some.injEq] at h
            exact ⟨record, by simp [mem], h ▸ first.trans second⟩

/-! ## What others may do -/

/-- A lock under which the session may be written, by its holder alone. -/
def Holding (held : Held Resource) (jti : Text) : Prop :=
  (.session jti, .noKeyUpdate) ∈ held ∨ (.session jti, .update) ∈ held

theorem Holding.more {held : Held Resource} {jti : Text} (h : Holding held jti)
    (lock : Resource × LockMode) : Holding (lock :: held) jti :=
  h.imp (List.mem_cons_of_mem _) (List.mem_cons_of_mem _)

/-- Every live session of the scope is locked. -/
def Closed (scope : Scope) (held : Held Resource) (db : Db) : Prop :=
  ∀ (jti : Text) (r : UserSession), db.user_sessions[jti]? = some r → scope.live r = true →
    Holding held jti

/-- No session of the scope has come to life. -/
def NoNew (scope : Scope) (db db' : Db) : Prop :=
  ∀ (jti : Text) (r' : UserSession), db'.user_sessions[jti]? = some r' → scope.live r' = true →
    ∃ r, db.user_sessions[jti]? = some r ∧ scope.live r = true

theorem NoNew.refl (scope : Scope) (db : Db) : NoNew scope db db := fun _ r h live => ⟨r, h, live⟩

theorem NoNew.trans {scope : Scope} {a b c : Db} (first : NoNew scope a b)
    (second : NoNew scope b c) : NoNew scope a c := by
  intro jti r'' there live
  obtain ⟨r', between, live'⟩ := second jti r'' there live
  exact first jti r' between live'

structure Others (held : Held Resource) (db db' : Db) : Prop where
  kept : ∀ (jti : Text) (r : UserSession), db.user_sessions[jti]? = some r →
    ∃ r', db'.user_sessions[jti]? = some r' ∧ Kept r r'
  locked : ∀ jti, Holding held jti → db'.user_sessions[jti]? = db.user_sessions[jti]?
  closed : ∀ scope, Closed scope held db → Closed scope held db'
  userLocked : ∀ id, (.user id, .update) ∈ held → NoNew (.user id) db db'

theorem Others.refl (held : Held Resource) (db : Db) : Others held db db where
  kept _ r h := ⟨r, h, .refl r⟩
  locked _ _ := rfl
  closed _ h := h
  userLocked _ _ := .refl _ db

theorem Others.trans {held : Held Resource} {a b c : Db} (first : Others held a b)
    (second : Others held b c) : Others held a c where
  kept jti r h := by
    obtain ⟨r', h', before⟩ := first.kept jti r h
    obtain ⟨r'', h'', later⟩ := second.kept jti r' h'
    exact ⟨r'', h'', before.trans later⟩
  locked jti mine := (second.locked jti mine).trans (first.locked jti mine)
  closed scope h := second.closed scope (first.closed scope h)
  userLocked id mine := (first.userLocked id mine).trans (second.userLocked id mine)

/-- What a call relies on: `guarded` tells before which statements no session of the
    scope may come to life. -/
def relyOn (scope : Scope) (guarded : Option Statement → Prop) : Rely Db Resource Statement where
  allows q held db db' := Others held db db' ∧ (guarded q → NoNew scope db db')
  refl _ held db := ⟨.refl held db, fun _ => .refl scope db⟩
  trans first second := ⟨first.1.trans second.1, fun g => (first.2 g).trans (second.2 g)⟩

/-! ## What a commit does -/

/-- The grounds on which a transaction makes a write. -/
def Lawful (db : Db) (held : Held Resource) : Write → Prop
  | .revoke jti _ _ | .rotate jti _ _ => Holding held jti
  | .addSession jti record =>
      Holding held jti ∧ db.user_sessions[jti]? = none ∧
        (.user record.user_id, .keyShare) ∈ held ∧
        ∃ parent old, Holding held parent ∧ db.user_sessions[parent]? = some old ∧
          old.revoked_at = none ∧ record.user_id = old.user_id ∧ record.family_id = old.family_id
  | _ => True

theorem Lawful.holding {db : Db} {held : Held Resource} {w : Write} (h : Lawful db held w)
    {jti : Text} (touched : w.touches jti = true) : Holding held jti := by
  cases w with
  | revoke key | rotate key =>
      have same : key = jti := by simpa [Write.touches] using touched
      exact same ▸ h
  | addSession key record =>
      have same : key = jti := by simpa [Write.touches] using touched
      exact same ▸ h.1
  | setPassword | addToken | useToken | invalidateToken | audit => cases touched

def Compatible (held held' : Held Resource) : Prop :=
  ∀ r m m', (r, m) ∈ held → (r, m') ∈ held' → m.conflicts m' = false

theorem compatible_nil (held : Held Resource) : Compatible held [] :=
  fun _ _ _ _ none => absurd none List.not_mem_nil

theorem Compatible.holding {held held' : Held Resource} (apart : Compatible held held') {jti : Text}
    (mine : Holding held jti) (other : Holding held' jti) : False := by
  rcases mine with here | here <;> rcases other with there | there
  all_goals cases apart _ _ _ here there

/-- A row that a commit brings to life has a live parent that the committer holds. -/
theorem new_row_parent {db : Db} {pending : List Write} {held : Held Resource}
    (lawful : ∀ w ∈ pending, Lawful db held w) {jti : Text} {r : UserSession}
    (absent : db.user_sessions[jti]? = none)
    (there : (view Db.apply db pending).user_sessions[jti]? = some r) {scope : Scope}
    (live : scope.live r = true) :
    ∃ record, .addSession jti record ∈ pending ∧ scope.live record = true ∧
      (.user record.user_id, .keyShare) ∈ held ∧ ∃ parent old, Holding held parent ∧
        db.user_sessions[parent]? = some old ∧ scope.live old = true := by
  rw [view_session, absent] at there
  obtain ⟨record, added, kept⟩ := rowAfter_new there
  obtain ⟨-, -, referred, parent, old, mine, before, alive, user, family⟩ := lawful _ added
  have liveRecord := kept.live live
  refine ⟨record, added, liveRecord, referred, parent, old, mine, before, ?_⟩
  exact Kept.live ⟨user, family, fun _ => alive⟩ liveRecord

theorem commit_kept {db : Db} {pending : List Write} {held : Held Resource}
    (lawful : ∀ w ∈ pending, Lawful db held w) {jti : Text} {r : UserSession}
    (here : db.user_sessions[jti]? = some r) :
    ∃ r', (view Db.apply db pending).user_sessions[jti]? = some r' ∧ Kept r r' := by
  rw [view_session, here]
  refine rowAfter_kept (fun w mem => ?_) r
  cases w with
  | addSession key record =>
      obtain ⟨-, absent, -⟩ := lawful _ mem
      refine Bool.eq_false_iff.mpr fun same => ?_
      rw [show key = jti by simpa [Write.adds] using same, here] at absent
      cases absent
  | revoke | rotate | setPassword | addToken | useToken | invalidateToken | audit => rfl

/-- A lawful commit leaves what a transaction with compatible locks relies on. -/
theorem commit_others {db : Db} {pending : List Write} {held held' : Held Resource}
    (lawful : ∀ w ∈ pending, Lawful db held w) (apart : Compatible held held') :
    Others held' db (view Db.apply db pending) where
  kept jti r here := commit_kept lawful here
  locked jti theirs := by
    rw [view_session]
    refine rowAfter_untouched (fun w mem => Bool.eq_false_iff.mpr fun touched => ?_) _
    exact apart.holding ((lawful w mem).holding touched) theirs
  closed scope closed jti r' there live := by
    cases here : db.user_sessions[jti]? with
    | some r =>
        obtain ⟨r'', there', kept⟩ := commit_kept lawful here
        rw [there, Option.some.injEq] at there'
        exact closed jti r here (kept.live (there' ▸ live))
    | none =>
        obtain ⟨-, -, -, -, parent, old, mine, before, alive⟩ :=
          new_row_parent lawful here there live
        exact (apart.holding mine (closed parent old before alive)).elim
  userLocked id theirs jti r' there live := by
    cases here : db.user_sessions[jti]? with
    | some r =>
        obtain ⟨r'', there', kept⟩ := commit_kept lawful here
        rw [there, Option.some.injEq] at there'
        exact ⟨r, rfl, kept.live (there' ▸ live)⟩
    | none =>
        obtain ⟨record, -, alive, referred, -⟩ := new_row_parent lawful here there live
        have same : record.user_id = id := by
          simp only [Scope.live, Scope.covers, Bool.and_eq_true, beq_iff_eq] at alive
          exact alive.1
        have calm := apart _ _ _ referred (same ▸ theirs)
        cases calm

/-- A commit that adds no session of the scope brings none to life. -/
theorem commit_noNew {db : Db} {pending : List Write} {held : Held Resource}
    (lawful : ∀ w ∈ pending, Lawful db held w) {scope : Scope}
    (none_added : ∀ jti record, .addSession jti record ∈ pending → scope.covers record = false) :
    NoNew scope db (view Db.apply db pending) := by
  intro jti r' there live
  cases here : db.user_sessions[jti]? with
  | some r =>
      obtain ⟨r'', there', kept⟩ := commit_kept lawful here
      rw [there, Option.some.injEq] at there'
      exact ⟨r, rfl, kept.live (there' ▸ live)⟩
  | none =>
      obtain ⟨record, added, alive, -⟩ := new_row_parent lawful here there live
      simp [Scope.live, none_added jti record added] at alive

/-! ## The UPDATE of a revocation -/

/-- A write to sessions that the transaction holds, and no new session. -/
def Tame (held : Held Resource) : Write → Prop
  | .revoke jti _ _ | .rotate jti _ _ => Holding held jti
  | .addSession _ _ => False
  | _ => True

theorem Tame.more {held : Held Resource} {w : Write} (h : Tame held w)
    (lock : Resource × LockMode) : Tame (lock :: held) w := by
  cases w with
  | revoke | rotate => exact Holding.more h lock
  | addSession => exact h
  | setPassword | addToken | useToken | invalidateToken | audit => trivial

theorem Tame.lawful {held : Held Resource} {w : Write} (h : Tame held w) (db : Db) :
    Lawful db held w := by
  cases w with
  | revoke | rotate => exact h
  | addSession => exact h.elim
  | setPassword | addToken | useToken | invalidateToken | audit => trivial

abbrev AllTame (pending : List Write) (held : Held Resource) : Prop :=
  ∀ w ∈ pending, Tame held w

theorem allTame_nil (held : Held Resource) : AllTame [] held := nofun

/-- A write that is not about sessions needs no lock on one. -/
theorem Tame.aside {held : Held Resource} {w : Write} (away : ∀ jti, w.touches jti = false) :
    Tame held w := by
  cases w with
  | revoke key | rotate key | addSession key => simpa [Write.touches] using away key
  | setPassword | addToken | useToken | invalidateToken | audit => trivial

theorem AllTame.concat {pending : List Write} {held : Held Resource} (h : AllTame pending held)
    {w : Write} (last : Tame held w) : AllTame (pending ++ [w]) held := by
  intro w' mem
  rcases List.mem_append.mp mem with old | new
  · exact h w' old
  · exact List.mem_singleton.mp new ▸ last

theorem AllTame.more {pending : List Write} {held : Held Resource} (h : AllTame pending held)
    (lock : Resource × LockMode) : AllTame pending (lock :: held) :=
  fun w mem => (h w mem).more lock

theorem AllTame.kept {pending : List Write} {held : Held Resource} (h : AllTame pending held)
    (jti : Text) (r : UserSession) : ∃ r', rowAfter pending jti (some r) = some r' ∧ Kept r r' := by
  refine rowAfter_kept (fun w mem => ?_) r
  cases w with
  | addSession => exact (h _ mem).elim
  | revoke | rotate | setPassword | addToken | useToken | invalidateToken | audit => rfl

/-- How far the UPDATE has got: every live session of the scope is still to come, or
    it is locked and revoked by now. -/
def Progress (scope : Scope) (keys : List Text) (db : Db) (pending : List Write)
    (held : Held Resource) : Prop :=
  ∀ (jti : Text) (r : UserSession), db.user_sessions[jti]? = some r → scope.live r = true →
    jti ∈ keys ∨ Holding held jti ∧
      ∃ r', rowAfter pending jti (some r) = some r' ∧ r'.revoked_at ≠ none

section

variable {scope : Scope} {keys : List Text} {db db' : Db} {pending : List Write}
  {held : Held Resource}

theorem Progress.closed_held (h : Progress scope [] db pending held) : Closed scope held db := by
  intro jti r here live
  rcases h jti r here live with mem | ⟨mine, -⟩
  · cases mem
  · exact mine

theorem Progress.settled (h : Progress scope [] db pending held) (others : Others held db db') :
    Progress scope [] db' pending held := by
  intro jti r there live
  have mine := others.closed scope h.closed_held jti r there live
  exact h jti r (others.locked jti mine ▸ there) live

theorem Progress.under (h : Progress scope keys db pending held) (others : Others held db db')
    (noNew : NoNew scope db db') : Progress scope keys db' pending held := by
  intro jti r there live
  obtain ⟨old, here, alive⟩ := noNew jti r there live
  rcases h jti old here alive with mem | ⟨mine, -⟩
  · exact .inl mem
  · exact h jti r (others.locked jti mine ▸ there) live

theorem Progress.more (h : Progress scope keys db pending held) (lock : Resource × LockMode) :
    Progress scope keys db pending (lock :: held) :=
  fun jti r here live => (h jti r here live).imp_right fun ⟨mine, rest⟩ => ⟨mine.more lock, rest⟩

/-- A write that is not about sessions. -/
theorem Progress.aside (h : Progress scope keys db pending held) {w : Write}
    (away : ∀ jti, w.touches jti = false) : Progress scope keys db (pending ++ [w]) held := by
  intro jti r here live
  refine (h jti r here live).imp_right fun ⟨mine, r', there, revoked⟩ => ⟨mine, r', ?_, revoked⟩
  rw [rowAfter_concat, onSession_untouched (away jti), there]

/-- One row of the UPDATE is done. -/
theorem Progress.revoked {key : Text} (h : Progress scope (key :: keys) db pending held)
    (tame : AllTame pending held) (mine : Holding held key) (revoked_at : Time)
    (reason : RevocationReason) :
    Progress scope keys db (pending ++ [.revoke key revoked_at reason]) held := by
  intro jti r here live
  rw [rowAfter_concat]
  by_cases same : key = jti
  · subst same
    obtain ⟨r', there, -⟩ := tame.kept key r
    exact .inr ⟨mine, r'.revoke revoked_at reason, by simp [there, Write.onSession], nofun⟩
  · rcases h jti r here live with mem | ⟨mine', r', there, revoked⟩
    · rcases List.mem_cons.mp mem with rfl | rest
      · exact absurd rfl same
      · exact .inl rest
    · exact .inr ⟨mine', r', by simp [there, Write.onSession, same], revoked⟩

/-- One row of the UPDATE no longer matches. -/
theorem Progress.skipped {key : Text} (h : Progress scope (key :: keys) db pending held)
    (tame : AllTame pending held) (mine : Holding held key)
    (dead : (view Db.apply db pending).liveAt scope key = false) :
    Progress scope keys db pending held := by
  intro jti r here live
  by_cases same : key = jti
  · subst same
    obtain ⟨r', there, kept⟩ := tame.kept key r
    refine .inr ⟨mine, r', there, fun alive => ?_⟩
    rw [Db.liveAt, view_session, here, there, Option.any_some] at dead
    rw [kept.still_live live alive] at dead
    cases dead
  · exact (h jti r here live).imp_left fun mem => (List.mem_cons.mp mem).resolve_left (Ne.symm same)

/-- At its snapshot the UPDATE knows every live session. -/
theorem Progress.snapshot (tame : AllTame pending held) :
    Progress scope (Table.keysWhere (view Db.apply db pending).user_sessions
      fun _ record => scope.live record) db pending held := by
  intro jti r here live
  rw [Table.mem_keysWhere, view_session, here]
  by_cases touched : ∃ w ∈ pending, w.touches jti = true
  · obtain ⟨w, mem, touches⟩ := touched
    obtain ⟨r', there, kept⟩ := tame.kept jti r
    by_cases alive : r'.revoked_at = none
    · exact .inl ⟨r', there, kept.still_live live alive⟩
    · exact .inr ⟨((tame w mem).lawful db).holding touches, r', there, alive⟩
  · refine .inl ⟨r, rowAfter_untouched (fun w mem => ?_) _, live⟩
    exact Bool.eq_false_iff.mpr fun touches => touched ⟨w, mem, touches⟩

/-- What the UPDATE leaves when its transaction commits. -/
theorem Progress.closed (h : Progress scope [] db pending held) (tame : AllTame pending held) :
    Closed scope [] (view Db.apply db pending) := by
  intro jti r' there live
  rw [view_session] at there
  cases here : db.user_sessions[jti]? with
  | none =>
      rw [here] at there
      obtain ⟨record, added, -⟩ := rowAfter_new there
      exact (tame _ added).elim
  | some r =>
      rw [here] at there
      obtain ⟨r'', there', kept⟩ := tame.kept jti r
      rw [there, Option.some.injEq] at there'
      subst there'
      rcases h jti r here (kept.live live) with mem | ⟨-, r'', there', revoked⟩
      · cases mem
      · rw [there, Option.some.injEq] at there'
        subst there'
        simp [Scope.live, revoked] at live

end

/-! ## The operations among others -/

section

variable (scope : Scope) (guarded : Option Statement → Prop) (wanted : Prop)

/-- What a call that commits has seen to: it writes on lawful grounds and, if it is the
    wanted one and has revoked the scope, leaves nothing of the scope alive. -/
def ends : Post Db Resource Write Refusal Outcome
  | .ok o, db, pending, held =>
      (∀ w ∈ pending, Lawful db held w) ∧
        (wanted → o.scope = some scope → Closed scope [] (view Db.apply db pending))
  | .error _, _, _, _ => True

/-- No session of the scope comes to life while the UPDATE goes through its rows. -/
def Shielded (held : Held Resource) : Prop :=
  guarded (some .updateSessionRow) ∨ ∃ id, scope = .user id ∧ (.user id, .update) ∈ held

end

variable {scope : Scope} {guarded : Option Statement → Prop} {wanted : Prop}

theorem Shielded.more {held : Held Resource} (h : Shielded scope guarded held)
    (lock : Resource × LockMode) : Shielded scope guarded (lock :: held) :=
  h.imp_right fun ⟨id, same, mine⟩ => ⟨id, same, List.mem_cons_of_mem _ mine⟩

theorem Shielded.noNew {held : Held Resource} (h : Shielded scope guarded held) {db db' : Db}
    (allowed : (relyOn scope guarded).allows (some .updateSessionRow) held db db') :
    NoNew scope db db' := by
  rcases h with guard | ⟨id, rfl, mine⟩
  · exact allowed.2 guard
  · exact allowed.1.userLocked id mine

/-- After the UPDATE on the sessions of `target`; `aim` says that it is about the scope. -/
def Revoked (scope : Scope) (aim : Prop) (db : Db) (pending : List Write)
    (held : Held Resource) : Prop :=
  AllTame pending held ∧ (aim → Progress scope [] db pending held)

theorem updateSessionRows_holds {target : Scope} {aim : Prop} (same : aim → target = scope)
    (revoked_at : Time) (reason : RevocationReason) (keys : List Text) {db : Db}
    {pending : List Write} {held : Held Resource} (tame : AllTame pending held)
    (shield : aim → Shielded scope guarded held)
    (progress : aim → Progress scope keys db pending held) :
    Holds Db.apply (relyOn scope guarded) (fun result db pending held => match result with
        | .ok () => Revoked scope aim db pending held
        | .error _ => True)
      (updateRows .updateSessionRow .session (fun db jti => db.liveAt target jti)
        (fun jti => .revoke jti revoked_at reason) keys) db pending held := by
  induction keys generalizing db pending held with
  | nil => exact .return fun db' allowed => ⟨tame, fun h => (progress h).settled allowed.1⟩
  | cons key rest ih =>
      refine .acquire fun db₁ allowed₁ => .query fun db₂ allowed₂ => ?_
      have tame' : AllTame pending ((.session key, .noKeyUpdate) :: held) := tame.more _
      have shield' := fun h => (shield h).more (.session key, .noKeyUpdate)
      have progress' : aim →
          Progress scope (key :: rest) db₂ pending ((.session key, .noKeyUpdate) :: held) :=
        fun h => (((progress h).under allowed₁.1 ((shield h).noNew allowed₁)).more _).under
          allowed₂.1 ((shield' h).noNew allowed₂)
      have mine : Holding ((.session key, .noKeyUpdate) :: held) key := .inl (by simp)
      split
      · refine .put fun db₃ allowed₃ => ih (tame'.concat mine) shield' fun h => ?_
        exact ((progress' h).under allowed₃.1 ((shield' h).noNew allowed₃)).revoked tame' mine _ _
      · rename_i dead
        refine ih tame' shield' fun h => (progress' h).skipped tame' mine ?_
        rw [← same h]
        exact Bool.eq_false_iff.mpr dead

theorem updateSessions_holds {target : Scope} (aim : Prop) (same : aim → target = scope)
    {revoked_at : Time} {reason : RevocationReason} {f : Unit → Program Outcome} {db : Db}
    {pending : List Write} {held : Held Resource} (tame : AllTame pending held)
    (shield : aim → Shielded scope guarded held)
    (rest : ∀ db pending held, Revoked scope aim db pending held →
      Holds Db.apply (relyOn scope guarded) (ends scope wanted) (f ()) db pending held) :
    Holds Db.apply (relyOn scope guarded) (ends scope wanted)
      ((updateSessions target revoked_at reason).bind f) db pending held := by
  refine .bind ?_
  refine .query fun db' _ => ?_
  refine (updateSessionRows_holds same revoked_at reason _ tame shield fun h => ?_).mono ?_
  · rw [same h]
    exact .snapshot tame
  · intro result db pending held revoked
    cases result with
    | ok => exact rest db pending held revoked
    | error => trivial

/-- A call that commits after its UPDATE. -/
theorem Revoked.return {aim : Prop} {o : Outcome} {db : Db} {pending : List Write}
    {held : Held Resource} (h : Revoked scope aim db pending held)
    (about : wanted → o.scope = some scope → aim) :
    Holds Db.apply (relyOn scope guarded) (ends scope wanted) (.done o) db pending held :=
  .return fun db' allowed => ⟨fun w mem => (h.1 w mem).lawful db',
    fun want whole => ((h.2 (about want whole)).settled allowed.1).closed h.1⟩

theorem holding_beside_user {held : Held Resource} {id : UserId} {m : LockMode} {jti : Text} :
    Holding ((.user id, m) :: held) jti ↔ Holding held jti := by
  simp [Holding]

/-- A lock on a user that a row refers to changes nothing for sessions. -/
theorem Others.beside_reference {held : Held Resource} {id : UserId} {db db' : Db}
    (h : Others ((.user id, .keyShare) :: held) db db') : Others held db db' where
  kept := h.kept
  locked jti mine := h.locked jti (holding_beside_user.mpr mine)
  closed scope closed jti r there live :=
    holding_beside_user.mp (h.closed scope
      (fun jti r here alive => holding_beside_user.mpr (closed jti r here alive)) jti r there live)
  userLocked other mine := h.userLocked other (List.mem_cons_of_mem _ mine)

theorem referUser_holds {user_id : UserId} {f : Unit → Program Outcome} {db : Db}
    {pending : List Write} {held : Held Resource}
    (rest : ∀ db', Others held db db' →
      Holds Db.apply (relyOn scope guarded) (ends scope wanted) (f ()) db' pending
        ((.user user_id, .keyShare) :: held)) :
    Holds Db.apply (relyOn scope guarded) (ends scope wanted) ((referUser user_id).bind f) db
      pending held := by
  refine .bind (.acquire fun db₁ allowed₁ => .query fun db₂ allowed₂ => ?_)
  split
  · refine .return fun db₃ allowed₃ => rest db₃ ?_
    exact (allowed₁.1.trans allowed₂.1.beside_reference).trans allowed₃.1.beside_reference
  · exact .fail fun _ _ => trivial

theorem selectForUpdate_holds {ν : Type} {q : Statement} {r : Resource} {row : Db → Option ν}
    {f : Option ν → Program Outcome} {db : Db} {pending : List Write} {held : Held Resource}
    (absent : ∀ db, Holds Db.apply (relyOn scope guarded) (ends scope wanted) (f none) db pending
      held)
    (locked : ∀ db, Holds Db.apply (relyOn scope guarded) (ends scope wanted)
      (f (row (view Db.apply db pending))) db pending ((r, .update) :: held)) :
    Holds Db.apply (relyOn scope guarded) (ends scope wanted)
      ((selectForUpdate q r row).bind f) db pending held := by
  intro db₁ _
  simp only [Tx.bind]
  split
  · exact absent db₁
  · exact fun db₂ _ db₃ _ => locked db₃

theorem error_holds {e : Refusal} {db : Db} {pending : List Write} {held : Held Resource} :
    Holds Db.apply (relyOn scope guarded) (ends scope wanted) (.raise e) db pending held :=
  .fail fun _ _ => trivial

/-- A commit that revokes no scope. -/
theorem ends_without_scope {o : Outcome} {db : Db} {pending : List Write} {held : Held Resource}
    (none_revoked : o.scope = none)
    (lawful : ∀ db', Others held db db' → ∀ w ∈ pending, Lawful db' held w) :
    Holds Db.apply (relyOn scope guarded) (ends scope wanted) (.done o) db pending held :=
  .return fun db' allowed => ⟨lawful db' allowed.1, fun _ whole => by
    rw [none_revoked] at whole
    cases whole⟩

theorem revokeAndFail_holds {family_id : FamilyId} {now : Time} {error : AuthError} {db : Db}
    {pending : List Write} {held : Held Resource} (tame : AllTame pending held)
    (shield : wanted → Shielded scope guarded held) :
    Holds Db.apply (relyOn scope guarded) (ends scope wanted) (revokeAndFail family_id now error)
      db pending held := by
  refine updateSessions_holds (wanted ∧ .family family_id = scope) (fun h => h.2) tame
    (fun h => shield h.1) fun db pending held revoked => ?_
  exact revoked.return fun want whole => ⟨want, Option.some.inj whole⟩

/-- The record that is about to be rotated: locked and alive. -/
structure Rotating (db : Db) (held : Held Resource) (jti : Text) (record : UserSession) : Prop where
  mine : Holding held jti
  here : db.user_sessions[jti]? = some record
  alive : record.revoked_at = none

theorem Rotating.later {db db' : Db} {held : Held Resource} {jti : Text} {record : UserSession}
    (h : Rotating db held jti record) (others : Others held db db') :
    Rotating db' held jti record :=
  ⟨h.mine, (others.locked jti h.mine).trans h.here, h.alive⟩

theorem Rotating.more {db : Db} {held : Held Resource} {jti : Text} {record : UserSession}
    (h : Rotating db held jti record) (lock : Resource × LockMode) :
    Rotating db (lock :: held) jti record :=
  ⟨h.mine.more lock, h.here, h.alive⟩

theorem rotateSession_holds {jti : Text} {record : UserSession} {now : Time} {next : NextToken}
    {db : Db} {held : Held Resource} (rotating : Rotating db held jti record) :
    Holds Db.apply (relyOn scope guarded) (ends scope wanted) (rotateSession jti record now next)
      db [] held := by
  refine .acquire fun db₁ allowed₁ => .put fun db₂ allowed₂ =>
    .insertNew (fun _ _ _ => error_holds) fun db₃ allowed₃ fresh => ?_
  have rotating₃ := ((((rotating.later allowed₁.1).more
    (.session jti, .noKeyUpdate)).later allowed₂.1).later allowed₃.1).more
      (.session next.jti, .update)
  -- the key of the successor is free, and stays so under the insert's own lock
  have free : db₃.user_sessions[next.jti]? = none := by
    rw [Table.contains_eq, view_session] at fresh
    cases before : db₃.user_sessions[next.jti]? with
    | none => rfl
    | some r =>
        have tame : AllTame [.rotate jti now next.jti] ((.session jti, .noKeyUpdate) :: held) := by
          intro w mem
          rw [List.mem_singleton.mp mem]
          exact .inl (by simp)
        obtain ⟨r', there, -⟩ := tame.kept next.jti r
        simp only [List.nil_append, before, there] at fresh
        cases fresh
  have own : Holding ((.session next.jti, .update) :: (.session jti, .noKeyUpdate) :: held)
      next.jti := .inr (by simp)
  refine referUser_holds fun db₄ others₄ => ?_
  refine ends_without_scope rfl fun db₅ others₅ w mem => ?_
  have others : Others _ db₃ db₅ := others₄.trans others₅.beside_reference
  have rotating₅ := (rotating₃.later others).more (.user record.user_id, .keyShare)
  simp only [List.nil_append, List.mem_append, List.mem_singleton] at mem
  rcases mem with rfl | rfl
  · exact rotating₅.mine
  · exact ⟨own.more _, (others.locked next.jti own).trans free, by simp, jti, record,
      rotating₅.mine, rotating₅.here, rotating₅.alive, rfl, rfl⟩

section

variable (env : Environment)

theorem refreshRecord_holds {payload : Payload} {refresh_token : Text} {now : Time}
    {next : NextToken} {record : UserSession} {db : Db} {held : Held Resource}
    (mine : Holding held payload.jti) (here : db.user_sessions[payload.jti]? = some record)
    (shield : wanted → ∀ held, Shielded scope guarded held) :
    Holds Db.apply (relyOn scope guarded) (ends scope wanted)
      (refreshRecord env payload refresh_token now next record) db [] held := by
  have untouched := allTame_nil held
  unfold refreshRecord
  split
  · exact error_holds
  · split
    · split
      · exact error_holds
      · -- reuse of a rotated token: the family is revoked, an audit row is written
        refine updateSessions_holds (wanted ∧ .family record.family_id = scope) (fun h => h.2)
          untouched (fun h => shield h.1 held) fun db pending held revoked => ?_
        refine .put fun db₁ allowed₁ => referUser_holds fun db₂ others₂ => ?_
        have ended : Revoked scope (wanted ∧ .family record.family_id = scope) db₂
            (pending ++ [.audit ⟨record.user_id, "REFRESH_TOKEN_REUSE_DETECTED"⟩])
            ((.user record.user_id, .keyShare) :: held) := by
          refine ⟨(revoked.1.concat (.aside fun _ => rfl)).more _, fun h => ?_⟩
          exact ((((revoked.2 h).settled allowed₁.1).aside fun _ => rfl).settled others₂).more _
        exact ended.return fun want whole => ⟨want, Option.some.inj whole⟩
    · split
      · exact error_holds
      · rename_i alive
        split
        · refine .acquire fun db₁ _ => .put fun db₂ _ => ?_
          refine ends_without_scope rfl fun db₃ _ w mem => ?_
          rw [List.mem_singleton.mp mem]
          exact .inl (by simp)
        · refine .query fun db₁ allowed₁ => ?_
          have rotating : Rotating db held payload.jti record :=
            ⟨mine, here, by simpa using alive⟩
          split
          · exact revokeAndFail_holds untouched fun want => shield want held
          · split
            · exact rotateSession_holds (rotating.later allowed₁.1)
            · exact revokeAndFail_holds untouched fun want => shield want held

theorem refresh_session_holds {refresh_token : Text} {now : Time} {next : NextToken} {db : Db}
    (shield : wanted → ∀ held, Shielded scope guarded held) :
    Holds Db.apply (relyOn scope guarded) (ends scope wanted)
      (refresh_session env refresh_token now next) db [] [] := by
  unfold refresh_session
  split
  · exact error_holds
  · exact error_holds
  · rename_i payload _
    split
    · exact error_holds
    · refine selectForUpdate_holds (fun db => error_holds) fun db => ?_
      rw [view_nil]
      split
      · exact error_holds
      · exact refreshRecord_holds env (.inr (by simp)) ‹_› shield

theorem revoke_current_session_holds {refresh_token : Option Text} {now : Time} {db : Db}
    (shield : wanted → ∀ held, Shielded scope guarded held) :
    Holds Db.apply (relyOn scope guarded) (ends scope wanted)
      (revoke_current_session env refresh_token now) db [] [] := by
  have nothing : ∀ {db}, Holds Db.apply (relyOn scope guarded) (ends scope wanted)
      (.done .nothing) db [] [] := ends_without_scope rfl fun _ _ => nofun
  unfold revoke_current_session
  split
  · exact nothing
  · split
    · exact nothing
    · refine .query fun db₁ _ => ?_
      split
      · exact nothing
      · rename_i record _
        refine updateSessions_holds (wanted ∧ .family record.family_id = scope) (fun h => h.2)
          (allTame_nil _) (fun h => shield h.1 []) fun db pending held revoked => ?_
        exact revoked.return fun want whole => ⟨want, Option.some.inj whole⟩

theorem revoke_all_holds {user_id : UserId} {now : Time} {reason : RevocationReason} {db : Db}
    {pending : List Write} {held : Held Resource} (tame : AllTame pending held)
    (shield : wanted → .user user_id = scope → Shielded scope guarded held) :
    Holds Db.apply (relyOn scope guarded) (ends scope wanted)
      ((revoke_all_sessions user_id now reason).bind fun _ => .done (.revoked (.user user_id)))
      db pending held := by
  refine updateSessions_holds (wanted ∧ .user user_id = scope) (fun h => h.2) tame
    (fun h => shield h.1 h.2) fun db pending held revoked => ?_
  exact revoked.return fun want whole => ⟨want, Option.some.inj whole⟩

theorem change_password_holds {user_id : UserId} {current_password new_password : Text} {now : Time}
    {db : Db} (shield : wanted → ∀ held, Shielded scope guarded held) :
    Holds Db.apply (relyOn scope guarded) (ends scope wanted)
      (change_password env user_id current_password new_password now) db [] [] := by
  refine .query fun db₁ _ => ?_
  split
  · exact error_holds
  · split
    · refine .acquire fun db₂ _ => .put fun db₃ _ => ?_
      exact revoke_all_holds ((allTame_nil _).concat (.aside fun _ => rfl)) fun want _ => shield want _
    · exact error_holds

/-- The UPDATE on the other tokens leaves the sessions alone and keeps the locks. -/
theorem updateTokenRows_holds {matching : Db → Text → Bool} {now : Time} (keys : List Text)
    {db : Db} {pending : List Write} {held : Held Resource} (tame : AllTame pending held)
    {lock : Resource × LockMode} (mine : lock ∈ held) :
    Holds Db.apply (relyOn scope guarded) (fun result _ pending held => match result with
        | .ok () => AllTame pending held ∧ lock ∈ held
        | .error _ => True)
      (updateRows .updateTokenRow .token matching (fun key => .invalidateToken key now) keys)
      db pending held := by
  induction keys generalizing db pending held with
  | nil => exact .return fun _ _ => ⟨tame, mine⟩
  | cons key rest ih =>
      refine .acquire fun db₁ _ => .query fun db₂ _ => ?_
      have mine' := List.mem_cons_of_mem (Resource.token key, LockMode.noKeyUpdate) mine
      split
      · exact .put fun db₃ _ => ih ((tame.more _).concat trivial) mine'
      · exact ih (tame.more _) mine'

/-- `reset_password` holds the user's row, which shields it without any guard. -/
theorem reset_password_holds {token password : Text} {now : Time} {db : Db} :
    Holds Db.apply (relyOn scope guarded) (ends scope wanted)
      (reset_password env token password now) db [] [] := by
  unfold reset_password
  split
  · exact error_holds
  · refine selectForUpdate_holds (fun db => error_holds) fun db => ?_
    split
    · exact error_holds
    · rename_i record _
      split
      · exact error_holds
      · split
        · exact error_holds
        · refine selectForUpdate_holds (fun db => error_holds) fun db => ?_
          split
          · exact error_holds
          · refine .put fun db₁ _ => .put fun db₂ _ => .query fun db₃ _ => .bind ?_
            have tame : AllTame (([] ++ [Write.setPassword record.user_id (env.hash_password password)
                now]) ++ [.useToken (env.hash_token token) now])
                [(.user record.user_id, .update), (.token (env.hash_token token), .update)] :=
              ((allTame_nil _).concat (.aside fun _ => rfl)).concat (.aside fun _ => rfl)
            refine (updateTokenRows_holds _ tame (List.mem_cons_self ..)).mono ?_
            intro result db pending held after
            cases result with
            | ok =>
                exact revoke_all_holds after.1 fun _ same => .inr ⟨_, same.symm, after.2⟩
            | error => trivial

end

def Call.isReset : Call → Bool
  | .resetPassword .. => true
  | _ => false

theorem call_holds (env : Environment) (call : Call) (db : Db)
    (shield : wanted → call.isReset = false → guarded (some .updateSessionRow)) :
    Holds Db.apply (relyOn scope guarded) (ends scope wanted) (call.program env) db [] [] := by
  cases call with
  | refresh => exact refresh_session_holds env fun want _ => .inl (shield want rfl)
  | logout => exact revoke_current_session_holds env fun want _ => .inl (shield want rfl)
  | logoutAll => exact revoke_all_holds (allTame_nil _) fun want _ => .inl (shield want rfl)
  | changePassword => exact change_password_holds env fun want _ => .inl (shield want rfl)
  | resetPassword => exact reset_password_holds env

/-! ## Runs -/

abbrev World := State Db Resource Write Statement Refusal Outcome

/-- The calls under way on a database. -/
def start (env : Environment) (call : Pid → Call) (db : Db) : World :=
  .initial db fun pid => (call pid).program env

def after (env : Environment) (call : Pid → Call) (db : Db) (events : List Transactions.Event) :
    World :=
  run (State.step Db.apply) (start env call db) events

/-- No session of the scope is alive. -/
def AllRevoked (scope : Scope) (db : Db) : Prop :=
  ∀ (jti : Text) (r : UserSession), db.user_sessions[jti]? = some r → scope.covers r = true →
    r.revoked_at ≠ none

/-- Call `x` goes through the rows of its UPDATE. -/
def updating (s : World) (x : Pid) : Bool :=
  match s.proc x with
  | .running t _ => t.next == some .updateSessionRow
  | _ => false

/-- The next step of a call commits a rotation in the scope. -/
def rotating (scope : Scope) (s : World) (pid : Pid) : Bool :=
  match s.proc pid with
  | .running (.done _) pending => pending.any (Write.extends scope)
  | _ => false

/-- The branch that goes wrong: a rotation in the scope commits while the UPDATE of
    call `x` goes through its rows. -/
def misses (x : Pid) (scope : Scope) (s : World) : Transactions.Event → Bool
  | .step pid => pid != x && updating s x && rotating scope s pid
  | .abort _ => false

section

variable (call : Pid → Call) (x : Pid) (scope : Scope)

/-- A reset needs no guard; any other call is guarded while its UPDATE runs. -/
def guardOf (pid : Pid) (next : Option Statement) : Prop :=
  pid = x ∧ (call x).isReset = false ∧ next = some .updateSessionRow

abbrev relyOf (pid : Pid) : Rely Db Resource Statement := relyOn scope (guardOf call x pid)

abbrev postOf (pid : Pid) : Post Db Resource Write Refusal Outcome := ends scope (pid = x)

/-- Everybody is on the way, and what call `x` has revoked stays revoked. -/
structure Revoking (s : World) : Prop where
  following : Following Db.apply (relyOf call x scope) (postOf x scope) s
  complete : ∀ o, s.proc x = .committed o → o.scope = some scope → Closed scope [] s.db

end

variable {call : Pid → Call} {x : Pid}

theorem revoking_start (env : Environment) (call : Pid → Call) (x : Pid) (scope : Scope) (db : Db) :
    Revoking call x scope (start env call db) where
  following := .initial db _ fun pid =>
    call_holds env (call pid) db fun own notReset => ⟨own, own ▸ notReset, rfl⟩
  complete _ h := nomatch h

theorem held_compatible {rely : Pid → Rely Db Resource Statement}
    {post : Pid → Post Db Resource Write Refusal Outcome} {s : World}
    (following : Following Db.apply rely post s) {p q : Pid} (other : p ≠ q) :
    Compatible (s.held p) (s.held q) :=
  fun _ _ _ hp hq => following.compatible other hp hq

theorem Revoking.harmless {s : World} (h : Revoking call x scope s) {pid : Pid} {o : Outcome}
    {pending : List Write} (at_ : s.proc pid = .running (.done o) pending)
    (fine : (call x).isReset = true ∨ misses x scope s (.step pid) = false) :
    Harmless Db.apply (relyOf call x scope) s pid pending := by
  have lawful := (h.following.post_of_done at_).1
  intro q t pending' other there
  refine ⟨commit_others lawful (held_compatible h.following (Ne.symm other)), ?_⟩
  rintro ⟨rfl, notReset, next⟩
  refine commit_noNew lawful fun jti record added => ?_
  rcases fine with reset | unmissed
  · rw [reset] at notReset
    cases notReset
  · refine Bool.eq_false_iff.mpr fun covered => Bool.eq_false_iff.mp unmissed ?_
    have updates : updating s q = true := by simp [updating, there, next]
    have rotates : rotating scope s pid = true := by
      simp only [rotating, at_, List.any_eq_true]
      exact ⟨_, added, covered⟩
    simp [misses, updates, rotates, Ne.symm other]

theorem revoking_step {s : World} (h : Revoking call x scope s) (e : Transactions.Event)
    (fine : (call x).isReset = true ∨ misses x scope s e = false) :
    Revoking call x scope (s.step Db.apply e) where
  following := h.following.step e fun pid o pending is_step at_ =>
    h.harmless at_ (is_step ▸ fine)
  complete o ended whole := by
    rcases s.step_cases Db.apply e with ⟨pid, o', pending, rfl, at_, stepped⟩ | ⟨same, before⟩
    · rw [stepped] at ended ⊢
      have lawful := (h.following.post_of_done at_).1
      by_cases own : pid = x
      · subst own
        have done : o' = o := by simpa [finish_proc] using ended
        exact (h.following.post_of_done at_).2 rfl (done ▸ whole)
      · have ended' : s.proc x = .committed o := by simpa [finish_proc, Ne.symm own] using ended
        exact (commit_others lawful (compatible_nil _)).closed scope (h.complete o ended' whole)
    · rw [same]
      exact h.complete o ((before x o).mp ended) whole

/-- Revocation is complete when the call is a reset, or when no rotation in the scope
    commits while the call's UPDATE goes through its rows: from its commit on, no
    session of the scope is alive. -/
theorem revocation_complete (env : Environment) (call : Pid → Call) (db : Db)
    (events : List Transactions.Event) (x : Pid) (scope : Scope) (o : Outcome)
    (fine : (call x).isReset = true ∨
      Along (State.step Db.apply) (fun s e => misses x scope s e = false) (start env call db) events)
    (committed : (after env call db events).proc x = .committed o)
    (revokes : o.scope = some scope) : AllRevoked scope (after env call db events).db := by
  have along : Along (State.step Db.apply)
      (fun s e => (call x).isReset = true ∨ misses x scope s e = false) (start env call db) events := by
    rcases fine with reset | unmissed
    · exact (along_of_forall (fun _ _ => trivial) _).mono fun _ _ _ => .inl reset
    · exact unmissed.mono fun _ _ => .inr
  have revoking := run_invariant_along (I := Revoking call x scope)
    (fun _ e h fine => revoking_step h e fine) (revoking_start env call x scope db) along
  intro jti r there covered alive
  have live : scope.live r = true := by simp [Scope.live, covered, alive]
  rcases revoking.complete o committed revokes jti r there live with h | h <;> cases h

/-! A user with one session, which one call refreshes while another one logs out -/

/-- A token carries its own `jti`, and every password is right. -/
def plainEnvironment : Environment where
  decode_jwt token := .ok ⟨text "u", token⟩
  hash_token := id
  verify_password _ _ := true
  hash_password := id
  validate_password_policy _ := none
  refresh_token_reuse_grace_seconds := 5
  password_reset_expire_minutes := 30
  sql_lower := id
  lower := id

def oneSession : Db where
  users := (∅ : Table UserId User).insert (text "u")
    { email := text "u@x", password_hash := some (text "secret"), is_active := true
      deactivation_reason := none, updated_at := 0 }
  user_sessions := (∅ : Table Text UserSession).insert (text "A")
    { user_id := text "u", token_hash := text "A", family_id := text "F", expires_at := 100
      last_used_at := none, revoked_at := none, rotated_at := none, replaced_by_jti := none
      revocation_reason := none }
  password_reset_tokens := ∅
  auth_audit_logs := []

def refreshAndLogout : Pid → Call
  | 0 => .refresh (text "A") 10 ⟨text "B", text "B", 100⟩
  | _ => .logout (some (text "A")) 11

/-- The refresh ends before the logout starts. -/
def oneAfterTheOther : List Transactions.Event :=
  List.replicate 12 (Transactions.Event.step 0) ++ List.replicate 9 (Transactions.Event.step 1)

/-- The refresh commits after the snapshot of the logout's UPDATE. -/
def commitInBetween : List Transactions.Event :=
  List.replicate 9 (Transactions.Event.step 0) ++ [Transactions.Event.step 1, .step 1] ++
    List.replicate 3 (Transactions.Event.step 0) ++
    List.replicate 6 (Transactions.Event.step 1)

set_option maxRecDepth 10000 in
theorem revocation_complete_example :
    AllRevoked (.family (text "F"))
      (after plainEnvironment refreshAndLogout oneSession oneAfterTheOther).db :=
  revocation_complete plainEnvironment refreshAndLogout oneSession oneAfterTheOther 1
    (.family (text "F")) (.revoked (.family (text "F"))) (.inr (by decide)) (by rfl) rfl

set_option maxRecDepth 10000 in
/-- Both calls have committed, and the session that replaced the revoked one is alive. -/
theorem logout_misses_successor :
    let s := after plainEnvironment refreshAndLogout oneSession commitInBetween
    s.proc 0 = .committed (.refreshed (text "B")) ∧
      s.proc 1 = .committed (.revoked (.family (text "F"))) ∧
      (s.db.user_sessions[text "A"]?.bind (·.replaced_by_jti)) = some (text "B") ∧
      s.db.liveAt (.family (text "F")) (text "B") = true :=
  ⟨rfl, rfl, by decide, by decide⟩

end PackageRegistry.Auth
