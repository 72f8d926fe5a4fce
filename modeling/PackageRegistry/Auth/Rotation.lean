import PackageRegistry.Auth.Families
import PackageRegistry.Auth.Revocation
import PackageRegistry.Lib.Hindsight

/-! # Rotation with reuse detection

`issue_session` and `refresh_session` among any number of such calls. In hindsight each
commit is one turn of the table of sessions, made under the locks of the rows that it
changes; so the families stay chains, and a token that comes back after its grace
period takes its whole family down.
-/

namespace PackageRegistry.Auth

open Transactions Runs

inductive SessionCall where
  | issue (user_id : UserId) (family_id : FamilyId) (next : NextToken)
  | refresh (refresh_token : Text) (now : Time) (next : NextToken)

def SessionCall.program (env : Environment) : SessionCall → Program Outcome
  | .issue user_id family_id next => issue_session user_id family_id next
  | .refresh refresh_token now next => refresh_session env refresh_token now next

/-- The session whose token the call presents -/
def SessionCall.presented (env : Environment) : SessionCall → Option Text
  | .issue .. => none
  | .refresh refresh_token .. => ((env.decode_jwt refresh_token).toOption).map (·.jti)

/-- The family that the call starts -/
def SessionCall.family : SessionCall → Option FamilyId
  | .issue _ family_id _ => some family_id
  | .refresh .. => none

/-- A record whose token was replaced, at a time from which `now` is within the grace
    period. -/
def WithinGrace (env : Environment) (now : Time) (record : UserSession) : Prop :=
  ∃ rotated_at, record.rotated_at = some rotated_at ∧
    now ≤ rotated_at + env.refresh_token_reuse_grace_seconds

/-! ## What others leave alone -/

/-- Others do not touch users, nor a session that is locked. -/
structure Undisturbed (held : Held Resource) (db db' : Db) : Prop where
  users : db'.users = db.users
  locked : ∀ jti, Holding held jti → db'.sessionAt jti = db.sessionAt jti

/-- What transactions keep to beyond the locks -/
structure Restraint where
  allows : Db → Db → Prop
  refl : ∀ db, allows db db
  trans : ∀ {a b c}, allows a b → allows b c → allows a c

/-- Transactions that leave alone what is locked, and keep to `extra`. -/
def Restraint.peers (extra : Restraint) : Peers Db Resource where
  allows held db db' := Undisturbed held db db' ∧ extra.allows db db'
  refl _ db := ⟨⟨rfl, fun _ _ => rfl⟩, extra.refl db⟩
  trans first second :=
    ⟨⟨second.1.users.trans first.1.users, fun jti mine =>
      (second.1.locked jti mine).trans (first.1.locked jti mine)⟩, extra.trans first.2 second.2⟩
  more h := ⟨⟨h.1.users, fun jti mine => h.1.locked jti (mine.more _)⟩, h.2⟩

def unrestrained : Restraint where
  allows _ _ := True
  refl _ := trivial
  trans _ _ := trivial

def anybody : Peers Db Resource := unrestrained.peers

/-- No session of the family comes to life, and one session stays as it is. -/
structure Calm (family : FamilyId) (jti : Text) (db db' : Db) : Prop where
  noNew : NoNew (.family family) db db'
  still : db'.sessionAt jti = db.sessionAt jti

def calmAbout (family : FamilyId) (jti : Text) : Restraint where
  allows := Calm family jti
  refl db := ⟨.refl _ db, rfl⟩
  trans first second := ⟨first.noNew.trans second.noNew, second.still.trans first.still⟩

theorem view_sessionAt (db : Db) (pending : List Write) (jti : Text) :
    (view Db.apply db pending).sessionAt jti = rowAfter pending jti (db.sessionAt jti) :=
  view_session db pending jti

def Write.setsPassword : Write → Bool
  | .setPassword .. => true
  | _ => false

theorem view_users {db : Db} {pending : List Write}
    (about_sessions : ∀ w ∈ pending, w.setsPassword = false) :
    (view Db.apply db pending).users = db.users := by
  induction pending generalizing db with
  | nil => rfl
  | cons w ws ih =>
      have rest := @ih (db.apply w) fun w' mem => about_sessions w' (by simp [mem])
      refine rest.trans ?_
      cases w with
      | setPassword u hash at_ => cases about_sessions (.setPassword u hash at_) (by simp)
      | revoke | rotate | addSession | addToken | useToken | invalidateToken | audit => rfl

/-! ## The UPDATE of a revocation, in hindsight -/

/-- How far the UPDATE has got: some live sessions are revoked, and if it has seen every
    live session of the scope, those not revoked are still to come. -/
structure Sweep (scope : Scope) (seen : Prop) (fin : Db) (keys : List Text) (pending : List Write)
    (held : Held Resource) : Prop where
  rows : ∀ jti, rowAfter pending jti (fin.sessionAt jti) = fin.sessionAt jti ∨
    Holding held jti ∧ ∃ r revoked_at reason, fin.sessionAt jti = some r ∧ r.revoked_at = none ∧
      rowAfter pending jti (fin.sessionAt jti) = some (r.revoke revoked_at reason)
  rest : seen → ∀ jti r, fin.sessionAt jti = some r → scope.live r = true → jti ∈ keys ∨
    ∃ r', rowAfter pending jti (some r) = some r' ∧ r'.revoked_at ≠ none
  writes : ∀ w ∈ pending, ∃ jti revoked_at reason, w = .revoke jti revoked_at reason

section

variable {scope : Scope} {seen : Prop} {fin : Db} {keys : List Text} {key : Text}
  {pending : List Write} {held : Held Resource}

/-- The next session matches and is revoked. -/
theorem Sweep.revoked (h : Sweep scope seen fin (key :: keys) pending held) {r : UserSession}
    (here : rowAfter pending key (fin.sessionAt key) = some r) (alive : r.revoked_at = none)
    (revoked_at : Time) (reason : RevocationReason) :
    Sweep scope seen fin keys (pending ++ [.revoke key revoked_at reason])
      ((.session key, .noKeyUpdate) :: held) where
  rows jti := by
    rw [rowAfter_concat]
    by_cases same : key = jti
    · subst same
      have untouched : fin.sessionAt key = some r := by
        rcases h.rows key with same | ⟨-, s, at_, why, there, -, after⟩
        · exact same.symm.trans here
        · obtain rfl := Option.some.inj (here.symm.trans after)
          cases alive
      refine .inr ⟨.inl (by simp), r, revoked_at, reason, untouched, alive, ?_⟩
      simp [here, Write.onSession]
    · simp only [Write.onSession, if_neg same]
      exact (h.rows jti).imp_right (And.imp_left fun mine => mine.more _)
  rest all jti r' there live := by
    rw [rowAfter_concat]
    by_cases same : key = jti
    · subst same
      refine .inr ⟨r.revoke revoked_at reason, ?_, by simp [UserSession.revoke]⟩
      rw [← there, here]
      simp [Write.onSession]
    · simp only [Write.onSession, if_neg same]
      exact (h.rest all jti r' there live).imp_left fun mem =>
        (List.mem_cons.mp mem).resolve_left (Ne.symm same)
  writes w mem := by
    rcases List.mem_append.mp mem with old | new
    · exact h.writes w old
    · exact ⟨key, revoked_at, reason, List.mem_singleton.mp new⟩

/-- The next session no longer matches. -/
theorem Sweep.skipped (h : Sweep scope seen fin (key :: keys) pending held)
    (dead : (rowAfter pending key (fin.sessionAt key)).any scope.live = false) :
    Sweep scope seen fin keys pending ((.session key, .noKeyUpdate) :: held) where
  rows jti := (h.rows jti).imp_right (And.imp_left fun mine => mine.more _)
  rest all jti r there live := by
    by_cases same : key = jti
    · subst same
      rcases h.rows key with untouched | ⟨-, s, at_, why, here, -, after⟩
      · rw [untouched, there, Option.any_some, live] at dead
        cases dead
      · exact .inr ⟨s.revoke at_ why, there ▸ after, by simp [UserSession.revoke]⟩
    · exact (h.rest all jti r there live).imp_left fun mem =>
        (List.mem_cons.mp mem).resolve_left (Ne.symm same)
  writes := h.writes

theorem Sweep.turn (h : Sweep scope seen fin [] pending held) {presented : Option Text}
    {family : Option FamilyId} :
    Turn presented family fin.sessionAt (view Db.apply fin pending).sessionAt := by
  refine .revoke fun jti => ?_
  rw [view_sessionAt]
  exact (h.rows jti).imp_right And.right

theorem Sweep.holding (h : Sweep scope seen fin [] pending held) {jti : Text}
    (changed : (view Db.apply fin pending).sessionAt jti ≠ fin.sessionAt jti) : Holding held jti := by
  rw [view_sessionAt] at changed
  exact ((h.rows jti).resolve_left changed).1

section

variable {extra : Restraint}

theorem updateSessionRows_ends {revoked_at : Time} {reason : RevocationReason}
    (sweep : Sweep scope seen fin keys pending held) :
    Ends Db.apply extra.peers (fun result fin pending held' => match result with
        | .ok () => (∀ l ∈ held, l ∈ held') ∧ Sweep scope seen fin [] pending held'
        | .error _ => False)
      (updateRows .updateSessionRow .session (fun db jti => db.liveAt scope jti)
        (fun jti => .revoke jti revoked_at reason) keys) fin pending held := by
  induction keys generalizing pending held with
  | nil => exact ⟨fun _ mem => mem, sweep⟩
  | cons key keys ih =>
      refine .acquire (.query fun db allowed => ?_)
      have row : fin.sessionAt key = db.sessionAt key := allowed.1.locked key (.inl (by simp))
      have matching : (view Db.apply db pending).liveAt scope key =
          (rowAfter pending key (fin.sessionAt key)).any scope.live := by
        rw [Db.liveAt, view_session, row]
        rfl
      split
      · rename_i live
        replace live := matching.symm.trans live
        obtain ⟨r, here, live⟩ := (Option.any_eq_true _ _).mp live
        have alive : r.revoked_at = none := by
          simp only [Scope.live, Bool.and_eq_true, Option.isNone_iff_eq_none] at live
          exact live.2
        refine .put ((ih (sweep.revoked here alive revoked_at reason)).mono ?_)
        intro result pending held' after
        cases result with
        | ok => exact ⟨fun l mem => after.1 l (List.mem_cons_of_mem _ mem), after.2⟩
        | error => exact after
      · rename_i dead
        replace dead := matching.symm.trans (Bool.eq_false_iff.mpr dead)
        refine (ih (sweep.skipped dead)).mono ?_
        intro result pending held' after
        cases result with
        | ok => exact ⟨fun l mem => after.1 l (List.mem_cons_of_mem _ mem), after.2⟩
        | error => exact after

/-- The UPDATE on the sessions, in a transaction that has written nothing yet. -/
theorem updateSessions_ends (seen : Prop) {post : Post Db Resource Write Refusal Outcome}
    {revoked_at : Time} {reason : RevocationReason} {f : Unit → Program Outcome}
    (sees : seen → ∀ db, extra.allows db fin → NoNew scope db fin)
    (rest : ∀ pending held', (∀ l ∈ held, l ∈ held') → Sweep scope seen fin [] pending held' →
      Ends Db.apply extra.peers post (f ()) fin pending held') :
    Ends Db.apply extra.peers post ((updateSessions scope revoked_at reason).bind f)
      fin [] held := by
  refine .bind (.query fun db allowed => ?_)
  have snapshot : Sweep scope seen fin
      (Table.keysWhere db.user_sessions fun _ record => scope.live record) [] held := by
    refine ⟨fun jti => .inl rfl, fun all jti r there live => ?_, fun w none => by cases none⟩
    obtain ⟨r', here, alive⟩ := sees all db allowed.2 jti r there live
    exact .inl ((Table.mem_keysWhere _).mpr ⟨r', here, alive⟩)
  refine (updateSessionRows_ends snapshot).mono ?_
  intro result pending held' after
  cases result with
  | ok => exact rest pending held' after.1 after.2
  | error => exact after.elim

end

end

/-! ## What a call has done when it commits -/

/-- One turn of the sessions under the locks that it needs, for a user who exists, and
    never for a token within its grace period. -/
structure Committed (env : Environment) (call : SessionCall) (fin : Db) (pending : List Write)
    (held : Held Resource) : Prop where
  turn : Turn (call.presented env) call.family fin.sessionAt (view Db.apply fin pending).sessionAt
  locked : ∀ jti, (view Db.apply fin pending).sessionAt jti ≠ fin.sessionAt jti → Holding held jti
  users : (view Db.apply fin pending).users = fin.users
  user : ∀ user_id family_id next, call = .issue user_id family_id next →
    ∀ jti r, fin.sessionAt jti = none → (view Db.apply fin pending).sessionAt jti = some r →
      fin.users.contains r.user_id = true
  late : ∀ refresh_token now next, call = .refresh refresh_token now next →
    ∃ jti r, call.presented env = some jti ∧ fin.sessionAt jti = some r ∧ ¬WithinGrace env now r

def commits (env : Environment) (call : SessionCall) : Post Db Resource Write Refusal Outcome
  | .ok _, fin, pending, held => Committed env call fin pending held
  | .error _, _, _, _ => True

section

variable {env : Environment} {post : Post Db Resource Write Refusal Outcome} {fin : Db}
  {pending : List Write} {held : Held Resource}

theorem referUser_ends {extra : Restraint} {user_id : UserId}
    {f : Unit → Program Outcome} (about_sessions : ∀ w ∈ pending, w.setsPassword = false)
    (refused : fin.users.contains user_id = false → post (.error .integrity) fin pending
      ((.user user_id, .keyShare) :: held))
    (rest : fin.users.contains user_id = true → Ends Db.apply extra.peers post (f ())
      fin pending ((.user user_id, .keyShare) :: held)) :
    Ends Db.apply extra.peers post ((referUser user_id).bind f) fin pending held := by
  refine .bind (.acquire (.query fun db allowed => ?_))
  have same : (view Db.apply db pending).users.contains user_id = fin.users.contains user_id := by
    rw [view_users about_sessions, allowed.1.users]
  split
  · rename_i there
    exact rest (same.symm.trans there)
  · rename_i absent
    exact refused (same.symm.trans (Bool.eq_false_iff.mpr absent))

/-- An insert whose key is free has a free key at the end. -/
theorem free_at_end {db : Db} {jti : Text}
    (locked : fin.sessionAt jti = db.sessionAt jti)
    (untouched : ∀ row, rowAfter pending jti row = none → row = none)
    (fresh : (view Db.apply db pending).user_sessions.contains jti = false) :
    fin.sessionAt jti = none := by
  rw [Table.contains_eq, view_session, Option.isSome_eq_false_iff, Option.isNone_iff_eq_none] at fresh
  exact locked.trans (untouched _ fresh)

theorem issue_session_ends (user_id : UserId) (family_id : FamilyId) (next : NextToken) :
    Ends Db.apply anybody (commits env (.issue user_id family_id next))
      (issue_session user_id family_id next) fin [] [] := by
  refine .insertNew (fun db _ _ => trivial) fun db allowed fresh => ?_
  have free : fin.sessionAt next.jti = none :=
    @free_at_end fin [] db next.jti (allowed.1.locked next.jti (.inr (by simp))) (fun _ h => h) fresh
  refine referUser_ends ?_ (fun _ => trivial) fun user => ?_
  · intro w mem
    rw [List.mem_singleton.mp mem]
    rfl
  have rows : ∀ key, (view Db.apply fin [.addSession next.jti
      (create_session_record user_id family_id next)]).sessionAt key =
      if key = next.jti then some (create_session_record user_id family_id next)
      else fin.sessionAt key := by
    intro key
    rw [view_sessionAt]
    simp only [rowAfter, List.foldl_cons, List.foldl_nil, Write.onSession, eq_comm]
  refine ⟨.issue next.jti _ rfl free ⟨rfl, rfl, rfl⟩ rows, fun jti changed => ?_, rfl,
    fun _ _ _ _ jti r absent there => ?_, fun _ _ _ same => by cases same⟩
  · rw [List.nil_append, rows] at changed
    split at changed
    · rename_i same
      exact .inr (by simp [same])
    · exact absurd rfl changed
  · rw [List.nil_append, rows] at there
    split at there
    · obtain rfl := Option.some.inj there
      exact user
    · rw [absent] at there
      cases there

/-- A refresh that leaves every session that it changes revoked -/
theorem committed_sweep {scope : Scope} {seen : Prop} {refresh_token : Text} {now : Time}
    {next : NextToken} {entries : List AuthAuditLog} (sweep : Sweep scope seen fin [] pending held)
    (late : ∃ jti r, (SessionCall.refresh refresh_token now next).presented env = some jti ∧
      fin.sessionAt jti = some r ∧ ¬WithinGrace env now r) :
    Committed env (.refresh refresh_token now next) fin (pending ++ entries.map .audit) held := by
  have aside : ∀ jti row, rowAfter (pending ++ entries.map .audit) jti row = rowAfter pending jti row := by
    intro jti row
    rw [rowAfter, List.foldl_append]
    exact rowAfter_untouched (fun w mem => by obtain ⟨_, _, rfl⟩ := List.mem_map.mp mem; rfl) _
  have rows : (view Db.apply fin (pending ++ entries.map .audit)).sessionAt =
      (view Db.apply fin pending).sessionAt := by
    funext jti
    rw [view_sessionAt, view_sessionAt, aside]
  refine ⟨?_, fun jti changed => ?_, view_users fun w mem => ?_,
    fun _ _ _ same => (by cases same), fun _ _ _ same => ?_⟩
  · rw [rows]
    exact sweep.turn
  · rw [rows] at changed
    exact sweep.holding changed
  · rcases List.mem_append.mp mem with old | entry
    · obtain ⟨_, _, _, rfl⟩ := sweep.writes w old
      rfl
    · obtain ⟨_, _, rfl⟩ := List.mem_map.mp entry
      rfl
  · cases same
    exact late

theorem rotateSession_ends {payload : Payload} {record : UserSession} {refresh_token : Text}
    {now : Time} {next : NextToken}
    (presented : (SessionCall.refresh refresh_token now next).presented env = some payload.jti)
    (mine : Holding held payload.jti) (here : fin.sessionAt payload.jti = some record)
    (alive : record.revoked_at = none) (unrotated : record.rotated_at = none) :
    Ends Db.apply anybody (commits env (.refresh refresh_token now next))
      (rotateSession payload.jti record now next) fin [] held := by
  refine .acquire (.put (.insertNew (fun db _ _ => trivial) fun db allowed fresh => ?_))
  have free : fin.sessionAt next.jti = none := by
    refine free_at_end (allowed.1.locked next.jti (.inr (by simp))) (fun row gone => ?_) fresh
    cases row with
    | none => rfl
    | some r =>
        simp only [List.nil_append, rowAfter, List.foldl_cons, List.foldl_nil, Write.onSession] at gone
        split at gone <;> cases gone
  refine referUser_ends ?_ (fun _ => trivial) fun user => ?_
  · intro w mem
    simp only [List.nil_append, List.mem_append, List.mem_singleton] at mem
    rcases mem with rfl | rfl <;> rfl
  have rows : ∀ key, (view Db.apply fin [.rotate payload.jti now next.jti,
      .addSession next.jti (create_session_record record.user_id record.family_id next)]).sessionAt key =
      if key = next.jti then some (create_session_record record.user_id record.family_id next)
      else if key = payload.jti then some (record.rotate now next.jti) else fin.sessionAt key := by
    intro key
    rw [view_sessionAt]
    simp only [rowAfter, List.foldl_cons, List.foldl_nil, Write.onSession]
    by_cases isNext : next.jti = key
    · simp [isNext]
    · by_cases isOld : payload.jti = key
      · subst isOld
        simp [isNext, Ne.symm isNext, here]
      · simp [isNext, isOld, Ne.symm isNext, Ne.symm isOld]
  refine ⟨.rotate payload.jti next.jti record
    (create_session_record record.user_id record.family_id next) now presented here alive free rfl
    rfl ⟨rfl, rfl, rfl⟩ rows, fun jti changed => ?_, rfl,
    fun _ _ _ same => (by cases same), fun _ _ _ same => ?_⟩
  · simp only [List.nil_append, List.singleton_append] at changed
    have at_ := rows jti
    simp only [create_session_record] at at_
    rw [at_] at changed
    split at changed
    · rename_i isNext
      exact .inr (by simp [isNext])
    · split at changed
      · rename_i isOld
        rw [isOld]
        exact ((mine.more _).more _).more _
      · exact absurd rfl changed
  · cases same
    refine ⟨payload.jti, record, presented, here, ?_⟩
    rintro ⟨rotated_at, rotated, -⟩
    rw [unrotated] at rotated
    cases rotated

theorem revokeAndFail_ends {family_id : FamilyId} {refresh_token : Text} {now : Time}
    {next : NextToken} {error : AuthError}
    (late : ∃ jti r, (SessionCall.refresh refresh_token now next).presented env = some jti ∧
      fin.sessionAt jti = some r ∧ ¬WithinGrace env now r) :
    Ends Db.apply anybody (commits env (.refresh refresh_token now next))
      (revokeAndFail family_id now error) fin [] held := by
  refine updateSessions_ends False False.elim fun pending held' _ sweep => ?_
  have ended := @committed_sweep env fin pending held' _ _ refresh_token now next [] sweep late
  rwa [List.map_nil, List.append_nil] at ended

theorem refreshRecord_ends {payload : Payload} {record : UserSession} {refresh_token : Text}
    {now : Time} {next : NextToken}
    (presented : (SessionCall.refresh refresh_token now next).presented env = some payload.jti)
    (mine : Holding held payload.jti) (here : fin.sessionAt payload.jti = some record) :
    Ends Db.apply anybody (commits env (.refresh refresh_token now next))
      (refreshRecord env payload refresh_token now next record) fin [] held := by
  unfold refreshRecord
  split
  · trivial
  · split
    · rename_i rotated_at rotated
      split
      · trivial
      · rename_i late
        have late' : ¬WithinGrace env now record := by
          rintro ⟨rotated_at', rotated', early⟩
          obtain rfl := Option.some.inj (rotated.symm.trans rotated')
          exact late early
        refine updateSessions_ends False False.elim fun pending held' _ sweep => ?_
        refine .put (referUser_ends ?_ (fun _ => trivial) fun _ => ?_)
        · intro w mem
          rcases List.mem_append.mp mem with old | entry
          · obtain ⟨_, _, _, rfl⟩ := sweep.writes w old
            rfl
          · rw [List.mem_singleton.mp entry]
            rfl
        · have ended := @committed_sweep env fin pending held' _ _ refresh_token now next
            [⟨record.user_id, "REFRESH_TOKEN_REUSE_DETECTED"⟩] sweep
            ⟨payload.jti, record, presented, here, late'⟩
          exact ⟨ended.turn, fun jti changed => (ended.locked jti changed).more _, ended.users,
            ended.user, ended.late⟩
    · rename_i unrotated
      have late : ¬WithinGrace env now record := by
        rintro ⟨rotated_at, rotated, -⟩
        rw [unrotated] at rotated
        cases rotated
      split
      · trivial
      · rename_i alive
        have alive' : record.revoked_at = none := by simpa using alive
        split
        · -- the record has expired: it alone is revoked
          refine .acquire (.put ?_)
          have sweep : Sweep (.family record.family_id) False fin []
              [.revoke payload.jti now .expired]
              ((.session payload.jti, .noKeyUpdate) :: held) := by
            have start : Sweep (.family record.family_id) False fin [payload.jti] [] held :=
              ⟨fun jti => .inl rfl, False.elim, fun w none => by cases none⟩
            exact start.revoked here alive' now .expired
          have ended := @committed_sweep env fin _ _ _ _ refresh_token now next [] sweep
            ⟨payload.jti, record, presented, here, late⟩
          rwa [List.map_nil, List.append_nil] at ended
        · refine .query fun db _ => ?_
          split
          · exact revokeAndFail_ends ⟨payload.jti, record, presented, here, late⟩
          · split
            · exact rotateSession_ends presented mine here alive' unrotated
            · exact revokeAndFail_ends ⟨payload.jti, record, presented, here, late⟩

theorem selectForUpdate_ends {ν : Type} {peers : Peers Db Resource} {q : Statement} {r : Resource}
    {row : Db → Option ν} {f : Option ν → Program Outcome}
    (absent : Ends Db.apply peers post (f none) fin pending held)
    (locked : ∀ db, peers.allows ((r, .update) :: held) db fin →
      Ends Db.apply peers post (f (row (view Db.apply db pending))) fin pending
        ((r, .update) :: held)) :
    Ends Db.apply peers post ((selectForUpdate q r row).bind f) fin pending held := by
  intro db _
  simp only [Tx.bind]
  split
  · exact absent
  · exact locked

theorem refresh_session_ends (refresh_token : Text) (now : Time) (next : NextToken) :
    Ends Db.apply anybody (commits env (.refresh refresh_token now next))
      (refresh_session env refresh_token now next) fin [] [] := by
  unfold refresh_session
  split
  · trivial
  · trivial
  · rename_i payload decoded
    split
    · trivial
    · refine selectForUpdate_ends trivial fun db allowed => ?_
      have row : fin.sessionAt payload.jti = db.sessionAt payload.jti :=
        allowed.1.locked payload.jti (.inr (by simp))
      split
      · trivial
      · rename_i record here
        exact refreshRecord_ends (by simp [SessionCall.presented, decoded, Except.toOption])
          (.inr (by simp)) (row.trans here)

theorem sessionCall_ends (call : SessionCall) :
    Ends Db.apply anybody (commits env call) (call.program env) fin [] [] := by
  cases call with
  | issue user_id family_id next => exact issue_session_ends user_id family_id next
  | refresh refresh_token now next => exact refresh_session_ends refresh_token now next

end

/-! ## Runs -/

/-- The calls of a run, every one about to start. Decoding a token looks at the clock, so
    every call has its own environment. -/
def openCalls (env : Pid → Environment) (call : Pid → SessionCall) (db : Db) : World :=
  .initial db fun pid => (call pid).program (env pid)

/-- `uuid4` never returns the same family twice. -/
def NewFamilies (call : Pid → SessionCall) : Prop :=
  ∀ p q name, (call p).family = some name → (call q).family = some name → p = q

/-- What holds in every state of a run. -/
structure Rotates (env : Pid → Environment) (call : Pid → SessionCall) (s : World) : Prop where
  heading : Heading Db.apply (fun _ => anybody) (fun pid => commits (env pid) (call pid)) s
  chained : Chained s.db.sessionAt
  /-- A replaced session is revoked. -/
  replaced : ∀ jti r, s.db.sessionAt jti = some r → r.rotated_at ≠ none → r.revoked_at ≠ none
  users : ∀ jti r, s.db.sessionAt jti = some r → s.db.users.contains r.user_id = true
  families : ∀ jti r, s.db.sessionAt jti = some r →
    ∃ q o, s.proc q = .committed o ∧ (call q).family = some r.family_id

section

variable {env : Pid → Environment} {call : Pid → SessionCall} {s : World}

theorem Committed.undisturbed {e : Environment} {c : SessionCall} {fin : Db} {pending : List Write}
    {held held' : Held Resource} (h : Committed e c fin pending held)
    (apart : Compatible held held') : Undisturbed held' fin (view Db.apply fin pending) where
  users := h.users
  locked jti theirs := by
    by_contra changed
    exact apart.holding (h.locked jti changed) theirs

theorem heading_compatible {peers : Pid → Peers Db Resource}
    {post : Pid → Post Db Resource Write Refusal Outcome} (h : Heading Db.apply peers post s)
    {p q : Pid} (other : p ≠ q) : Compatible (s.held p) (s.held q) :=
  fun _ _ _ hp hq => h.compatible other hp hq

/-- A family that a call is about to start is not there yet. -/
theorem Rotates.new_family (h : Rotates env call s) (fresh : NewFamilies call) {pid : Pid}
    {t : Program Outcome} {pending : List Write} (at_ : s.proc pid = .running t pending)
    {name : FamilyId} (starts : (call pid).family = some name) (jti : Text) (r : UserSession)
    (here : s.db.sessionAt jti = some r) : r.family_id ≠ name := by
  intro same
  obtain ⟨q, o, ended, issued⟩ := h.families jti r here
  obtain rfl := fresh pid q name starts (same ▸ issued)
  rw [at_] at ended
  cases ended

theorem Turn.replaced {presented : Option Text} {family : Option FamilyId} {before after : Rows}
    (turn : Turn presented family before after)
    (h : ∀ jti r, before jti = some r → r.rotated_at ≠ none → r.revoked_at ≠ none) (jti : Text)
    (r : UserSession) (there : after jti = some r) (rotated : r.rotated_at ≠ none) :
    r.revoked_at ≠ none := by
  cases turn with
  | revoke rows =>
      rcases rows jti with same | ⟨s, at_, why, -, -, after⟩
      · exact h jti r (same.symm.trans there) rotated
      · obtain rfl := Option.some.inj (there.symm.trans after)
        simp [UserSession.revoke]
  | rotate parent child old record now _ _ _ _ _ _ new rows =>
      rw [rows jti] at there
      split at there
      · obtain rfl := Option.some.inj there
        exact absurd new.unrotated rotated
      · split at there
        · obtain rfl := Option.some.inj there
          simp [UserSession.rotate]
        · exact h jti r there rotated
  | issue key record _ _ new rows =>
      rw [rows jti] at there
      split at there
      · obtain rfl := Option.some.inj there
        exact absurd new.unrotated rotated
      · exact h jti r there rotated

/-- What a commit of one call makes of the sessions -/
theorem Rotates.turn (h : Rotates env call s) {pid : Pid} {o : Outcome} {pending : List Write}
    (at_ : s.proc pid = .running (.done o) pending) :
    Committed (env pid) (call pid) s.db pending (s.held pid) :=
  h.heading.post_of_done at_

theorem Rotates.step (h : Rotates env call s) (fresh : NewFamilies call) (e : Transactions.Event) :
    Rotates env call (s.step Db.apply e) := by
  have heading := h.heading.step e fun pid o pending _ at_ q t pending' other there =>
    ⟨(h.turn at_).undisturbed (heading_compatible h.heading (Ne.symm other)), trivial⟩
  rcases s.step_cases Db.apply e with ⟨pid, o, pending, rfl, at_, stepped⟩ | ⟨same, before⟩
  · have committed := h.turn at_
    have turn := committed.turn
    have ended : (s.step Db.apply (.step pid)).proc pid = .committed o := by
      rw [stepped]
      simp [State.finish]
    have after : (s.step Db.apply (.step pid)).db = view Db.apply s.db pending := by rw [stepped]
    have others : ∀ q o', s.proc q = .committed o' →
        (s.step Db.apply (.step pid)).proc q = .committed o' := by
      intro q o' done
      have other : q ≠ pid := by
        rintro rfl
        rw [at_] at done
        cases done
      rw [stepped]
      simpa [State.finish, Function.update_of_ne other] using done
    refine ⟨heading, ?_, ?_, ?_, ?_⟩ <;> rw [after]
    · exact h.chained.turn turn fun name starts => h.new_family fresh at_ starts
    · exact turn.replaced h.replaced
    · intro jti r there
      rw [committed.users]
      cases here : s.db.sessionAt jti with
      | some old =>
          obtain ⟨r', there', later⟩ := turn.grows jti old here
          obtain rfl : r = r' := Option.some.inj (there.symm.trans there')
          exact later.user ▸ h.users jti old here
      | none =>
          rcases turn.new_row here there with ⟨parent, old, -, here', -, user, -⟩ | starts
          · exact user ▸ h.users parent old here'
          · cases issued : call pid with
            | issue user_id family_id next =>
                exact committed.user user_id family_id next issued jti r here there
            | refresh =>
                rw [issued] at starts
                cases starts
    · intro jti r there
      cases here : s.db.sessionAt jti with
      | some old =>
          obtain ⟨r', there', later⟩ := turn.grows jti old here
          obtain rfl : r = r' := Option.some.inj (there.symm.trans there')
          obtain ⟨q, o', done, issued⟩ := h.families jti old here
          exact ⟨q, o', others q o' done, later.family ▸ issued⟩
      | none =>
          rcases turn.new_row here there with ⟨parent, old, -, here', -, -, family⟩ | starts
          · obtain ⟨q, o', done, issued⟩ := h.families parent old here'
            exact ⟨q, o', others q o' done, family ▸ issued⟩
          · exact ⟨pid, o, ended, starts⟩
  · refine ⟨heading, ?_, ?_, ?_, ?_⟩ <;> rw [same]
    · exact h.chained
    · exact h.replaced
    · exact h.users
    · intro jti r there
      obtain ⟨q, o, done, issued⟩ := h.families jti r there
      exact ⟨q, o, (before q o).mpr done, issued⟩

theorem Rotates.grows (h : Rotates env call s) (e : Transactions.Event) :
    Grows s.db.sessionAt (s.step Db.apply e).db.sessionAt := by
  rcases s.step_cases Db.apply e with ⟨pid, o, pending, rfl, at_, stepped⟩ | ⟨same, -⟩
  · rw [stepped]
    exact (h.turn at_).turn.grows
  · rw [same]
    exact .refl _

theorem Rotates.throughout (h : Rotates env call s) (fresh : NewFamilies call)
    (events : List Transactions.Event) : Rotates env call (run (State.step Db.apply) s events) :=
  run_invariant (fun _ e h => h.step fresh e) h events

theorem Rotates.grows_run (h : Rotates env call s) (fresh : NewFamilies call)
    (events : List Transactions.Event) :
    Grows s.db.sessionAt (run (State.step Db.apply) s events).db.sessionAt :=
  run_relation (R := fun a b : World => Grows a.db.sessionAt b.db.sessionAt)
    (fun _ e h => h.step fresh e) (fun _ => .refl _) Grows.trans (fun _ e h => h.grows e) h events

theorem rotates_begin (env : Pid → Environment) (call : Pid → SessionCall) {db : Db}
    (none_yet : db.user_sessions = ∅) : Rotates env call (openCalls env call db) := by
  have absent : ∀ {jti r}, db.sessionAt jti ≠ some r := by
    intro jti r
    simp [Db.sessionAt, none_yet]
  refine ⟨.initial db _ fun pid fin _ => sessionCall_ends (call pid), fun name => ?_,
    fun jti r here => absurd here absent, fun jti r here => absurd here absent,
    fun jti r here => absurd here absent⟩
  refine ⟨[], List.nodup_nil, fun jti => ?_, List.isChain_nil, fun _ mem => by cases mem⟩
  constructor
  · intro mem
    cases mem
  · rintro ⟨r, here, -⟩
    exact absurd here absent

/-- A call whose token, if it can be read, was replaced within the grace period changes
    nothing. -/
theorem Rotates.within_grace (h : Rotates env call s) (fresh : NewFamilies call) {pid : Pid}
    {refresh_token : Text} {now : Time} {next : NextToken}
    (calls : call pid = .refresh refresh_token now next)
    (early : ∀ jti, (call pid).presented (env pid) = some jti →
      ∃ r, s.db.sessionAt jti = some r ∧ WithinGrace (env pid) now r)
    (events : List Transactions.Event) :
    let s' := Runs.run (State.step Db.apply) s events
    (s'.step Db.apply (.step pid)).db = s'.db := by
  intro s'
  rcases s'.step_cases Db.apply (.step pid) with ⟨q, o, pending, is_step, at_, -⟩ | ⟨same, -⟩
  · cases is_step
    obtain ⟨jti, r, presented, there, late⟩ :=
      ((h.throughout fresh events).turn at_).late refresh_token now next calls
    obtain ⟨old, here, early⟩ := early jti presented
    obtain ⟨r', there', later⟩ := h.grows_run fresh events jti old here
    obtain rfl : r = r' := Option.some.inj (there.symm.trans there')
    obtain ⟨rotated_at, rotated, -⟩ := id early
    have kept : r = old := later.final (h.replaced jti old here (by simp [rotated]))
    exact absurd (kept ▸ early) late
  · exact same

end

/-! ## A token that comes back after its grace period -/

/-- The token of a record that was replaced longer ago than the grace period -/
structure Reused (env : Environment) (refresh_token : Text) (now : Time) (payload : Payload)
    (record : UserSession) : Prop where
  decoded : env.decode_jwt refresh_token = .ok payload
  complete : payload.sub ≠ [] ∧ payload.jti ≠ []
  hash : record.token_hash = env.hash_token refresh_token
  user : record.user_id = payload.sub
  late : ∃ rotated_at, record.rotated_at = some rotated_at ∧
    rotated_at + env.refresh_token_reuse_grace_seconds < now

def reuseDetected (family : FamilyId) : Outcome :=
  .failed (please_log_in "REFRESH_TOKEN_REUSE_DETECTED") (some (.family family))

/-- The call ends by revoking the whole family. -/
def detects (family : FamilyId) : Post Db Resource Write Refusal Outcome
  | .ok o, fin, pending, _ =>
      o = reuseDetected family ∧ AllRevoked (.family family) (view Db.apply fin pending)
  | .error _, _, _, _ => False

section

variable {env : Environment} {fin : Db} {refresh_token : Text} {now : Time} {payload : Payload}
  {record : UserSession}

/-- The UPDATE has seen all that was alive, so nothing is alive after it. -/
theorem Sweep.allRevoked {scope : Scope} {pending : List Write} {held : Held Resource}
    (h : Sweep scope True fin [] pending held) (entry : AuthAuditLog) :
    AllRevoked scope (view Db.apply fin (pending ++ [.audit entry])) := by
  intro jti r there covered alive
  rw [view_session, rowAfter_concat, onSession_untouched rfl] at there
  have live : scope.live r = true := by simp [Scope.live, covered, alive]
  rcases h.rows jti with same | ⟨-, r', revoked_at, reason, -, -, after⟩
  · have here : fin.sessionAt jti = some r := same.symm.trans there
    rcases h.rest trivial jti r here live with mem | ⟨r', there', revoked⟩
    · cases mem
    · rw [← here, same, here] at there'
      exact revoked (Option.some.inj there' ▸ alive)
  · obtain rfl := Option.some.inj (after.symm.trans there)
    cases alive

theorem reuse_ends (reused : Reused env refresh_token now payload record)
    (here : fin.sessionAt payload.jti = some record)
    (user : fin.users.contains record.user_id = true) (next : NextToken) :
    Ends Db.apply (calmAbout record.family_id payload.jti).peers (detects record.family_id)
      (refresh_session env refresh_token now next) fin [] [] := by
  obtain ⟨rotated_at, rotated, late⟩ := reused.late
  have found : ∀ db, Calm record.family_id payload.jti db fin →
      (view Db.apply db []).user_sessions[payload.jti]? = some record :=
    fun db calm => calm.still.symm.trans here
  unfold refresh_session
  simp only [reused.decoded, reused.complete, or_self, if_false]
  refine .bind (.query fun db allowed => ?_)
  rw [found db allowed.2]
  refine .acquire (.query fun db' allowed' => ?_)
  rw [found db' allowed'.2]
  change Ends _ _ _ (refreshRecord env payload refresh_token now next record) _ _ _
  unfold refreshRecord
  simp only [reused.hash, reused.user, ne_eq, not_true, or_self, if_false, rotated,
    Nat.not_le.mpr late]
  refine updateSessions_ends True (fun _ db calm => calm.noNew) fun pending held' _ sweep => ?_
  refine .put (referUser_ends ?_ (fun absent => ?_) fun _ => ⟨rfl, sweep.allRevoked _⟩)
  · intro w mem
    rcases List.mem_append.mp mem with old | entry
    · obtain ⟨_, _, _, rfl⟩ := sweep.writes w old
      rfl
    · rw [List.mem_singleton.mp entry]
      rfl
  · rw [← reused.user, user] at absent
    cases absent

end

/-- The family is calm, for one call. -/
def calmIf (p : Prop) (family : FamilyId) (jti : Text) : Restraint where
  allows db db' := p → Calm family jti db db'
  refl db _ := (calmAbout family jti).refl db
  trans first second holds := (calmAbout family jti).trans (first holds) (second holds)

section

variable (env : Pid → Environment) (call : Pid → SessionCall) (pid : Pid) (payload : Payload)
  (record : UserSession)

abbrev calmPeers (q : Pid) : Peers Db Resource :=
  (calmIf (q = pid) record.family_id payload.jti).peers

def replayPost (q : Pid) : Post Db Resource Write Refusal Outcome :=
  fun result fin pending held => commits (env q) (call q) result fin pending held ∧
    (q = pid → detects record.family_id result fin pending held)

/-- Call `pid` is on its way to take down the family of the record. -/
structure Replays (s : World) : Prop where
  rotates : Rotates env call s
  heading : Heading Db.apply (calmPeers pid payload record) (replayPost env call pid record) s
  here : s.db.sessionAt payload.jti = some record
  revoked : record.revoked_at ≠ none
  unraised : ∀ e, s.proc pid ≠ .raised e
  done : ∀ o, s.proc pid = .committed o →
    o = reuseDetected record.family_id ∧ AllRevoked (.family record.family_id) s.db

/-- A step of another call on the family -/
def OnFamily (s : World) (e : Transactions.Event) : Prop :=
  ∃ q jti r, e = .step q ∧ q ≠ pid ∧ (call q).presented (env q) = some jti ∧
    s.db.sessionAt jti = some r ∧ r.family_id = record.family_id

end

section

variable {env : Pid → Environment} {call : Pid → SessionCall} {pid : Pid} {payload : Payload}
  {record : UserSession} {s : World}

theorem Rotates.still (h : Rotates env call s) {q : Pid} {o : Outcome} {pending : List Write}
    (at_ : s.proc q = .running (.done o) pending) {jti : Text} {r : UserSession}
    (here : s.db.sessionAt jti = some r) (revoked : r.revoked_at ≠ none) :
    (view Db.apply s.db pending).sessionAt jti = s.db.sessionAt jti := by
  obtain ⟨r', there, later⟩ := (h.turn at_).turn.grows jti r here
  rw [there, here, later.final revoked]

/-- A commit brings a session of the family to life only if it rotates one. -/
theorem Rotates.calm (h : Rotates env call s) (fresh : NewFamilies call) {q : Pid} {o : Outcome}
    {pending : List Write} (at_ : s.proc q = .running (.done o) pending) {jti : Text}
    {r : UserSession} (here : s.db.sessionAt jti = some r)
    (elsewhere : ∀ parent old, (call q).presented (env q) = some parent →
      s.db.sessionAt parent = some old → old.revoked_at = none → old.family_id ≠ r.family_id) :
    NoNew (.family r.family_id) s.db (view Db.apply s.db pending) := by
  have turn := (h.turn at_).turn
  intro key r' there live
  have covered : r'.family_id = r.family_id ∧ r'.revoked_at = none := by
    simpa [Scope.live, Scope.covers] using live
  cases before : s.db.sessionAt key with
  | some old =>
      obtain ⟨r'', there', later⟩ := turn.grows key old before
      obtain rfl : r' = r'' := Option.some.inj (there.symm.trans there')
      have alive : old.revoked_at = none := by
        by_contra revoked
        rw [later.final revoked] at covered
        exact revoked covered.2
      refine ⟨old, before, ?_⟩
      simp [Scope.live, Scope.covers, alive, ← later.family, covered.1]
  | none =>
      rcases turn.new_row before there with ⟨parent, old, of, here', alive, -, family⟩ | starts
      · exact absurd (family.symm.trans covered.1) (elsewhere parent old of here' alive)
      · exact absurd covered.1.symm (h.new_family fresh at_ starts jti r here)

theorem Replays.step (h : Replays env call pid payload record s) (fresh : NewFamilies call)
    (e : Transactions.Event) (alone : ¬OnFamily env call pid record s e) :
    Replays env call pid payload record (s.step Db.apply e) := by
  have rotates := h.rotates.step fresh e
  have heading := h.heading.step e fun q o pending is_step at_ q' t pending' other there => by
    refine ⟨(h.rotates.turn at_).undisturbed (heading_compatible h.heading (Ne.symm other)), ?_⟩
    rintro rfl
    refine ⟨h.rotates.calm fresh at_ h.here fun parent old of here _ same => ?_,
      h.rotates.still at_ h.here h.revoked⟩
    exact alone ⟨q, parent, old, is_step, Ne.symm other, of, here, same⟩
  have here : (s.step Db.apply e).db.sessionAt payload.jti = some record := by
    obtain ⟨r', there, later⟩ := h.rotates.grows e payload.jti record h.here
    rw [there, later.final h.revoked]
  refine ⟨rotates, heading, here, h.revoked, fun err raised => ?_, fun o ended => ?_⟩
  · -- a call that raises has failed to detect the reuse
    rcases step_raised Db.apply raised with before | ⟨pending, at_⟩
    · exact h.unraised err before
    · exact (h.heading.post_of_raise at_).2 rfl
  · rcases s.step_cases Db.apply e with ⟨q, o', pending, rfl, at_, stepped⟩ | ⟨same, before⟩
    · rw [stepped] at ended ⊢
      by_cases own : q = pid
      · subst own
        obtain rfl : o' = o := by simpa [State.finish] using ended
        exact (h.heading.post_of_done at_).2 rfl
      · have ended' : s.proc pid = .committed o := by
          simpa [State.finish, Function.update_of_ne (Ne.symm own)] using ended
        obtain ⟨whole, dead⟩ := h.done o ended'
        refine ⟨whole, fun jti r there covered alive => ?_⟩
        have live : (Scope.family record.family_id).live r = true := by
          simp [Scope.live, covered, alive]
        obtain ⟨old, here', live'⟩ := h.rotates.calm fresh at_ h.here
          (fun parent old _ here' alive' same =>
            dead parent old here' (by simp [Scope.covers, same]) alive') jti r there live
        simp only [Scope.live, Bool.and_eq_true, Option.isNone_iff_eq_none] at live'
        exact dead jti old here' live'.1 live'.2
    · rw [same]
      exact h.done o ((before pid o).mp ended)

/-- The call starts while nobody else works on the family. -/
theorem Rotates.replays (h : Rotates env call s) {refresh_token : Text} {now : Time}
    {next : NextToken} (calls : call pid = .refresh refresh_token now next)
    (reused : Reused (env pid) refresh_token now payload record)
    (here : s.db.sessionAt payload.jti = some record)
    (start : s.proc pid = .running ((call pid).program (env pid)) []) (unlocked : s.held pid = []) :
    Replays env call pid payload record s := by
  have revoked : record.revoked_at ≠ none := by
    obtain ⟨rotated_at, rotated, -⟩ := reused.late
    exact h.replaced payload.jti record here (by simp [rotated])
  have begins : ∀ outcome, (∀ t pending, outcome ≠ .running t pending) → s.proc pid ≠ outcome :=
    fun outcome ended at_ => ended _ _ (at_.symm.trans start)
  refine ⟨h, ⟨h.heading.locked, fun q t pending at_ fin allowed => ?_⟩, here, revoked,
    fun err => begins _ (by simp), fun o ended => absurd ended (begins _ (by simp))⟩
  have less : ∀ held a b, (calmPeers pid payload record q).allows held a b →
      anybody.allows held a b := fun _ _ _ other => ⟨other.1, trivial⟩
  have usual : Ends Db.apply (calmPeers pid payload record q) (commits (env q) (call q)) t fin pending
      (s.held q) := (h.heading.ends q t pending at_ fin ⟨allowed.1, trivial⟩).among less
  by_cases own : q = pid
  · subst own
    obtain ⟨rfl, rfl⟩ : (call q).program (env q) = t ∧ [] = pending := by
      simpa using start.symm.trans at_
    have calm := allowed.2 rfl
    have calmer : ∀ held a b, (calmPeers q payload record q).allows held a b →
        (calmAbout record.family_id payload.jti).peers.allows held a b :=
      fun _ _ _ other => ⟨other.1, other.2 rfl⟩
    refine usual.and (Ends.mono ?_ fun result pending held detected _ => detected)
    rw [unlocked, calls]
    refine (reuse_ends reused (calm.still.trans here) ?_ next).among calmer
    rw [allowed.1.users]
    exact h.users payload.jti record here
  · exact usual.mono fun result pending held done => ⟨done, fun same => absurd same own⟩

theorem Replays.throughout (h : Replays env call pid payload record s) (fresh : NewFamilies call)
    {events : List Transactions.Event}
    (alone : Along (State.step Db.apply) (fun s e => ¬OnFamily env call pid record s e) s events) :
    Replays env call pid payload record (run (State.step Db.apply) s events) :=
  run_invariant_along (I := Replays env call pid payload record)
    (fun _ e h alone => h.step fresh e alone) h alone

/-- Once all of a family is revoked, all of it stays revoked. -/
theorem Rotates.stays_revoked (h : Rotates env call s) (fresh : NewFamilies call) {jti : Text}
    {r : UserSession} (here : s.db.sessionAt jti = some r)
    (dead : AllRevoked (.family r.family_id) s.db) (events : List Transactions.Event) :
    AllRevoked (.family r.family_id) (run (State.step Db.apply) s events).db := by
  suffices Rotates env call (run (State.step Db.apply) s events) ∧
      (∃ r', (run (State.step Db.apply) s events).db.sessionAt jti = some r' ∧
        r'.family_id = r.family_id) ∧
      AllRevoked (.family r.family_id) (run (State.step Db.apply) s events).db from this.2.2
  refine run_invariant (I := fun s : World => Rotates env call s ∧
    (∃ r', s.db.sessionAt jti = some r' ∧ r'.family_id = r.family_id) ∧
      AllRevoked (.family r.family_id) s.db) ?_ ⟨h, ⟨r, here, rfl⟩, dead⟩ events
  rintro s e ⟨h, ⟨r', here, family⟩, dead⟩
  refine ⟨h.step fresh e, ?_, ?_⟩
  · obtain ⟨r'', there, later⟩ := h.grows e jti r' here
    exact ⟨r'', there, later.family.trans family⟩
  · rcases s.step_cases Db.apply e with ⟨q, o, pending, rfl, at_, stepped⟩ | ⟨same, -⟩
    · rw [stepped]
      intro key r'' there covered alive
      rw [← family] at dead covered
      have live : (Scope.family r'.family_id).live r'' = true := by simp [Scope.live, covered, alive]
      obtain ⟨old, here', live'⟩ := h.calm fresh at_ here
        (fun parent old _ here' alive' same =>
          dead parent old here' (by simp [Scope.covers, same]) alive') key r'' there live
      simp only [Scope.live, Bool.and_eq_true, Option.isNone_iff_eq_none] at live'
      exact dead key old here' live'.1 live'.2
    · rw [same]
      exact dead

end

/-! ## The law of rotation -/

/-- At most one session of each family is alive. -/
def OneAlive (rows : Rows) : Prop :=
  ∀ jti jti' r r', rows jti = some r → rows jti' = some r' → r.family_id = r'.family_id →
    r.revoked_at = none → r'.revoked_at = none → jti = jti'

section

variable (env : Pid → Environment) (call : Pid → SessionCall)

/-- From now on, no call changes anything whose token was replaced within its grace period,
    or cannot be read. -/
def GraceChangesNothing (s : World) : Prop :=
  ∀ pid refresh_token now next, call pid = .refresh refresh_token now next →
    (∀ jti, (call pid).presented (env pid) = some jti →
      ∃ r, s.db.sessionAt jti = some r ∧ WithinGrace (env pid) now r) →
    ∀ more, let s' := run (State.step Db.apply) s more
      (s'.step Db.apply (.step pid)).db = s'.db

/-- No other call that presents a token of the family takes a step, up to the state in
    which these sessions are judged. -/
def Alone (pid : Pid) (family : FamilyId) (during : List Transactions.Event) (s' : World) : Prop :=
  ∀ q jti r, q ≠ pid → .step q ∈ during → (call q).presented (env q) = some jti →
    s'.db.sessionAt jti = some r → r.family_id ≠ family

/-- A call that has not begun and presents a replaced token after its grace period, with no
    other call on the family until it ends, ends with the whole family revoked for good. -/
def ReuseRevokes (events : List Transactions.Event) (s : World) : Prop :=
  ∀ pid refresh_token now next payload r, call pid = .refresh refresh_token now next →
    Reused (env pid) refresh_token now payload r → s.db.sessionAt payload.jti = some r →
    .step pid ∉ events → .abort pid ∉ events →
    ∀ during, let s' := run (State.step Db.apply) s during
      Alone env call pid r.family_id during s' →
      (∃ t pending, s'.proc pid = .running t pending) ∨ s'.proc pid = .aborted ∨
        s'.proc pid = .committed (reuseDetected r.family_id) ∧
          ∀ more, AllRevoked (.family r.family_id) (run (State.step Db.apply) s' more).db

end

/-- A call that has taken no step is where it began. -/
theorem untouched {env : Pid → Environment} {call : Pid → SessionCall} {pid : Pid} {db : Db}
    {events : List Transactions.Event} (no_step : .step pid ∉ events) (no_abort : .abort pid ∉ events) :
    (run (State.step Db.apply) (openCalls env call db) events).proc pid =
        .running ((call pid).program (env pid)) [] ∧
      (run (State.step Db.apply) (openCalls env call db) events).held pid = [] := by
  refine run_invariant_along (A := fun _ e => e ≠ .step pid ∧ e ≠ .abort pid)
    (I := fun s : World => s.proc pid = .running ((call pid).program (env pid)) [] ∧ s.held pid = [])
    (fun s e h away => ?_) ⟨rfl, rfl⟩ (along_of_forall (fun e mem => ?_) _)
  · obtain ⟨proc, held⟩ := step_other (s := s) Db.apply away.1 away.2
    exact ⟨proc.trans h.1, held.trans h.2⟩
  · exact ⟨fun same => no_step (same ▸ mem), fun same => no_abort (same ▸ mem)⟩

theorem Alone.along {env : Pid → Environment} {call : Pid → SessionCall} {pid : Pid}
    {record : UserSession} (fresh : NewFamilies call) {s : World} (h : Rotates env call s)
    {during : List Transactions.Event}
    (alone : Alone env call pid record.family_id during (run (State.step Db.apply) s during)) :
    Along (State.step Db.apply) (fun s e => ¬OnFamily env call pid record s e) s during := by
  induction during generalizing s with
  | nil => trivial
  | cons e es ih =>
      refine ⟨?_, ih (h.step fresh e) fun q jti r other mem => alone q jti r other (by simp [mem])⟩
      rintro ⟨q, jti, r, rfl, other, presented, here, family⟩
      obtain ⟨r', there, later⟩ := h.grows_run fresh (.step q :: es) jti r here
      exact alone q jti r' other (by simp) presented there (later.family.trans family)

/-- Refresh-token rotation with reuse detection, in every state of every run that starts
    without sessions. -/
theorem refresh_rotation (env : Pid → Environment) (call : Pid → SessionCall) (db : Db)
    (fresh : NewFamilies call) (none_yet : db.user_sessions = ∅)
    (events : List Transactions.Event) :
    let s := run (State.step Db.apply) (openCalls env call db) events
    OneAlive s.db.sessionAt ∧ Chained s.db.sessionAt ∧
      (∀ more, Grows s.db.sessionAt (run (State.step Db.apply) s more).db.sessionAt) ∧
      GraceChangesNothing env call s ∧ ReuseRevokes env call events s := by
  intro s
  have h : Rotates env call s := (rotates_begin env call none_yet).throughout fresh events
  refine ⟨fun jti jti' r r' => h.chained.one_alive, h.chained, h.grows_run fresh, ?_, ?_⟩
  · intro pid refresh_token now next calls early
    exact h.within_grace fresh calls early
  · intro pid refresh_token now next payload r calls reused here no_step no_abort during s' alone
    obtain ⟨start, unlocked⟩ := @untouched env call pid db events no_step no_abort
    have ended := (h.replays calls reused here start unlocked).throughout fresh (Alone.along fresh h alone)
    cases at_ : s'.proc pid with
    | running t pending => exact .inl ⟨t, pending, rfl⟩
    | raised err => exact absurd at_ (ended.unraised err)
    | aborted => exact .inr (.inl rfl)
    | committed o =>
        obtain ⟨rfl, dead⟩ := ended.done o at_
        exact .inr (.inr ⟨rfl, ended.rotates.stays_revoked fresh ended.here dead⟩)

/-! A session that is refreshed, and whose old token comes back after the grace period -/

/-- The token `A` is good until 100, and comes back at `now`. -/
def issueRefreshReplay (now : Time) : Pid → SessionCall
  | 0 => .issue (text "u") (text "F") ⟨text "A", text "A", 100⟩
  | 1 => .refresh (text "A") 10 ⟨text "B", text "B", 500⟩
  | _ => .refresh (text "A") now ⟨text "C", text "C", 500⟩

theorem issueRefreshReplay_fresh (now : Time) : NewFamilies (issueRefreshReplay now) := by
  intro p q name hp hq
  match p, q with
  | 0, 0 => rfl
  | 0, 1 | 0, _ + 2 => cases hq
  | 1, _ | _ + 2, _ => cases hp

def noSession : Db := { oneSession with user_sessions := ∅ }

def beforeReplay : List Transactions.Event :=
  List.replicate 5 (Transactions.Event.step 0) ++ List.replicate 13 (Transactions.Event.step 1)

def replayAlone : List Transactions.Event := List.replicate 14 (.step 2)

/-- The first session is issued and refreshed. -/
def rotatedWorld (env : Pid → Environment) (now : Time) : World :=
  run (State.step Db.apply) (openCalls env (issueRefreshReplay now) noSession) beforeReplay

/-- Its old token comes back. -/
def replayedWorld (env : Pid → Environment) (now : Time) : World :=
  run (State.step Db.apply) (rotatedWorld env now) replayAlone

/-- The first session after its rotation -/
def rotatedSession : UserSession :=
  (create_session_record (text "u") (text "F") ⟨text "A", text "A", 100⟩).rotate 10 (text "B")

def plain : Pid → Environment := fun _ => plainEnvironment

theorem alone_replay (env : Pid → Environment) (now : Time) :
    Alone env (issueRefreshReplay now) 2 (text "F") replayAlone (replayedWorld env now) := by
  intro q _ _ other mem
  exact absurd (Transactions.Event.step.inj (List.eq_of_mem_replicate mem)) other

set_option maxRecDepth 10000 in
/-- The replay takes down the family, its successor included. -/
theorem refresh_rotation_replay : AllRevoked (.family (text "F")) (replayedWorld plain 20).db := by
  have law := (refresh_rotation plain (issueRefreshReplay 20) noSession
    (issueRefreshReplay_fresh 20) rfl beforeReplay).2.2.2.2
  have reused : Reused (plain 2) (text "A") 20 ⟨text "u", text "A"⟩ rotatedSession :=
    ⟨rfl, by decide, rfl, rfl, 10, rfl, by decide⟩
  have here : (rotatedWorld plain 20).db.sessionAt (text "A") = some rotatedSession := by decide
  have ended : (replayedWorld plain 20).proc 2 = .committed (reuseDetected (text "F")) := rfl
  have outcome : (∃ t pending, (replayedWorld plain 20).proc 2 = .running t pending) ∨
      (replayedWorld plain 20).proc 2 = .aborted ∨
        (replayedWorld plain 20).proc 2 = .committed (reuseDetected (text "F")) ∧
          ∀ more, AllRevoked (.family (text "F"))
            (run (State.step Db.apply) (replayedWorld plain 20) more).db :=
    law 2 (text "A") 20 ⟨text "C", text "C", 500⟩ ⟨text "u", text "A"⟩ rotatedSession rfl reused here
      (by decide) (by decide) replayAlone (alone_replay plain 20)
  rw [ended] at outcome
  rcases outcome with ⟨t, pending, running⟩ | aborted | ⟨-, dead⟩
  · cases running
  · cases aborted
  · have atOnce := dead []
    rwa [run_nil] at atOnce

/-! When the token comes back after its own expiry, it can no longer be read, and nothing
    tells that it was reused. -/

/-- The clock of the last call is past the expiry of its token. -/
def tooLate : Pid → Environment
  | 2 => { plainEnvironment with decode_jwt := fun _ => .error .expired }
  | _ => plainEnvironment

set_option maxRecDepth 10000 in
theorem expired_replay_revokes_nothing :
    (rotatedWorld tooLate 200).db.sessionAt (text "A") = some rotatedSession ∧
      10 + plainEnvironment.refresh_token_reuse_grace_seconds < 200 ∧
      Alone tooLate (issueRefreshReplay 200) 2 (text "F") replayAlone (replayedWorld tooLate 200) ∧
      (replayedWorld tooLate 200).proc 2 =
        .raised (.http (please_log_in "REFRESH_TOKEN_EXPIRED")) ∧
      ¬AllRevoked (.family (text "F")) (replayedWorld tooLate 200).db := by
  refine ⟨by decide, by decide, alone_replay tooLate 200, rfl, fun dead => ?_⟩
  have successor : (replayedWorld tooLate 200).db.sessionAt (text "B") =
      some (create_session_record (text "u") (text "F") ⟨text "B", text "B", 500⟩) := by decide
  exact dead _ _ successor (by decide) rfl

end PackageRegistry.Auth
