import PackageRegistry.Auth.Rotation

/-! # Reset tokens

`forgot_password`, `reset_password` and `change_password` among any number of such
calls. Whoever issues or redeems a token locks the user's row first, so at most one
token of a user is open, and a reset leaves none. `change_password` looks at no token:
what is open when it commits still works afterwards.
-/

namespace PackageRegistry.Auth

open Transactions Runs

inductive TokenCall where
  | forgot (email token : Text) (now : Time)
  | reset (token password : Text) (now : Time)
  | change (user_id : UserId) (current_password new_password : Text) (now : Time)

def TokenCall.program (env : Environment) : TokenCall → Program Outcome
  | .forgot email token now => forgot_password env email token now
  | .reset token password now => reset_password env token password now
  | .change user_id current_password new_password now =>
      change_password env user_id current_password new_password now

/-! ## Writes, one token at a time -/

def Db.tokenAt (db : Db) (key : Text) : Option PasswordResetToken := db.password_reset_tokens[key]?

def PasswordResetToken.use (token : PasswordResetToken) (used_at : Time) : PasswordResetToken :=
  { token with used_at := some used_at }

def PasswordResetToken.invalidate (token : PasswordResetToken) (invalidated_at : Time) :
    PasswordResetToken :=
  { token with invalidated_at := some invalidated_at }

/-- What a write makes of the token under a key. -/
def Write.onToken (key : Text) : Write → Option PasswordResetToken → Option PasswordResetToken
  | .addToken token record, row => if token = key then some record else row
  | .useToken token used_at, row => if token = key then row.map (·.use used_at) else row
  | .invalidateToken token invalidated_at, row =>
      if token = key then row.map (·.invalidate invalidated_at) else row
  | _, row => row

def tokenAfter (pending : List Write) (key : Text) (row : Option PasswordResetToken) :
    Option PasswordResetToken :=
  pending.foldl (fun row w => w.onToken key row) row

theorem apply_token (db : Db) (w : Write) (key : Text) :
    (db.apply w).tokenAt key = w.onToken key (db.tokenAt key) := by
  cases w with
  | addToken => simp only [Db.apply, Db.tokenAt, Write.onToken, Table.get_insert]
  | useToken | invalidateToken =>
      simp only [Db.apply, Db.tokenAt, Write.onToken, Table.get_modify]
      rfl
  | revoke | rotate | addSession | setPassword | audit => rfl

theorem view_token (db : Db) (pending : List Write) (key : Text) :
    (view Db.apply db pending).tokenAt key = tokenAfter pending key (db.tokenAt key) := by
  induction pending generalizing db with
  | nil => rfl
  | cons w ws ih => exact (ih (db.apply w)).trans (by rw [apply_token]; rfl)

@[simp] theorem tokenAfter_append (pending more : List Write) (key : Text)
    (row : Option PasswordResetToken) :
    tokenAfter (pending ++ more) key row = tokenAfter more key (tokenAfter pending key row) := by
  simp [tokenAfter]

/-- A write that is not about tokens -/
def Write.sparesTokens : Write → Bool
  | .addToken .. | .useToken .. | .invalidateToken .. => false
  | _ => true

theorem tokenAfter_spared {pending : List Write} (spared : ∀ w ∈ pending, w.sparesTokens = true)
    (key : Text) (row : Option PasswordResetToken) : tokenAfter pending key row = row := by
  induction pending generalizing row with
  | nil => rfl
  | cons w ws ih =>
      have rest := ih (fun w' mem => spared w' (by simp [mem])) (w.onToken key row)
      refine rest.trans ?_
      cases w with
      | addToken key' record => cases spared (.addToken key' record) (by simp)
      | useToken key' at_ => cases spared (.useToken key' at_) (by simp)
      | invalidateToken key' at_ => cases spared (.invalidateToken key' at_) (by simp)
      | revoke | rotate | addSession | setPassword | audit => rfl

/-- The users that there are: no operation here adds or removes one. -/
theorem view_contains_user (db : Db) (pending : List Write) (id : UserId) :
    (view Db.apply db pending).users.contains id = db.users.contains id := by
  induction pending generalizing db with
  | nil => rfl
  | cons w ws ih =>
      refine (ih (db.apply w)).trans ?_
      cases w with
      | setPassword user password_hash updated_at =>
          simp only [Db.apply, Table.contains_eq, Table.get_modify]
          split <;> simp
      | revoke | rotate | addSession | addToken | useToken | invalidateToken | audit => rfl

/-! ## What a commit may do to the tokens -/

abbrev Tokens := Text → Option PasswordResetToken

/-- One token later: of the same user, and not open again once it is closed. -/
structure Spent (old new : PasswordResetToken) : Prop where
  user : new.user_id = old.user_id
  closed : new.isOpen = true → old.isOpen = true

theorem Spent.refl (r : PasswordResetToken) : Spent r r := ⟨rfl, id⟩

theorem Spent.trans {a b c : PasswordResetToken} (first : Spent a b) (second : Spent b c) :
    Spent a c :=
  ⟨second.user.trans first.user, first.closed ∘ second.closed⟩

theorem spent_use (r : PasswordResetToken) (used_at : Time) : Spent r (r.use used_at) :=
  ⟨rfl, by simp [PasswordResetToken.isOpen, PasswordResetToken.use]⟩

theorem spent_invalidate (r : PasswordResetToken) (invalidated_at : Time) :
    Spent r (r.invalidate invalidated_at) :=
  ⟨rfl, by simp [PasswordResetToken.isOpen, PasswordResetToken.invalidate]⟩

/-- A row that is as before, or spent further -/
def Settles (before after : Option PasswordResetToken) : Prop :=
  after = before ∨ ∃ r r', before = some r ∧ after = some r' ∧ Spent r r'

theorem Settles.back {before after : Option PasswordResetToken} (h : Settles before after)
    {r' : PasswordResetToken} (there : after = some r') :
    ∃ r, before = some r ∧ Spent r r' := by
  rcases h with same | ⟨r, r'', here, there', spent⟩
  · exact ⟨r', same.symm.trans there, .refl r'⟩
  · obtain rfl := Option.some.inj (there.symm.trans there')
    exact ⟨r, here, spent⟩

theorem Settles.forth {before after : Option PasswordResetToken} (h : Settles before after)
    {r : PasswordResetToken} (here : before = some r) : ∃ r', after = some r' ∧ Spent r r' := by
  rcases h with same | ⟨r', r'', here', there, spent⟩
  · exact ⟨r, same.trans here, .refl r⟩
  · obtain rfl := Option.some.inj (here.symm.trans here')
    exact ⟨r'', there, spent⟩

theorem Settles.trans {a b c : Option PasswordResetToken} (first : Settles a b)
    (second : Settles b c) : Settles a c := by
  rcases second with same | ⟨r, r', here, there, spent⟩
  · exact same ▸ first
  · obtain ⟨old, before, spent'⟩ := first.back here
    exact .inr ⟨old, r', before, there, spent'.trans spent⟩

/-- Tokens are closed, or one is added and the others of its user are closed. -/
inductive TokenTurn (locks : UserId → Prop) (before after : Tokens) : Prop where
  | settle (rows : ∀ key, Settles (before key) (after key))
  | renew (key : Text) (record : PasswordResetToken) (locked : locks record.user_id)
      (free : before key = none) (added : after key = some record)
      (rows : ∀ key', key' ≠ key → Settles (before key') (after key'))
      (alone : ∀ key' r, key' ≠ key → after key' = some r → r.user_id = record.user_id →
        r.isOpen = false)

/-- At most one token of each user is open. -/
def OneOpen (tokens : Tokens) : Prop :=
  ∀ key key' r r', tokens key = some r → tokens key' = some r' → r.user_id = r'.user_id →
    r.isOpen = true → r'.isOpen = true → key = key'

/-- No token of the user is open. -/
def AllClosed (user_id : UserId) (tokens : Tokens) : Prop :=
  ∀ key r, tokens key = some r → r.user_id = user_id → r.isOpen = false

section

variable {locks : UserId → Prop} {before after : Tokens}

theorem TokenTurn.oneOpen (turn : TokenTurn locks before after) (h : OneOpen before) :
    OneOpen after := by
  intro key key' r r' there there' same alive alive'
  cases turn with
  | settle rows =>
      obtain ⟨old, here, spent⟩ := (rows key).back there
      obtain ⟨old', here', spent'⟩ := (rows key').back there'
      exact h key key' old old' here here' (spent.user.symm.trans (same.trans spent'.user))
        (spent.closed alive) (spent'.closed alive')
  | renew new record locked free added rows alone =>
      have only : ∀ k r, after k = some r → r.user_id = record.user_id → r.isOpen = true →
          k = new := by
        intro k r there of alive
        by_contra other
        rw [alone k r other there of] at alive
        cases alive
      by_cases isNew : key = new
      · rw [isNew, added] at there
        obtain rfl := Option.some.inj there
        exact isNew.trans (only key' r' there' same.symm alive').symm
      · by_cases isNew' : key' = new
        · rw [isNew', added] at there'
          obtain rfl := Option.some.inj there'
          exact absurd (only key r there same alive) isNew
        · obtain ⟨old, here, spent⟩ := (rows key isNew).back there
          obtain ⟨old', here', spent'⟩ := (rows key' isNew').back there'
          exact h key key' old old' here here' (spent.user.symm.trans (same.trans spent'.user))
            (spent.closed alive) (spent'.closed alive')

theorem TokenTurn.forth (turn : TokenTurn locks before after) {key : Text}
    {r : PasswordResetToken} (here : before key = some r) :
    ∃ r', after key = some r' ∧ Spent r r' := by
  cases turn with
  | settle rows => exact (rows key).forth here
  | renew new record locked free added rows alone =>
      refine (rows key ?_).forth here
      rintro rfl
      rw [free] at here
      cases here

end

/-! ## What others leave alone -/

/-- A lock under which a row may be written, by its holder alone. -/
def Writable (held : Held Resource) (r : Resource) : Prop :=
  (r, .noKeyUpdate) ∈ held ∨ (r, .update) ∈ held

theorem Writable.among {held held' : Held Resource} {r : Resource} (h : Writable held r)
    (more : ∀ l ∈ held, l ∈ held') : Writable held' r :=
  h.imp (more _) (more _)

theorem Compatible.writable {held held' : Held Resource} (apart : Compatible held held')
    {r : Resource} (mine : Writable held r) (other : Writable held' r) : False := by
  rcases mine with mine | mine <;> rcases other with other | other <;>
    cases apart _ _ _ mine other

structure TokenOthers (held : Held Resource) (db db' : Db) : Prop where
  users : ∀ id, db'.users.contains id = db.users.contains id
  locked : ∀ key, Writable held (.token key) → db'.tokenAt key = db.tokenAt key
  spent : ∀ key r, db.tokenAt key = some r → ∃ r', db'.tokenAt key = some r' ∧ Spent r r'
  noNew : ∀ id, (.user id, .update) ∈ held → ∀ key r', db'.tokenAt key = some r' →
    r'.user_id = id → r'.isOpen = true →
      ∃ r, db.tokenAt key = some r ∧ r.user_id = id ∧ r.isOpen = true

def tokenPeers : Peers Db Resource where
  allows := TokenOthers
  refl _ db := ⟨fun _ => rfl, fun _ _ => rfl, fun _ r here => ⟨r, here, .refl r⟩,
    fun _ _ _ r here of alive => ⟨r, here, of, alive⟩⟩
  trans first second := by
    refine ⟨fun id => (second.users id).trans (first.users id), fun key mine =>
      (second.locked key mine).trans (first.locked key mine), fun key r here => ?_,
      fun id mine key r there of alive => ?_⟩
    · obtain ⟨r', there, spent⟩ := first.spent key r here
      obtain ⟨r'', there', spent'⟩ := second.spent key r' there
      exact ⟨r'', there', spent.trans spent'⟩
    · obtain ⟨r', between, of', alive'⟩ := second.noNew id mine key r there of alive
      exact first.noNew id mine key r' between of' alive'
  more h := ⟨h.users, fun key mine => h.locked key (mine.among fun _ => List.mem_cons_of_mem _),
    h.spent, fun id mine => h.noNew id (List.mem_cons_of_mem _ mine)⟩

/-! ## The UPDATE that invalidates tokens -/

/-- How far the UPDATE has got, over what the transaction had written before it -/
structure TokenSweep (matching : Text → PasswordResetToken → Bool) (fin : Db) (base : List Write)
    (keys : List Text) (pending : List Write) (held : Held Resource) : Prop where
  rows : ∀ key, tokenAfter pending key (fin.tokenAt key) = tokenAfter base key (fin.tokenAt key) ∨
    Writable held (.token key) ∧
      Settles (tokenAfter base key (fin.tokenAt key)) (tokenAfter pending key (fin.tokenAt key))
  rest : ∀ key r, tokenAfter pending key (fin.tokenAt key) = some r → matching key r = true → key ∈ keys

section

variable {matching : Text → PasswordResetToken → Bool} {fin : Db} {base : List Write}
  {keys : List Text} {key : Text} {pending : List Write} {held : Held Resource}

theorem TokenSweep.settles (h : TokenSweep matching fin base keys pending held) (key : Text) :
    Settles (tokenAfter base key (fin.tokenAt key)) (tokenAfter pending key (fin.tokenAt key)) :=
  (h.rows key).elim .inl And.right

theorem TokenSweep.among (h : TokenSweep matching fin base keys pending held) {held' : Held Resource}
    (more : ∀ l ∈ held, l ∈ held') : TokenSweep matching fin base keys pending held' :=
  ⟨fun key => (h.rows key).imp_right (And.imp_left (·.among more)), h.rest⟩

theorem TokenSweep.invalidated (h : TokenSweep matching fin base (key :: keys) pending held)
    (open_only : ∀ key r, matching key r = true → r.isOpen = true) (now : Time) :
    TokenSweep matching fin base keys (pending ++ [.invalidateToken key now])
      ((.token key, .noKeyUpdate) :: held) where
  rows key' := by
    have after : tokenAfter (pending ++ [.invalidateToken key now]) key' (fin.tokenAt key') =
        if key = key' then (tokenAfter pending key' (fin.tokenAt key')).map (·.invalidate now)
        else tokenAfter pending key' (fin.tokenAt key') := by
      rw [tokenAfter_append]
      rfl
    by_cases same : key = key'
    · subst same
      refine .inr ⟨.inl (by simp), ?_⟩
      rw [after, if_pos rfl]
      have before := h.settles key
      cases now_ : tokenAfter pending key (fin.tokenAt key) with
      | none =>
          rw [now_] at before
          exact before
      | some r =>
          obtain ⟨old, here, spent⟩ := before.back now_
          exact .inr ⟨old, _, here, rfl, spent.trans (spent_invalidate r now)⟩
    · rw [after, if_neg same]
      exact (h.rows key').imp_right (And.imp_left (·.among fun _ => List.mem_cons_of_mem _))
  rest key' r there matches_ := by
    have alive := open_only key' r matches_
    rw [tokenAfter_append] at there
    by_cases same : key = key'
    · subst same
      simp only [tokenAfter, List.foldl_cons, List.foldl_nil, Write.onToken, if_true] at there
      obtain ⟨old, -, rfl⟩ := Option.map_eq_some_iff.mp there
      simp [PasswordResetToken.isOpen, PasswordResetToken.invalidate] at alive
    · refine (List.mem_cons.mp (h.rest key' r ?_ matches_)).resolve_left (Ne.symm same)
      simpa [tokenAfter, Write.onToken, same] using there

theorem TokenSweep.skipped (h : TokenSweep matching fin base (key :: keys) pending held)
    (passed : (tokenAfter pending key (fin.tokenAt key)).any (matching key) = false) :
    TokenSweep matching fin base keys pending ((.token key, .noKeyUpdate) :: held) where
  rows key' := (h.rows key').imp_right (And.imp_left (·.among fun _ => List.mem_cons_of_mem _))
  rest key' r there matches_ := by
    refine (List.mem_cons.mp (h.rest key' r there matches_)).resolve_left ?_
    rintro rfl
    rw [there, Option.any_some, matches_] at passed
    cases passed

/-- The rows of the UPDATE, one after the other -/
theorem updateTokenRows_ends (open_only : ∀ key r, matching key r = true → r.isOpen = true)
    {now : Time} (sweep : TokenSweep matching fin base keys pending held) :
    Ends Db.apply tokenPeers (fun result fin pending held' => match result with
        | .ok () => (∀ l ∈ held, l ∈ held') ∧ TokenSweep matching fin base [] pending held'
        | .error _ => False)
      (updateRows .updateTokenRow .token
        (fun db key => db.password_reset_tokens[key]?.any (matching key))
        (fun key => .invalidateToken key now) keys) fin pending held := by
  induction keys generalizing pending held with
  | nil => exact ⟨fun _ mem => mem, sweep⟩
  | cons key keys ih =>
      refine .acquire (.query fun db allowed => ?_)
      have row : fin.tokenAt key = db.tokenAt key := allowed.locked key (.inl (by simp))
      have found : (view Db.apply db pending).password_reset_tokens[key]?.any (matching key) =
          (tokenAfter pending key (fin.tokenAt key)).any (matching key) := by
        rw [row]
        exact congrArg (·.any (matching key)) (view_token db pending key)
      split
      · refine .put ((ih (sweep.invalidated open_only now)).mono fun result pending' held' after => ?_)
        cases result with
        | ok => exact ⟨fun l mem => after.1 l (List.mem_cons_of_mem _ mem), after.2⟩
        | error => exact after
      · rename_i passed
        replace passed : ¬(tokenAfter pending key (fin.tokenAt key)).any (matching key) = true :=
          fun matches_ => passed (found.trans matches_)
        refine (ih (sweep.skipped (Bool.eq_false_iff.mpr passed))).mono fun result pending' held' after => ?_
        cases result with
        | ok => exact ⟨fun l mem => after.1 l (List.mem_cons_of_mem _ mem), after.2⟩
        | error => exact after

/-- The UPDATE under the lock of the user's row: no open token that it should have closed
    is left. -/
theorem updateTokens_ends {user_id : UserId} {f : Unit → Program Outcome} {now : Time}
    {post : Post Db Resource Write Refusal Outcome}
    (mine : (.user user_id, .update) ∈ held)
    (matches_iff : ∀ key r, matching key r = true →
      ∀ r', matching key r' = true ↔ r'.user_id = user_id ∧ r'.isOpen = true)
    (aside : ∀ key r row, matching key r = true → tokenAfter base key row = row)
    (rest : ∀ pending held', (∀ l ∈ held, l ∈ held') → TokenSweep matching fin base [] pending held' →
      Ends Db.apply tokenPeers post (f ()) fin pending held') :
    Ends Db.apply tokenPeers post
      ((Tx.query .updateTokens fun db =>
        Table.keysWhere db.password_reset_tokens matching).bind fun keys =>
          (updateRows .updateTokenRow .token
            (fun db key => db.password_reset_tokens[key]?.any (matching key))
            (fun key => .invalidateToken key now) keys).bind f) fin base held := by
  refine .query fun db allowed => .bind ?_
  have snapshot : TokenSweep matching fin base
      (Table.keysWhere (view Db.apply db base).password_reset_tokens matching) base held := by
    refine ⟨fun key => .inl rfl, fun key r there found => (Table.mem_keysWhere _).mpr ?_⟩
    rw [aside key r _ found] at there
    obtain ⟨of, alive⟩ := (matches_iff key r found r).mp found
    obtain ⟨old, here, of', alive'⟩ := allowed.noNew user_id mine key r there of alive
    refine ⟨old, ?_, (matches_iff key r found old).mpr ⟨of', alive'⟩⟩
    exact (view_token db base key).trans ((aside key r _ found).trans here)
  have only_open : ∀ key r, matching key r = true → r.isOpen = true := fun key r found =>
    ((matches_iff key r found r).mp found).2
  refine (updateTokenRows_ends only_open snapshot).mono fun result pending held' after => ?_
  cases result with
  | ok => exact rest pending held' after.1 after.2
  | error => exact after.elim

end

/-! ## What a call has done when it commits -/

/-- A set-based UPDATE adds writes of its own kind. -/
theorem updateRows_ends {peers : Peers Db Resource} {q : Statement} {resource : Text → Resource}
    {matching : Db → Text → Bool} {set : Text → Write} {fin : Db} {keys : List Text}
    {pending : List Write} {held : Held Resource} :
    Ends Db.apply peers (fun result _ pending' held' => match result with
        | .ok () => (∀ l ∈ held, l ∈ held') ∧
            ∃ written, pending' = pending ++ written ∧ ∀ w ∈ written, ∃ key, w = set key
        | .error _ => False)
      (updateRows q resource matching set keys) fin pending held := by
  induction keys generalizing pending held with
  | nil => exact ⟨fun _ mem => mem, [], by simp, fun w mem => by cases mem⟩
  | cons key keys ih =>
      refine .acquire (.query fun db _ => ?_)
      split
      · refine .put (ih.mono fun result pending' held' after => ?_)
        cases result with
        | ok =>
            obtain ⟨kept, written, rfl, same⟩ := after
            refine ⟨fun l mem => kept l (List.mem_cons_of_mem _ mem), set key :: written, by simp, ?_⟩
            intro w mem
            rcases List.mem_cons.mp mem with rfl | later
            · exact ⟨key, rfl⟩
            · exact same w later
        | error => exact after
      · refine ih.mono fun result pending' held' after => ?_
        cases result with
        | ok => exact ⟨fun l mem => after.1 l (List.mem_cons_of_mem _ mem), after.2⟩
        | error => exact after

/-- The end of a password change: sessions are revoked, tokens stay as they are. -/
theorem revoke_all_sessions_ends {user_id : UserId} {now : Time} {reason : RevocationReason}
    {f : Unit → Program Outcome} {fin : Db} {post : Post Db Resource Write Refusal Outcome}
    {pending : List Write} {held : Held Resource}
    (rest : ∀ written held', (∀ w ∈ written, w.sparesTokens = true) → (∀ l ∈ held, l ∈ held') →
      Ends Db.apply tokenPeers post (f ()) fin (pending ++ written) held') :
    Ends Db.apply tokenPeers post ((revoke_all_sessions user_id now reason).bind f) fin pending held := by
  refine .bind (.query fun db _ => updateRows_ends.mono fun result pending' held' after => ?_)
  cases result with
  | ok =>
      obtain ⟨kept, written, rfl, same⟩ := after
      refine rest written held' (fun w mem => ?_) kept
      obtain ⟨key, rfl⟩ := same w mem
      rfl
  | error => exact after.elim

/-- What a call has made of the tokens -/
structure TokensCommitted (fin : Db) (pending : List Write) (held : Held Resource) : Prop where
  turn : TokenTurn (fun id => (.user id, .update) ∈ held) fin.tokenAt
    (view Db.apply fin pending).tokenAt
  locked : ∀ key, (view Db.apply fin pending).tokenAt key ≠ fin.tokenAt key →
    Writable held (.token key)

/-- A reset has redeemed an open token and closed all tokens of its user. -/
def Redeemed (key : Text) (o : Outcome) (fin : Db) (pending : List Write) : Prop :=
  ∃ r, fin.tokenAt key = some r ∧ r.isOpen = true ∧ o = .revoked (.user r.user_id) ∧
    AllClosed r.user_id (view Db.apply fin pending).tokenAt

def tokenPost (env : Environment) (call : TokenCall) : Post Db Resource Write Refusal Outcome
  | .ok o, fin, pending, held => TokensCommitted fin pending held ∧ match call with
      | .forgot .. => o = .nothing
      | .reset token _ _ => Redeemed (env.hash_token token) o fin pending
      | .change user_id _ _ _ => o = .revoked (.user user_id)
  | .error _, _, _, _ => True

section

variable {env : Environment} {fin : Db}

/-- A call that has written nothing about tokens -/
theorem tokens_untouched {pending : List Write} {held : Held Resource}
    (spared : ∀ w ∈ pending, w.sparesTokens = true) : TokensCommitted fin pending held := by
  have same : ∀ key, (view Db.apply fin pending).tokenAt key = fin.tokenAt key := fun key => by
    rw [view_token, tokenAfter_spared spared]
  exact ⟨.settle fun key => .inl (same key), fun key changed => absurd (same key) changed⟩

theorem change_password_ends (user_id : UserId) (current_password new_password : Text) (now : Time) :
    Ends Db.apply tokenPeers (tokenPost env (.change user_id current_password new_password now))
      (change_password env user_id current_password new_password now) fin [] [] := by
  refine .query fun db _ => ?_
  split
  · trivial
  · split
    · refine .acquire (.put (revoke_all_sessions_ends fun written held' spared _ => ?_))
      refine ⟨tokens_untouched fun w mem => ?_, rfl⟩
      rcases List.mem_append.mp mem with first | later
      · rw [List.mem_singleton.mp first]
        rfl
      · exact spared w later
    · trivial

/-- The open tokens of the user are closed, and the new one is added. -/
theorem renewed {user_id : UserId} {key : Text} {record : PasswordResetToken} {db : Db}
    {pending : List Write} {held : Held Resource}
    (sweep : TokenSweep (fun _ r => r.user_id == user_id && r.isOpen) fin [] [] pending held)
    (mine : (.user user_id, .update) ∈ held)
    (allowed : TokenOthers ((.token key, .update) :: held) db fin)
    (free : (view Db.apply db pending).password_reset_tokens.contains key = false)
    (of : record.user_id = user_id) :
    TokensCommitted fin (pending ++ [.addToken key record])
      ((.user user_id, .keyShare) :: (.token key, .update) :: held) := by
  have absent : tokenAfter pending key (fin.tokenAt key) = none := by
    rw [allowed.locked key (.inr (by simp)), ← view_token]
    rw [Table.contains_eq, Option.isSome_eq_false_iff, Option.isNone_iff_eq_none] at free
    exact free
  have after : ∀ key', (view Db.apply fin (pending ++ [.addToken key record])).tokenAt key' =
      if key = key' then some record else tokenAfter pending key' (fin.tokenAt key') := by
    intro key'
    rw [view_token, tokenAfter_append]
    rfl
  refine ⟨.renew key record ?_ ?_ ?_ (fun key' other => ?_) (fun key' r other there mine' => ?_),
    fun key' changed => ?_⟩
  · rw [of]
    exact List.mem_cons_of_mem _ (List.mem_cons_of_mem _ mine)
  · cases here : fin.tokenAt key with
    | none => rfl
    | some r =>
        obtain ⟨r', there, -⟩ := (sweep.settles key).forth here
        rw [absent] at there
        cases there
  · rw [after, if_pos rfl]
  · rw [after, if_neg (Ne.symm other)]
    exact sweep.settles key'
  · rw [after, if_neg (Ne.symm other)] at there
    by_contra alive
    have mem := sweep.rest key' r there (by simp [mine', of, alive])
    cases mem
  · rw [after] at changed
    split at changed
    · rename_i same
      exact .inr (by simp [same])
    · exact (((sweep.rows key').resolve_left changed).1).among fun l mem => by simp [mem]

theorem forgot_password_ends (email token : Text) (now : Time) :
    Ends Db.apply tokenPeers (tokenPost env (.forgot email token now))
      (forgot_password env email token now) fin [] [] := by
  have nothing : ∀ held, TokensCommitted fin [] held := fun held =>
    tokens_untouched fun w mem => by cases mem
  refine .query fun db _ => ?_
  split
  · exact ⟨nothing _, rfl⟩
  · rename_i user_id user _
    split
    · refine selectForUpdate_ends ⟨nothing _, rfl⟩ fun db' _ => ?_
      split
      · exact ⟨nothing _, rfl⟩
      · refine updateTokens_ends (List.mem_singleton.mpr rfl) (fun key r _ r' => by simp)
          (fun key r row _ => rfl) fun pending held' kept sweep => ?_
        refine .insertNew (fun _ _ _ => trivial) fun db'' allowed free => ?_
        refine .bind (.acquire (.query fun db _ => ?_))
        split
        · exact ⟨renewed sweep (kept _ (by simp)) allowed free rfl, rfl⟩
        · trivial
    · exact ⟨nothing _, rfl⟩

/-- The token is used, and the other open tokens of the user are closed. -/
theorem redeemed {token password : Text} {now at_ : Time} {record : PasswordResetToken}
    {password_hash : Text} {pending written : List Write} {held : Held Resource}
    (row : fin.tokenAt (env.hash_token token) = some record) (alive : record.isOpen = true)
    (sweep : TokenSweep (fun key r => r.user_id == record.user_id && key != env.hash_token token &&
        r.used_at.isNone && r.invalidated_at.isNone) fin
      [.setPassword record.user_id password_hash at_, .useToken (env.hash_token token) at_] []
      pending held)
    (spared : ∀ w ∈ written, w.sparesTokens = true)
    (mine : (.token (env.hash_token token), .update) ∈ held) :
    tokenPost env (.reset token password now) (.ok (.revoked (.user record.user_id))) fin
      (pending ++ written) held := by
  have after : ∀ key, (view Db.apply fin (pending ++ written)).tokenAt key =
      tokenAfter pending key (fin.tokenAt key) := by
    intro key
    rw [view_token, tokenAfter_append, tokenAfter_spared spared]
  have base : ∀ key, tokenAfter [.setPassword record.user_id password_hash at_,
      .useToken (env.hash_token token) at_] key (fin.tokenAt key) =
        if env.hash_token token = key then (fin.tokenAt key).map (·.use at_) else fin.tokenAt key :=
    fun key => rfl
  have settles : ∀ key, Settles (fin.tokenAt key) (tokenAfter pending key (fin.tokenAt key)) := by
    intro key
    refine .trans ?_ (sweep.settles key)
    rw [base]
    split
    · rename_i same
      rw [← same, row]
      exact .inr ⟨record, _, rfl, rfl, spent_use record at_⟩
    · exact .inl rfl
  refine ⟨⟨.settle fun key => by rw [after]; exact settles key, fun key changed => ?_⟩, record, row,
    alive, rfl, fun key r there of => ?_⟩
  · by_cases same : env.hash_token token = key
    · exact .inr (same ▸ mine)
    · rw [after] at changed
      refine ((sweep.rows key).resolve_left fun unchanged => changed ?_).1
      rw [unchanged, base, if_neg same]
  · by_contra alive'
    rw [after] at there
    by_cases same : env.hash_token token = key
    · obtain ⟨used, here, spent⟩ := (sweep.settles key).back there
      rw [base, if_pos same, ← same, row] at here
      obtain rfl := Option.some.inj here
      have open_used := spent.closed (Bool.not_eq_false _ ▸ alive')
      simp [PasswordResetToken.isOpen, PasswordResetToken.use] at open_used
    · have alive'' : r.used_at = none ∧ r.invalidated_at = none := by
        simpa [PasswordResetToken.isOpen] using alive'
      have mem := sweep.rest key r there (by simp [of, Ne.symm same, alive''])
      cases mem

theorem reset_password_ends (token password : Text) (now : Time) :
    Ends Db.apply tokenPeers (tokenPost env (.reset token password now))
      (reset_password env token password now) fin [] [] := by
  unfold reset_password
  split
  · trivial
  · refine selectForUpdate_ends trivial fun db allowed => ?_
    split
    · trivial
    · rename_i record here
      have row : fin.tokenAt (env.hash_token token) = some record :=
        (allowed.locked _ (.inr (by simp))).trans here
      split
      · trivial
      · rename_i still_open
        split
        · trivial
        · refine selectForUpdate_ends trivial fun db' allowed' => ?_
          split
          · trivial
          · rename_i user _
            have alive : record.isOpen = true := by simpa [PasswordResetToken.isOpen] using still_open
            refine updateTokens_ends (List.mem_cons_self ..) (fun key r matches_ r' => ?_)
              (fun key r row matches_ => ?_) fun pending held' kept sweep => ?_
            · have other : key ≠ env.hash_token token := by
                simp only [Bool.and_eq_true, bne_iff_ne, ne_eq] at matches_
                exact matches_.1.1.2
              simp [PasswordResetToken.isOpen, other, and_assoc]
            · have other : env.hash_token token ≠ key := by
                simp only [Bool.and_eq_true, bne_iff_ne, ne_eq] at matches_
                exact Ne.symm matches_.1.1.2
              simp [tokenAfter, Write.onToken, other]
            · refine revoke_all_sessions_ends fun written held'' spared kept' => ?_
              exact redeemed row alive (sweep.among kept') spared
                (kept' _ (kept _ (by simp)))

end

theorem tokenCall_ends (env : Environment) (call : TokenCall) (fin : Db) :
    Ends Db.apply tokenPeers (tokenPost env call) (call.program env) fin [] [] := by
  cases call with
  | forgot email token now => exact forgot_password_ends email token now
  | reset token password now => exact reset_password_ends token password now
  | change user_id current_password new_password now =>
      exact change_password_ends user_id current_password new_password now

/-! ## Runs -/

def tokenCalls (env : Environment) (call : Pid → TokenCall) (db : Db) : World :=
  .initial db fun pid => (call pid).program env

/-- No two resets with one token have both committed. -/
def RedeemedOnce (env : Environment) (call : Pid → TokenCall) (s : World) : Prop :=
  ∀ p q token token' password password' now now' o o', p ≠ q →
    call p = .reset token password now → call q = .reset token' password' now' →
    env.hash_token token = env.hash_token token' → s.proc p = .committed o →
    s.proc q ≠ .committed o'

/-- A call is about to commit a new password of the user. -/
def PasswordChange (s : World) (pid : Pid) (user_id : UserId) : Prop :=
  ∃ pending, s.proc pid = .running (.done (.revoked (.user user_id))) pending

/-- When `change_password` commits, no token of its user is open. -/
def ChangedWithoutOpen (call : Pid → TokenCall) (s : World) (e : Transactions.Event) : Prop :=
  ∀ pid user_id current_password new_password now, e = .step pid →
    call pid = .change user_id current_password new_password now →
    PasswordChange s pid user_id → AllClosed user_id s.db.tokenAt

structure TokensSound (env : Environment) (call : Pid → TokenCall) (s : World) : Prop where
  heading : Heading Db.apply (fun _ => tokenPeers) (fun pid => tokenPost env (call pid)) s
  oneOpen : OneOpen s.db.tokenAt
  spent : ∀ pid token password now o, call pid = .reset token password now →
    s.proc pid = .committed o →
    ∃ r, s.db.tokenAt (env.hash_token token) = some r ∧ r.isOpen = false
  once : RedeemedOnce env call s

section

variable {env : Environment} {call : Pid → TokenCall} {s : World}

theorem TokensCommitted.others {fin : Db} {pending : List Write} {held held' : Held Resource}
    (h : TokensCommitted fin pending held) (apart : Compatible held held') :
    TokenOthers held' fin (view Db.apply fin pending) where
  users id := view_contains_user fin pending id
  locked key theirs := by
    by_contra changed
    exact apart.writable (h.locked key changed) theirs
  spent _ _ here := h.turn.forth here
  noNew id theirs key r there of alive := by
    cases h.turn with
    | settle rows =>
        obtain ⟨old, here, spent⟩ := (rows key).back there
        exact ⟨old, here, spent.user.symm.trans of, spent.closed alive⟩
    | renew new record locked free added rows alone =>
        by_cases isNew : key = new
        · rw [isNew, added] at there
          obtain rfl := Option.some.inj there
          cases apart _ _ _ (of ▸ locked) theirs
        · obtain ⟨old, here, spent⟩ := (rows key isNew).back there
          exact ⟨old, here, spent.user.symm.trans of, spent.closed alive⟩

theorem TokensSound.committed (h : TokensSound env call s) {pid : Pid} {o : Outcome}
    {pending : List Write} (at_ : s.proc pid = .running (.done o) pending) :
    tokenPost env (call pid) (.ok o) s.db pending (s.held pid) :=
  h.heading.post_of_done at_

/-- A reset that commits finds its token open. -/
theorem TokensSound.found_open (h : TokensSound env call s) {pid : Pid} {o : Outcome}
    {pending : List Write} (at_ : s.proc pid = .running (.done o) pending) {token password : Text}
    {now : Time} (calls : call pid = .reset token password now) :
    Redeemed (env.hash_token token) o s.db pending := by
  have post := (h.committed at_).2
  rwa [calls] at post

theorem TokensSound.stays_closed (h : TokensSound env call s) (e : Transactions.Event) {key : Text}
    {r : PasswordResetToken} (here : s.db.tokenAt key = some r) (closed : r.isOpen = false) :
    ∃ r', (s.step Db.apply e).db.tokenAt key = some r' ∧ r'.isOpen = false := by
  rcases s.step_cases Db.apply e with ⟨pid, o, pending, -, at_, stepped⟩ | ⟨same, -⟩
  · obtain ⟨r', there, spent⟩ := (h.committed at_).1.turn.forth here
    refine ⟨r', by rw [stepped]; exact there, Bool.eq_false_iff.mpr fun alive => ?_⟩
    rw [spent.closed alive] at closed
    cases closed
  · exact ⟨r, by rw [same]; exact here, closed⟩

theorem TokensSound.step (h : TokensSound env call s) (e : Transactions.Event) :
    TokensSound env call (s.step Db.apply e) := by
  have heading := h.heading.step e fun pid o pending _ at_ q t pending' other there =>
    (h.committed at_).1.others fun _ _ _ hp hq => h.heading.compatible (Ne.symm other) hp hq
  have closed : ∀ pid token password now o, call pid = .reset token password now →
      (s.step Db.apply e).proc pid = .committed o →
      ∃ r, (s.step Db.apply e).db.tokenAt (env.hash_token token) = some r ∧ r.isOpen = false := by
    intro pid token password now o calls ended
    rcases committed_cases ended with before | ⟨pending, -, at_, after⟩
    · obtain ⟨r, here, closed⟩ := h.spent pid token password now o calls before
      exact h.stays_closed e here closed
    · obtain ⟨r, here, -, -, dead⟩ := h.found_open at_ calls
      obtain ⟨r', there, spent⟩ := (h.committed at_).1.turn.forth here
      exact ⟨r', by rw [after]; exact there, dead _ r' there spent.user⟩
  refine ⟨heading, ?_, closed, ?_⟩
  · rcases s.step_cases Db.apply e with ⟨pid, o, pending, -, at_, stepped⟩ | ⟨same, -⟩
    · rw [stepped]
      exact (h.committed at_).1.turn.oneOpen h.oneOpen
    · rw [same]
      exact h.oneOpen
  · -- of two resets with one token, the later one would have found it closed
    intro p q token token' password password' now now' o o' other calls calls' same ended ended'
    have late : ∀ {p q token token' password password' now now' o pending},
        call p = .reset token password now → call q = .reset token' password' now' →
        env.hash_token token = env.hash_token token' → s.proc p = .committed o →
        ∀ {o'}, s.proc q ≠ .running (.done o') pending := by
      intro p q token token' password password' now now' o pending calls calls' same ended o' at_
      obtain ⟨r, here, closed⟩ := h.spent p token password now o calls ended
      obtain ⟨r', here', alive, -⟩ := h.found_open at_ calls'
      rw [same, here'] at here
      rw [Option.some.inj here, closed] at alive
      cases alive
    rcases committed_cases ended with before | ⟨pending, rfl, at_, -⟩
    · rcases committed_cases ended' with before' | ⟨pending', -, at_', -⟩
      · exact h.once p q token token' password password' now now' o o' other calls calls' same before
          before'
      · exact late calls calls' same before at_'
    · rcases committed_cases ended' with before' | ⟨pending', is_step, -, -⟩
      · exact late calls' calls same.symm before' at_
      · exact other (Transactions.Event.step.inj is_step)

theorem TokensSound.throughout (h : TokensSound env call s) (events : List Transactions.Event) :
    TokensSound env call (run (State.step Db.apply) s events) :=
  run_invariant (fun _ e h => h.step e) h events

/-- A reset that has not committed when its token is closed never commits. -/
theorem TokensSound.barred (h : TokensSound env call s) {q : Pid} {token password : Text} {now : Time}
    (calls : call q = .reset token password now) {r : PasswordResetToken}
    (here : s.db.tokenAt (env.hash_token token) = some r) (closed : r.isOpen = false)
    (unfinished : ∀ o, s.proc q ≠ .committed o) (events : List Transactions.Event) (o : Outcome) :
    (run (State.step Db.apply) s events).proc q ≠ .committed o := by
  suffices TokensSound env call (run (State.step Db.apply) s events) ∧
      (∃ r, (run (State.step Db.apply) s events).db.tokenAt (env.hash_token token) = some r ∧
        r.isOpen = false) ∧
      ∀ o, (run (State.step Db.apply) s events).proc q ≠ .committed o from this.2.2 o
  refine run_invariant (I := fun s : World => TokensSound env call s ∧
    (∃ r, s.db.tokenAt (env.hash_token token) = some r ∧ r.isOpen = false) ∧
      ∀ o, s.proc q ≠ .committed o) ?_ ⟨h, ⟨r, here, closed⟩, unfinished⟩ events
  rintro s e ⟨h, ⟨r, here, closed⟩, unfinished⟩
  refine ⟨h.step e, h.stays_closed e here closed, fun o ended => ?_⟩
  rcases committed_cases ended with before | ⟨pending, -, at_, -⟩
  · exact unfinished o before
  · obtain ⟨r', here', alive, -⟩ := h.found_open at_ calls
    obtain rfl := Option.some.inj (here.symm.trans here')
    rw [closed] at alive
    cases alive

theorem tokens_begin (env : Environment) (call : Pid → TokenCall) {db : Db}
    (start : OneOpen db.tokenAt) : TokensSound env call (tokenCalls env call db) where
  heading := .initial db _ fun pid fin _ => tokenCall_ends env (call pid) fin
  oneOpen := start
  spent _ _ _ _ _ _ ended := by cases ended
  once _ _ _ _ _ _ _ _ _ _ _ _ _ _ ended := by cases ended

/-- When a password change commits, all that was issued before is closed. -/
theorem TokensSound.closes (h : TokensSound env call s) {pid : Pid} {user_id : UserId}
    (changes : PasswordChange s pid user_id)
    (quiet : ChangedWithoutOpen call s (.step pid)) {key : Text} {r : PasswordResetToken}
    (here : s.db.tokenAt key = some r) (of : r.user_id = user_id) :
    ∃ r', (s.step Db.apply (.step pid)).db.tokenAt key = some r' ∧ r'.isOpen = false := by
  obtain ⟨pending, at_⟩ := id changes
  have committed := h.committed at_
  obtain ⟨r', there, spent⟩ := committed.1.turn.forth here
  have after : (s.step Db.apply (.step pid)).db = view Db.apply s.db pending := by
    simp only [State.step, at_]
  refine ⟨r', by rw [after]; exact there, ?_⟩
  cases calls : call pid with
  | forgot email token now =>
      rw [calls] at committed
      cases committed.2
  | reset token password now =>
      obtain ⟨record, -, -, same, dead⟩ := h.found_open at_ calls
      cases same
      exact dead key r' there (spent.user.trans of)
  | change user_id' current_password new_password now =>
      rw [calls] at committed
      cases committed.2
      have closed := quiet pid _ _ _ _ rfl calls changes key r here of
      refine Bool.eq_false_iff.mpr fun alive => ?_
      rw [spent.closed alive] at closed
      cases closed

end

/-- After a password change, no token issued before it changes the password again: a
    reset with such a token that has not committed by then never does. -/
def OldTokensBarred (env : Environment) (call : Pid → TokenCall) (db : Db)
    (events : List Transactions.Event) : Prop :=
  ∀ before pid after user_id, events = before ++ .step pid :: after →
    let s := run (State.step Db.apply) (tokenCalls env call db) before
    let s' := run (State.step Db.apply) (tokenCalls env call db) events
    PasswordChange s pid user_id → ∀ q token password now r, q ≠ pid →
      call q = .reset token password now → s.db.tokenAt (env.hash_token token) = some r →
      r.user_id = user_id → (∀ o, s.proc q ≠ .committed o) → ∀ o, s'.proc q ≠ .committed o

/-- Reset tokens in every run in which no password is changed beside an open one -/
theorem reset_tokens (env : Environment) (call : Pid → TokenCall) (db : Db)
    (start : OneOpen db.tokenAt) (events : List Transactions.Event)
    (quiet : Along (State.step Db.apply) (ChangedWithoutOpen call) (tokenCalls env call db) events) :
    let s := run (State.step Db.apply) (tokenCalls env call db) events
    OneOpen s.db.tokenAt ∧ RedeemedOnce env call s ∧ OldTokensBarred env call db events := by
  intro s
  have sound := tokens_begin env call start
  refine ⟨(sound.throughout events).oneOpen, (sound.throughout events).once, ?_⟩
  intro before pid after user_id split s₀ s' changes q token password now r other calls here of
    unfinished o
  subst split
  have h : TokensSound env call s₀ := sound.throughout before
  have quiet' := ((along_append _ _ _ _).mp quiet).2.1
  obtain ⟨r', there, closed⟩ := h.closes changes quiet' here of
  have kept : ∀ o, (s₀.step Db.apply (.step pid)).proc q ≠ .committed o := by
    intro o' ended'
    rcases committed_cases ended' with before' | ⟨pending, is_step, -, -⟩
    · exact unfinished o' before'
    · exact other (Transactions.Event.step.inj is_step).symm
  have barred := (h.step (.step pid)).barred calls there closed kept after o
  simpa only [s', s₀, run_append, run_cons] using barred

/-! A token that is issued and redeemed, and comes back -/

def issueAndRedeem : Pid → TokenCall
  | 0 => .forgot (text "u@x") (text "T") 10
  | _ => .reset (text "T") (text "correct horse") 20

def redeemTwice : List Transactions.Event :=
  List.replicate 9 (Transactions.Event.step 0) ++ List.replicate 14 (Transactions.Event.step 1) ++
    List.replicate 20 (Transactions.Event.step 2)

def redeemedWorld : World :=
  run (State.step Db.apply) (tokenCalls plainEnvironment issueAndRedeem oneSession) redeemTwice

theorem oneSession_oneOpen : OneOpen oneSession.tokenAt := by
  intro key key' r r' here
  have none_yet : oneSession.tokenAt key = none := Table.get_empty key
  rw [none_yet] at here
  cases here

set_option maxRecDepth 10000 in
theorem reset_tokens_redeemed :
    redeemedWorld.proc 1 = .committed (.revoked (.user (text "u"))) ∧
      ∀ o, redeemedWorld.proc 2 ≠ .committed o := by
  have first : redeemedWorld.proc 1 = .committed (.revoked (.user (text "u"))) := rfl
  have quiet : Along (State.step Db.apply) (ChangedWithoutOpen issueAndRedeem)
      (tokenCalls plainEnvironment issueAndRedeem oneSession) redeemTwice := by
    refine along_of_always (fun s e pid user_id current_password new_password now _ calls => ?_) _ _
    cases pid <;> cases calls
  have once : RedeemedOnce plainEnvironment issueAndRedeem redeemedWorld :=
    (reset_tokens plainEnvironment issueAndRedeem oneSession oneSession_oneOpen redeemTwice quiet).2.1
  exact ⟨first, fun o => once 1 2 _ _ _ _ _ _ _ o (by decide) rfl rfl rfl first⟩

/-! The mail is sent, the owner changes the password, and the link in the mail still works. -/

def changeBesideOpen : Pid → TokenCall
  | 0 => .forgot (text "u@x") (text "T") 10
  | 1 => .change (text "u") (text "secret") (text "battery staple") 20
  | _ => .reset (text "T") (text "correct horse") 30

def untilChange : List Transactions.Event :=
  List.replicate 9 (Transactions.Event.step 0) ++ List.replicate 7 (Transactions.Event.step 1)

def mailChangeReset : List Transactions.Event :=
  untilChange ++ .step 1 :: List.replicate 14 (Transactions.Event.step 2)

set_option maxRecDepth 10000 in
theorem change_password_leaves_tokens :
    OneOpen oneSession.tokenAt ∧
      ¬OldTokensBarred plainEnvironment changeBesideOpen oneSession mailChangeReset := by
  refine ⟨oneSession_oneOpen, fun barred => ?_⟩
  refine barred untilChange 1 (List.replicate 14 (.step 2)) (text "u") rfl ⟨_, rfl⟩ 2 (text "T") _ _
    { user_id := text "u", expires_at := 1810, used_at := none, invalidated_at := none }
    (by decide) rfl (by decide) rfl (fun o ended => ?_) (.revoked (.user (text "u"))) rfl
  cases ended

end PackageRegistry.Auth
