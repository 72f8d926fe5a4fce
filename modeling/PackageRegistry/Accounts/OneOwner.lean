import PackageRegistry.Accounts.Identities

/-! # An identity has one owner

Along a run of logins, links, unlinks, deactivations and deletions, an identity of another
provider belongs to one user at a time. It goes to somebody else only after its owner has given it up, and
whoever logs in with it is signed in as its owner.
-/

namespace PackageRegistry.Accounts

open Transactions Relational Runs Ownership
open PackageRegistry.Auth (UserId Time AuthError)

abbrev OAuthService := Service Db Lock (Write Row) Sql (Failure AuthError) OAuthDone

abbrev OAuthLog := List (Pid × OAuthDone)

section

variable (env : Environment) (call : Pid → OAuthCall)

def oauthService (db : Db) : OAuthService := .initial db fun pid => (call pid).job env

/-! ## The ids of accounts -/

/-- The ids of new accounts are new: no other call uses them, and no row had them. -/
structure FreshAccounts (start : Db) : Prop where
  distinct : ∀ pid pid' key t t', (call pid).account env = some (key, t) →
    (call pid').account env = some (key, t') → pid = pid'
  unused : ∀ pid key t, (call pid).account env = some (key, t) →
    start.row .user_oauth_accounts key = none

/-- The account was there at the start, or a call may add it. -/
def Stands (start : Db) (key : Text) (title : Title) : Prop :=
  (∃ account, start.row .user_oauth_accounts key = some account ∧ account.title = title) ∨
    ∃ pid, (call pid).account env = some (key, title)

/-! ## What the log has seen, latest first -/

def movesOf (log : OAuthLog) : List (Move ProviderIdentity UserId) :=
  log.map fun entry => (call entry.1).move env entry.2

/-- What all of them may have done -/
def logEffect (log : OAuthLog) : Effect where
  opens key title := ∃ entry ∈ log, ((call entry.1).effect env entry.2).opens key title
  closes title := ∃ entry ∈ log, ((call entry.1).effect env entry.2).closes title
  touches u := ∃ entry ∈ log, ((call entry.1).effect env entry.2).touches u
  creates u := ∃ entry ∈ log, ((call entry.1).effect env entry.2).creates u

structure OwnersKept (start : Db) (s : OAuthService) : Prop where
  serving : Serving Database.apply (fun _ => peers identityNeeds (conforming (Stands env call start)))
    (fun pid => oauthEnds env (Stands env call start) (call pid)) s
  conforms : Conforms (Stands env call start) s.state.db
  one : OneOwner s.state.db
  replays : Replays (ownerOf start) (movesOf env call s.log) (ownerOf s.state.db)
  across : (titles (logEffect env call s.log)).Across start s.state.db
  answered : ∀ pid u user, (pid, .returned u user) ∈ s.log →
    ∃ new_user, (pid, .authenticated u new_user) ∈ s.log

end

section

variable {env : Environment} {call : Pid → OAuthCall} {start a b : Db} {log : OAuthLog} {pid : Pid}
  {done : OAuthDone} {s : OAuthService}

/-- An id stands for one account. -/
theorem FreshAccounts.unique (fresh : FreshAccounts env call start) :
    Unambiguous (Stands env call start) := by
  intro key t t' h h'
  rcases h with ⟨account, was, rfl⟩ | ⟨pid, adds⟩
  · rcases h' with ⟨account', was', rfl⟩ | ⟨pid', adds'⟩
    · obtain rfl := Option.some.inj (was.symm.trans was')
      rfl
    · rw [fresh.unused pid' key t' adds'] at was
      cases was
  · rcases h' with ⟨account', was', rfl⟩ | ⟨pid', adds'⟩
    · rw [fresh.unused pid key t adds] at was'
      cases was'
    · obtain rfl := fresh.distinct pid pid' key t t' adds adds'
      exact congrArg Prod.snd (Option.some.inj (adds.symm.trans adds'))

theorem logEffect_tail : (logEffect env call log).Within (logEffect env call ((pid, done) :: log)) := by
  refine ⟨fun _ _ h => ?_, fun _ h => ?_, fun _ h => ?_, fun _ h => ?_⟩
  all_goals
    obtain ⟨entry, mem, did⟩ := h
    exact ⟨entry, List.mem_cons_of_mem _ mem, did⟩

theorem logEffect_head :
    ((call pid).effect env done).Within (logEffect env call ((pid, done) :: log)) :=
  ⟨fun _ _ did => ⟨_, List.mem_cons_self, did⟩, fun _ did => ⟨_, List.mem_cons_self, did⟩,
    fun _ did => ⟨_, List.mem_cons_self, did⟩, fun _ did => ⟨_, List.mem_cons_self, did⟩⟩

/-- The accounts after a call are the ones that their ids stand for. -/
theorem Conforms.commit (h : Conforms (Stands env call start) a)
    (across : (titles ((call pid).effect env done)).Across a b) :
    Conforms (Stands env call start) b := by
  intro key account there
  rcases (across .user_oauth_accounts key).2 account there with ⟨before, here, same⟩ | opened
  · exact same ▸ h key before here
  · exact .inr ⟨pid, effect_opens opened⟩

/-! ## Runs -/

/-- A move that is found belongs to an entry of the log. -/
theorem entry_of_move {p : Move ProviderIdentity UserId → Prop}
    (h : ∃ m ∈ movesOf env call log, p m) :
    ∃ entry ∈ log, p ((call entry.1).move env entry.2) := by
  obtain ⟨m, mem, holds⟩ := h
  obtain ⟨entry, logged, rfl⟩ := List.mem_map.mp mem
  exact ⟨entry, logged, holds⟩

theorem mem_results {u : OAuthDone} : u ∈ s.results pid ↔ (pid, u) ∈ s.log := by
  simp [Service.results]

theorem OwnersKept.step (h : OwnersKept env call start s) (e : Event) :
    OwnersKept env call start (s.step Database.apply e) := by
  have serving := serving_step h.serving e (fun _ _ _ post => (post h.conforms).covered.lawful)
    fun _ _ _ _ _ _ _ _ => h.conforms
  rcases s.step_cases Database.apply e with ⟨pid, done, pending, -, at_, db, log⟩ | ⟨db, log⟩
  · have ended := h.serving.post_of_done at_ h.conforms
    have across := ended.far.across
    have moved := commit_moves h.one across ended.shows
    have together : (titles (logEffect env call ((pid, done) :: s.log))).Across start
        (view Database.apply s.state.db pending) :=
      (across_mono logEffect_tail h.across).trans (across_mono logEffect_head across)
    refine ⟨serving, ?_, ?_, ?_, ?_, ?_⟩
    · rw [db]
      exact h.conforms.commit across
    · rw [db]
      exact moved.1
    · rw [db, log]
      exact .cons h.replays moved.2
    · rw [db, log]
      exact together
    · rw [log]
      intro pid' u user mem
      rcases List.mem_cons.mp mem with new | old
      · obtain ⟨rfl, same⟩ := Prod.mk.inj new
        obtain ⟨new_user, earlier⟩ := ended.returned u user same.symm
        exact ⟨new_user, List.mem_cons_of_mem _ (mem_results.mp earlier)⟩
      · obtain ⟨new_user, earlier⟩ := h.answered pid' u user old
        exact ⟨new_user, List.mem_cons_of_mem _ earlier⟩
  · refine ⟨serving, ?_, ?_, ?_, ?_, ?_⟩
    · rw [db]
      exact h.conforms
    · rw [db]
      exact h.one
    · rw [db, log]
      exact h.replays
    · rw [db, log]
      exact h.across
    · rw [log]
      exact h.answered

theorem OwnersKept.initial (lowers : Lowers env) (fresh : FreshAccounts env call start)
    (one : OneOwner start) : OwnersKept env call start (oauthService env call start) where
  serving := .initial start _ fun pid => oauthJob_ends lowers fresh.unique (call pid)
  conforms key account here := .inl ⟨account, here, rfl⟩
  one := one
  replays := .nil
  across := .refl
  answered _ _ _ mem := by cases mem

end

theorem identities_owned (env : Environment) (call : Pid → OAuthCall) (db : Db) (lowers : Lowers env)
    (fresh : FreshAccounts env call db) (one : OneOwner db) (events : List Event) :
    let s := run (Service.step Database.apply) (oauthService env call db) events
    OneOwner s.state.db ∧
      (∀ i u, Owner db i u → Owner s.state.db i u ∨
        ∃ entry ∈ s.log, ((call entry.1).move env entry.2).releases i u) ∧
      (∀ i u, Owner s.state.db i u → Owner db i u ∨
        ∃ entry ∈ s.log, ((call entry.1).move env entry.2).names i u) ∧
      (∀ pid identity clock new u new_user later newer earlier before v,
        call pid = .authenticate identity clock new →
        s.log = later ++ (pid, .authenticated u new_user) :: (newer ++ earlier :: before) →
        ((call earlier.1).move env earlier.2).names (identity.key env) v →
        u = v ∧ new_user = false ∨
          ∃ entry ∈ newer, ((call entry.1).move env entry.2).releases (identity.key env) v) ∧
      (∀ u, (s.state.db.row .users u = db.row .users u ∨
          ∃ entry ∈ s.log, ((call entry.1).effect env entry.2).touches u) ∧
        (db.row .users u = none → s.state.db.row .users u = none ∨
          ∃ entry ∈ s.log, ((call entry.1).effect env entry.2).creates u)) ∧
      ∀ pid u user, (pid, .returned u user) ∈ s.log →
        ∃ new_user, (pid, .authenticated u new_user) ∈ s.log := by
  intro s
  have kept : OwnersKept env call db s :=
    run_invariant (I := OwnersKept env call db) (fun _ e h => h.step e) (.initial lowers fresh one) events
  refine ⟨kept.one, fun i u owned => ?_, fun i u owned => ?_, ?_, kept.across .users, kept.answered⟩
  · exact (kept.replays.keeps ((ownerOf_represents one i u).mpr owned)).imp
      (ownerOf_represents kept.one i u).mp entry_of_move
  · exact (kept.replays.origin ((ownerOf_represents kept.one i u).mpr owned)).imp
      (ownerOf_represents one i u).mp entry_of_move
  · intro pid identity clock new u new_user later newer earlier before v is_login log names
    have replays := kept.replays
    rw [log] at replays
    simp only [movesOf, List.map_append, List.map_cons, is_login] at replays
    obtain ⟨r, until_login, -⟩ := replays.split
    exact (until_login.agree names).imp_right entry_of_move

/-! Two first logins with one identity, at the same time: the second one fails on the address
    of the first one's user, and then signs this user in. -/

def octocat : OAuthIdentity where
  provider := text "github"
  subject := text "1"
  email := some (text "c")
  email_verified := true
  username := none
  avatar_url := none
  profile_url := none

def racingLogins : Pid → OAuthCall
  | 0 => .authenticate octocat (fun _ => 10) ⟨text "u0", text "k0", text "l0"⟩
  | 1 => .authenticate octocat (fun _ => 11) ⟨text "u1", text "k1", text "l1"⟩
  | _ => .unlink (text "a") (text "github") (text "l2")

def bothFirst : List Event :=
  List.replicate 3 (Event.step 0) ++ List.replicate 3 (Event.step 1) ++ List.replicate 30 (Event.step 0) ++
    List.replicate 40 (Event.step 1)

def afterRace : OAuthService :=
  run (Service.step Database.apply) (oauthService plainEnvironment racingLogins twoSuperusers) bothFirst

def OAuthDone.login : OAuthDone → Option (UserId × Bool)
  | .authenticated user_id new_user => some (user_id, new_user)
  | _ => none

def logins (log : OAuthLog) : List (Pid × UserId × Bool) :=
  log.filterMap fun entry => entry.2.login.map (Prod.mk entry.1)

theorem racingLogins_account {pid : Pid} {key : Text} {t : Title}
    (h : (racingLogins pid).account plainEnvironment = some (key, t)) :
    pid = 0 ∧ text "k0" = key ∨ pid = 1 ∧ text "k1" = key := by
  unfold racingLogins at h
  split at h
  · exact .inl ⟨rfl, congrArg Prod.fst (Option.some.inj h)⟩
  · exact .inr ⟨rfl, congrArg Prod.fst (Option.some.inj h)⟩
  · cases h

theorem racingLogins_fresh : FreshAccounts plainEnvironment racingLogins twoSuperusers where
  distinct pid pid' key t t' adds adds' := by
    rcases racingLogins_account adds with ⟨rfl, here⟩ | ⟨rfl, here⟩
    · rcases racingLogins_account adds' with ⟨rfl, -⟩ | ⟨rfl, there⟩
      · rfl
      · exact absurd (here.trans there.symm) (by decide)
    · rcases racingLogins_account adds' with ⟨rfl, there⟩ | ⟨rfl, -⟩
      · exact absurd (here.trans there.symm) (by decide)
      · rfl
  unused _ _ _ _ := rfl

theorem twoSuperusers_oneOwner : OneOwner twoSuperusers := by
  intro i u v first _
  obtain ⟨key, account, here, -⟩ := first
  have none_there : twoSuperusers.row .user_oauth_accounts key = none := rfl
  rw [none_there] at here
  cases here

set_option maxRecDepth 10000 in
theorem identities_owned_here :
    logins afterRace.log = [(1, text "u0", false), (0, text "u0", true)] ∧ OneOwner afterRace.state.db :=
  ⟨by decide +kernel, (identities_owned plainEnvironment racingLogins twoSuperusers ⟨rfl, rfl⟩
    racingLogins_fresh twoSuperusers_oneOwner bothFirst).1⟩

end PackageRegistry.Accounts
