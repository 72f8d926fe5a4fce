import PackageRegistry.Browser.AuthPlugin

/-! # Logging out is final

The generation counts the sign-ins and sign-outs, and `refresh` writes the user only in
the generation in which it was called. `load` and `login` write the user in any
generation, and `raw` gives the session up in any generation.
-/

namespace PackageRegistry.Browser

open Runs

/-! ## Answers -/

/-- What an answer makes `raw` throw -/
def thrown : Option Response → Option Failure
  | none => some .other
  | some response => if 400 ≤ response.status then some (.auth response.error) else none

/-- The answer carries a code after which `raw` gives the session up. -/
def endsSession : Option Response → Bool
  | none => false
  | some response => 400 ≤ response.status && sessionEnding.contains (orElse response.code [])

/-- The state in which an answer leaves `raw` -/
def State.ended (s : State) (response : Option Response) : State :=
  if endsSession response then s.signOut else s

theorem raw_of_thrown (s : State) {response : Option Response} {failure : Failure}
    (fails : thrown response = some failure) :
    s.raw response = (.error failure, s.ended response) := by
  rw [State.ended]
  cases response with
  | none => cases fails; rfl
  | some response =>
      rw [thrown] at fails
      split at fails
      · rename_i error
        cases fails
        simp [State.raw, endsSession, error]
      · cases fails

theorem raw_of_answered (s : State) {response : Option Response}
    (succeeds : thrown response = none) :
    ∃ answer, response = some answer ∧ s.raw response = (.ok answer.body, s) := by
  cases response with
  | none => cases succeeds
  | some response =>
      rw [thrown] at succeeds
      split at succeeds
      · cases succeeds
      · rename_i fine
        exact ⟨response, rfl, by simp [State.raw, fine]⟩

/-! ## Generations -/

/-- A refresh in flight was called in this generation or before. -/
def State.Sound (s : State) : Prop :=
  ∀ r, s.refreshPromise = some r → r.started ≤ s.generation

structure Onward (s s' : State) : Prop where
  generation : s.generation ≤ s'.generation
  sound : s.Sound → s'.Sound

theorem Onward.refl (s : State) : Onward s s := ⟨Nat.le_refl _, id⟩

theorem Onward.trans {a b c : State} (first : Onward a b) (second : Onward b c) : Onward a c :=
  ⟨first.generation.trans second.generation, fun sound => second.sound (first.sound sound)⟩

/-- Neither the generation nor the refresh changes. -/
theorem onward_of_eq {s s' : State} (generation : s'.generation = s.generation)
    (refreshPromise : s'.refreshPromise = s.refreshPromise) : Onward s s' := by
  refine ⟨generation.ge, fun sound r inFlight => ?_⟩
  rw [refreshPromise] at inFlight
  have := sound r inFlight
  omega

theorem onward_signOut (s : State) : Onward s s.signOut :=
  ⟨Nat.le_succ _, fun sound r inFlight => Nat.le_succ_of_le (sound r inFlight)⟩

theorem onward_apply (s : State) (user : AuthUser) : Onward s (s.apply user) :=
  onward_of_eq rfl rfl

/-- `login` begins a generation before it reads the body. -/
theorem onward_next (s : State) : Onward s { s with generation := s.generation + 1 } :=
  ⟨Nat.le_succ _, fun sound r inFlight => Nat.le_succ_of_le (sound r inFlight)⟩

theorem onward_move (s : State) (index : Nat) (point : Point) : Onward s (s.move index point) :=
  onward_of_eq rfl rfl

theorem onward_refresh (s : State) (caller : Nat) : Onward s (s.refresh caller) := by
  rw [State.refresh]
  split
  · exact .refl s
  · refine ⟨Nat.le_refl _, fun _ r inFlight => ?_⟩
    cases inFlight
    exact Nat.le_refl _

theorem onward_settle (s : State) (outcome : Except Failure Bool) : Onward s (s.settle outcome) :=
  ⟨Nat.le_refl _, fun _ _ inFlight => by cases inFlight⟩

theorem onward_refreshFails (s : State) (r : Refresh) (failure : Failure) :
    Onward s (s.refreshFails r failure) := by
  rw [State.refreshFails]
  refine .trans ?_ (onward_settle _ _)
  split
  · exact onward_of_eq rfl rfl
  · exact .refl s

/-- The refresh of the state goes on, at another point. -/
theorem onward_point {s : State} {r : Refresh} (earlier : r.started ≤ s.generation)
    (point : RefreshPoint) :
    Onward s { s with refreshPromise := some { r with point := point } } := by
  refine ⟨Nat.le_refl _, fun _ r' inFlight => ?_⟩
  cases inFlight
  exact earlier

theorem onward_retry {s : State} {r : Refresh} (earlier : r.started ≤ s.generation) (i : Nat)
    (error : AuthError) : Onward s (s.retry r i error) := by
  rw [State.retry]
  split
  · exact onward_point earlier _
  · exact onward_refreshFails s r _

theorem onward_ended (s : State) (response : Option Response) :
    Onward s (s.ended response) := by
  rw [State.ended]
  split
  · exact onward_signOut s
  · exact .refl s

/-- The answer has a body other than that of a session. -/
def garbled : Option Response → Bool
  | none => false
  | some response =>
      match response.body with
      | .authenticated _ => false
      | _ => true

/-- The answer ends the refresh with an error of status 401 or 403: that of the answer, or
    after the last turn of the loop that with which the loop began. -/
def Refresh.refused (r : Refresh) (s : State) (response : Option Response) : Bool :=
  match r.point with
  | .sent =>
      match thrown response with
      | some (.auth error) =>
          [401, 403].contains error.status && error.code ≠ text "REFRESH_ALREADY_ROTATED"
      | _ => false
  | .session i error =>
      4 ≤ i && [401, 403].contains error.status &&
        ((thrown response).isSome || garbled response && r.started = s.generation)
  | .paused .. => false

/-- What an answer does to a refresh -/
inductive Refreshed (s : State) (r : Refresh) (response : Option Response) : State → Prop where
  | idle : Refreshed s r response s
  | outdated (succeeds : thrown response = none) (other : r.started ≠ s.generation) :
      Refreshed s r response (s.settle (.ok false))
  | applied (user : AuthUser) (succeeds : thrown response = none)
      (current : r.started = s.generation) :
      Refreshed s r response ((s.apply user).settle (.ok true))
  | retried (i : Nat) (error : AuthError) (more : i < 5) :
      Refreshed s r response
        { s.ended response with refreshPromise := some { r with point := .paused i error } }
  | failed (failure : Failure)
      (refused : failure.hasStatus [401, 403] = true → r.refused s response = true) :
      Refreshed s r response ((s.ended response).refreshFails r failure)

theorem refreshed_of_retry {s : State} {r : Refresh} {response : Option Response} {i : Nat}
    {error : AuthError}
    (refused : 5 ≤ i → [401, 403].contains error.status = true →
      r.refused s response = true) :
    Refreshed s r response ((s.ended response).retry r i error) := by
  rw [State.retry]
  split
  · rename_i more
    exact .retried i error more
  · rename_i last
    refine .failed _ fun status => refused (by omega) ?_
    simpa [Failure.hasStatus] using status

theorem ended_of_answered (s : State) {response : Option Response}
    (succeeds : thrown response = none) : s.ended response = s := by
  cases response with
  | none => cases succeeds
  | some response =>
      rw [thrown] at succeeds
      split at succeeds
      · cases succeeds
      · rename_i fine
        simp [State.ended, endsSession, fine]

theorem refreshed_of_answered {s : State} {r : Refresh} {response : Option Response}
    (succeeds : thrown response = none) : Refreshed s r response (s.refreshed r response) := by
  obtain ⟨answer, rfl, answered⟩ := raw_of_answered s succeeds
  have same := ended_of_answered s succeeds
  rw [State.refreshed, answered]
  dsimp only
  cases point : r.point with
  | sent =>
      dsimp only
      split
      · exact .outdated succeeds ‹_›
      · rename_i current
        split
        · exact .applied _ succeeds (by simpa using current)
        · have failed : Refreshed s r (some answer)
              ((s.ended (some answer)).refreshFails r .other) :=
            .failed .other (by intro status; cases status)
          rwa [same] at failed
  | session i error =>
      dsimp only
      split
      · exact .outdated succeeds ‹_›
      · rename_i current
        split
        · exact .applied _ succeeds (by simpa using current)
        · rename_i nonsense
          have other : garbled (some answer) = true := by
            cases body : answer.body with
            | authenticated user => exact absurd body (nonsense user)
            | _ => simp [garbled, body]
          have retried : Refreshed s r (some answer)
              ((s.ended (some answer)).retry r (i + 1) error) :=
            refreshed_of_retry fun last status => by
              simpa [Refresh.refused, point, other, show 4 ≤ i by omega, not_not.mp current]
                using status
          rwa [same] at retried
  | paused i error => exact .idle

theorem refreshed_of_thrown {s : State} {r : Refresh} {response : Option Response}
    {failure : Failure} (fails : thrown response = some failure) :
    Refreshed s r response (s.refreshed r response) := by
  rw [State.refreshed, raw_of_thrown s fails]
  dsimp only
  cases point : r.point with
  | sent =>
      cases failure with
      | auth error =>
          dsimp only
          split
          · exact refreshed_of_retry (by omega)
          · rename_i other
            refine .failed _ fun status => ?_
            simpa [Refresh.refused, point, fails, other, Failure.hasStatus] using status
      | other => exact .failed _ (by intro h; cases h)
  | session i error =>
      refine refreshed_of_retry fun last status => ?_
      simpa [Refresh.refused, point, fails, show 4 ≤ i by omega] using status
  | paused i error => exact .idle

theorem refreshed_cases (s : State) (r : Refresh) (response : Option Response) :
    Refreshed s r response (s.refreshed r response) := by
  cases outcome : thrown response with
  | none => exact refreshed_of_answered outcome
  | some failure => exact refreshed_of_thrown outcome

/-- What an answer does to the operation `index` that waits for it -/
inductive Answered (s : State) (index : Nat) (response : Option Response) :
    Call → State → Prop where
  | idle (call : Call) : Answered s index response call s
  | signedIn (user : AuthUser) (succeeds : thrown response = none) :
      Answered s index response .login
        (({ s with generation := s.generation + 1 }.apply user).move index .resolved)
  | challenged (challenge : MfaChallenge) (succeeds : thrown response = none) :
      Answered s index response .login
        ({ s with
            generation := s.generation + 1, user := none, challenge := some challenge }.move index
          .resolved)
  | misread (succeeds : thrown response = none) :
      Answered s index response .login
        ({ s with generation := s.generation + 1 }.move index (.rejected .other))
  | loaded (user : AuthUser) (succeeds : thrown response = none) :
      Answered s index response .load ((s.apply user).move index .resolved)
  | misloaded (succeeds : thrown response = none) :
      Answered s index response .load (s.move index (.rejected .other))
  | forbidden (fails : thrown response ≠ none) :
      Answered s index response .load
        ({ s.ended response with user := none }.move index .resolved)
  | finished (succeeds : thrown response = none) :
      Answered s index response .request (s.move index .resolved)
  | signedOut (succeeds : thrown response = none) :
      Answered s index response .logout (s.signOut.move index .resolved)
  | refreshing (call : Call) (failure : Failure) (fails : thrown response ≠ none) :
      Answered s index response call
        (((s.ended response).refresh index).move index (.refreshing failure))
  | rejected (call : Call) (failure : Failure) (fails : thrown response ≠ none) :
      Answered s index response call ((s.ended response).move index (.rejected failure))

theorem loginAnswered_cases (s : State) (index : Nat) (response : Option Response) :
    Answered s index response .login (s.loginAnswered index response) := by
  rw [State.loginAnswered]
  cases outcome : thrown response with
  | none =>
      obtain ⟨answer, rfl, answered⟩ := raw_of_answered s outcome
      rw [answered]
      dsimp only
      split
      · exact .challenged _ outcome
      · exact .signedIn _ outcome
      · exact .misread outcome
  | some failure =>
      rw [raw_of_thrown s outcome]
      exact .rejected _ failure (by simp [outcome])

theorem loadAnswered_cases (s : State) (index : Nat) (response : Option Response) :
    Answered s index response .load (s.loadAnswered index response) := by
  rw [State.loadAnswered]
  cases outcome : thrown response with
  | none =>
      obtain ⟨answer, rfl, answered⟩ := raw_of_answered s outcome
      rw [answered]
      dsimp only
      split
      · exact .loaded _ outcome
      · exact .misloaded outcome
  | some failure =>
      have fails : thrown response ≠ none := by simp [outcome]
      rw [raw_of_thrown s outcome]
      dsimp only
      split
      · exact .refreshing _ failure fails
      · split
        · exact .forbidden fails
        · exact .rejected _ failure fails

theorem requested_cases {s : State} {index : Nat} {response : Option Response} {call : Call}
    (succeeds : thrown response = none) (isRequest : call = .request ∨ call = .logout) :
    Answered s index response call (s.requested index call) := by
  rcases isRequest with rfl | rfl
  · exact .finished succeeds
  · exact .signedOut succeeds

theorem requestAnswered_cases {s : State} {index : Nat} {response : Option Response} {call : Call}
    (isRequest : call = .request ∨ call = .logout) :
    Answered s index response call (s.requestAnswered index call response) := by
  rw [State.requestAnswered]
  cases outcome : thrown response with
  | none =>
      obtain ⟨answer, rfl, answered⟩ := raw_of_answered s outcome
      rw [answered]
      exact requested_cases outcome isRequest
  | some failure =>
      have fails : thrown response ≠ none := by simp [outcome]
      rw [raw_of_thrown s outcome]
      dsimp only
      split
      · exact .refreshing _ failure fails
      · exact .rejected _ failure fails

theorem resentAnswered_cases {s : State} {index : Nat} {response : Option Response} {call : Call}
    (isRequest : call = .request ∨ call = .logout) :
    Answered s index response call (s.resentAnswered index call response) := by
  rw [State.resentAnswered]
  cases outcome : thrown response with
  | none =>
      obtain ⟨answer, rfl, answered⟩ := raw_of_answered s outcome
      rw [answered]
      exact requested_cases outcome isRequest
  | some failure =>
      rw [raw_of_thrown s outcome]
      exact .rejected _ failure (by simp [outcome])

theorem answered_cases (s : State) (index : Nat) (response : Option Response)
    (operation : Operation) :
    Answered s index response operation.call (s.answered index response operation) := by
  obtain ⟨call, point⟩ := operation
  cases point with
  | sent =>
      cases call with
      | login => exact loginAnswered_cases s index response
      | load => exact loadAnswered_cases s index response
      | request => exact requestAnswered_cases (.inl rfl)
      | logout => exact requestAnswered_cases (.inr rfl)
  | resent =>
      cases call with
      | request => exact resentAnswered_cases (.inl rfl)
      | logout => exact resentAnswered_cases (.inr rfl)
      | _ => exact .idle _
  | _ => cases call <;> exact .idle _

/-! ## Every step goes on from its generation -/

theorem onward_refreshed {s s' : State} {r : Refresh} {response : Option Response}
    (does : Refreshed s r response s') (earlier : r.started ≤ s.generation) : Onward s s' := by
  have ended := onward_ended s response
  cases does with
  | idle => exact .refl s
  | outdated => exact onward_settle s _
  | applied user => exact (onward_apply s user).trans (onward_settle _ _)
  | retried i error =>
      exact ended.trans (onward_point (earlier.trans ended.generation) _)
  | failed failure => exact ended.trans (onward_refreshFails _ r failure)

theorem onward_answered {s s' : State} {index : Nat} {response : Option Response} {call : Call}
    (does : Answered s index response call s') : Onward s s' := by
  have ended := onward_ended s response
  cases does with
  | idle => exact .refl s
  | signedIn user =>
      exact (onward_next s).trans ((onward_apply _ user).trans (onward_move _ _ _))
  | challenged challenge =>
      exact ⟨Nat.le_succ _, fun sound r inFlight => Nat.le_succ_of_le (sound r inFlight)⟩
  | misread => exact (onward_next s).trans (onward_move _ _ _)
  | loaded user => exact (onward_apply s user).trans (onward_move _ _ _)
  | misloaded | finished => exact onward_move s _ _
  | forbidden => exact ended.trans (onward_of_eq rfl rfl)
  | signedOut => exact (onward_signOut s).trans (onward_move _ _ _)
  | refreshing failure =>
      exact ended.trans ((onward_refresh _ index).trans (onward_move _ _ _))
  | rejected failure => exact ended.trans (onward_move _ _ _)

theorem step_sound {s : State} (sound : s.Sound) (e : Event) : Onward s (step s e) := by
  cases e with
  | call call => exact onward_of_eq rfl rfl
  | answer index response =>
      rw [step]
      split
      · exact onward_answered (answered_cases s index response _)
      · exact .refl s
  | refreshAnswer response =>
      rw [step]
      split
      · rename_i r inFlight
        exact onward_refreshed (refreshed_cases s r response) (sound r inFlight)
      · exact .refl s
  | elapse =>
      rw [step]
      split
      · rename_i r inFlight
        rw [State.elapsed]
        split
        · exact onward_point (sound r inFlight) _
        · exact .refl s
      · exact .refl s

theorem start_sound (user : Option AuthUser) : (start user).Sound := by
  intro r inFlight
  cases inFlight

theorem run_sound (user : Option AuthUser) (events : List Event) :
    (run step (start user) events).Sound :=
  run_invariant (I := State.Sound) (fun _ e sound => (step_sound sound e).sound sound)
    (start_sound user) events

/-! ## Operations that resolve -/

/-- The operation is such a call, and has resolved. -/
def Done (call : Call) (index : Nat) (s : State) : Prop :=
  s.operations[index]? = some ⟨call, .resolved⟩

instance decidableDone (call : Call) (index : Nat) (s : State) : Decidable (Done call index s) :=
  inferInstanceAs (Decidable (s.operations[index]? = some ⟨call, .resolved⟩))

/-- A `logout` resolves in this step. -/
def LogsOut (s : State) (e : Event) : Prop :=
  ∃ index, ¬ Done .logout index s ∧ Done .logout index (step s e)

/-- A `login` resolves in this step, and sets the user. -/
def LogsIn (s : State) (e : Event) : Prop :=
  ∃ index, ¬ Done .login index s ∧ Done .login index (step s e) ∧ (step s e).user ≠ none

/-- A step in which nothing is in flight that was called in its new generation -/
def Renews (s s' : State) : Prop :=
  s.generation < s'.generation ∧ s'.refreshPromise = s.refreshPromise

/-- An operation resolves by a move only when it is moved there itself. -/
theorem done_of_move {s : State} {call : Call} {index moved : Nat} {point : Point}
    (other : point = .resolved → (s.operations[moved]?).map (·.call) ≠ some call)
    (done : Done call index (s.move moved point)) : Done call index s := by
  rw [Done, State.move, List.getElem?_modify] at done
  cases here : s.operations[index]? with
  | none => simp [here] at done
  | some operation =>
      rw [here] at done
      by_cases same : moved = index
      · subst same
        have now : operation.call = call ∧ point = .resolved := by simpa using done
        exact absurd (by simp [here, now.1]) (other now.2)
      · simpa [Done, same, here] using done

theorem afterRefresh_call (outcome : Except Failure Bool) (operation : Operation) :
    (operation.afterRefresh outcome).call = operation.call := by
  unfold Operation.afterRefresh
  repeat' split
  all_goals rfl

theorem resolved_of_afterRefresh {outcome : Except Failure Bool} {operation : Operation}
    {call : Call}
    (other : call ≠ .load) (now : operation.afterRefresh outcome = ⟨call, .resolved⟩) :
    operation = ⟨call, .resolved⟩ := by
  have kind := afterRefresh_call outcome operation
  rw [now] at kind
  obtain ⟨_, point⟩ := operation
  cases kind
  cases point with
  | refreshing error =>
      cases call with
      | load => exact absurd rfl other
      | _ => rcases outcome with failure | (_ | _) <;> cases now
  | _ => exact now

theorem done_of_settle {s : State} {call : Call} {index : Nat} {outcome : Except Failure Bool}
    (other : call ≠ .load) (done : Done call index (s.settle outcome)) : Done call index s := by
  simp only [Done, State.settle, List.getElem?_map, Option.map_eq_some_iff] at done
  obtain ⟨operation, here, now⟩ := done
  rw [Done, here, resolved_of_afterRefresh other now]

@[simp] theorem ended_operations (s : State) (response : Option Response) :
    (s.ended response).operations = s.operations := by
  rw [State.ended]
  split <;> rfl

@[simp] theorem done_ended (s : State) (response : Option Response) (call : Call) (index : Nat) :
    Done call index (s.ended response) ↔ Done call index s := by
  rw [State.ended]
  split <;> rfl

@[simp] theorem done_refresh (s : State) (caller : Nat) (call : Call) (index : Nat) :
    Done call index (s.refresh caller) ↔ Done call index s := by
  rw [State.refresh]
  split <;> rfl

theorem done_of_refreshed {s s' : State} {r : Refresh} {response : Option Response} {call : Call}
    {index : Nat} (does : Refreshed s r response s') (other : call ≠ .load)
    (done : Done call index s') : Done call index s := by
  cases does with
  | idle => exact done
  | outdated => exact done_of_settle other done
  | applied user => exact done_of_settle (s := s.apply user) other done
  | retried i error => exact (done_ended s response call index).mp done
  | failed failure =>
      have before := done_of_settle other done
      split at before <;> exact (done_ended s response call index).mp before

theorem renews_of_answered {s s' : State} {answered index : Nat} {response : Option Response}
    {call kind : Call} (does : Answered s answered response kind s')
    (operation : (s.operations[answered]?).map (·.call) = some kind)
    (counts : call = .logout ∨ call = .login) (before : ¬ Done call index s)
    (done : Done call index s') : Renews s s' := by
  have unlike : kind ≠ .logout → kind ≠ .login →
      (s.operations[answered]?).map (·.call) ≠ some call := by
    rw [operation]
    rintro notLogout notLogin same
    cases same
    exact counts.elim notLogout notLogin
  cases does with
  | idle => exact absurd done before
  | signedIn | challenged | signedOut => exact ⟨Nat.lt_succ_self _, rfl⟩
  | misread => exact absurd (done_of_move (by intro h; cases h) done) before
  | misloaded => exact absurd (done_of_move (by intro h; cases h) done) before
  | loaded user =>
      exact absurd (done_of_move (s := s.apply user) (fun _ => unlike (by decide) (by decide)) done)
        before
  | forbidden =>
      have := done_of_move (fun _ => by simpa using unlike (by decide) (by decide)) done
      exact absurd ((done_ended s response call index).mp this) before
  | finished => exact absurd (done_of_move (fun _ => unlike (by decide) (by decide)) done) before
  | refreshing failure =>
      have := done_of_move (by intro h; cases h) done
      simp only [done_refresh, done_ended] at this
      exact absurd this before
  | rejected failure =>
      have := done_of_move (by intro h; cases h) done
      simp only [done_ended] at this
      exact absurd this before

theorem renews_of_done {s : State} {e : Event} {call : Call} {index : Nat}
    (counts : call = .logout ∨ call = .login) (before : ¬ Done call index s)
    (done : Done call index (step s e)) : Renews s (step s e) := by
  have other : call ≠ .load := by rintro rfl; simp at counts
  cases e with
  | call called =>
      have here : (s.operations ++ [⟨called, .sent⟩])[index]? = some ⟨call, .resolved⟩ :=
        done
      rw [List.getElem?_append] at here
      split at here
      · exact absurd here before
      · simp [List.getElem?_singleton] at here
  | answer answered response =>
      rw [step] at done ⊢
      split at done
      · rename_i operation here
        exact renews_of_answered (answered_cases s answered response operation) (by simp [here])
          counts before done
      · exact absurd done before
  | refreshAnswer response =>
      rw [step] at done
      split at done
      · rename_i r inFlight
        exact absurd (done_of_refreshed (refreshed_cases s r response) other done) before
      · exact absurd done before
  | elapse =>
      rw [step] at done
      split at done
      · rw [State.elapsed] at done
        split at done <;> exact absurd done before
      · exact absurd done before

/-- What is in flight when a generation begins was called in an earlier one. -/
theorem earlier_of_renews {s s' : State} (sound : s.Sound) (renews : Renews s s') :
    ∀ r, s'.refreshPromise = some r → r.started < s'.generation := by
  intro r inFlight
  rw [renews.2] at inFlight
  exact Nat.lt_of_le_of_lt (sound r inFlight) renews.1

/-! ## Who sets the user, and who clears it -/

theorem ended_user (s : State) (response : Option Response) :
    (s.ended response).user = s.user ∨
      (s.ended response).user = none ∧ endsSession response = true := by
  rw [State.ended]
  split
  · exact .inr ⟨rfl, ‹_›⟩
  · exact .inl rfl

@[simp] theorem refresh_user (s : State) (caller : Nat) : (s.refresh caller).user = s.user := by
  rw [State.refresh]
  split <;> rfl

/-- Only `load` and `login` set the user by an answer of their own. -/
theorem answered_sets {s s' : State} {index : Nat} {response : Option Response} {call : Call}
    (does : Answered s index response call s') :
    s'.user = s.user ∨ s'.user = none ∨
      thrown response = none ∧ (call = .load ∨ call = .login) := by
  cases does with
  | idle | misread | misloaded | finished => exact .inl rfl
  | challenged | forbidden | signedOut => exact .inr (.inl rfl)
  | signedIn user succeeds => exact .inr (.inr ⟨succeeds, .inr rfl⟩)
  | loaded user succeeds => exact .inr (.inr ⟨succeeds, .inl rfl⟩)
  | refreshing failure =>
      exact (ended_user s response).imp (refresh_user _ _).trans
        fun ended => .inl ((refresh_user _ _).trans ended.1)
  | rejected failure => exact (ended_user s response).imp id fun ended => .inl ended.1

/-- A request that fails clears the user only by the code of its answer. -/
theorem answered_clears {s s' : State} {index : Nat} {response : Option Response} {call : Call}
    (does : Answered s index response call s') (isRequest : call = .request ∨ call = .logout)
    (fails : thrown response ≠ none) (cleared : s'.user = none) :
    s.user = none ∨ endsSession response = true := by
  cases does with
  | idle => exact .inl cleared
  | signedIn | challenged | misread | loaded | misloaded | forbidden => simp at isRequest
  | finished succeeds | signedOut succeeds => exact absurd succeeds fails
  | refreshing failure =>
      have ended : (s.ended response).user = none := (refresh_user _ index).symm.trans cleared
      exact (ended_user s response).imp (fun same => same.symm.trans ended) (·.2)
  | rejected failure =>
      exact (ended_user s response).imp (fun same => same.symm.trans cleared) (·.2)

theorem refreshFails_user (s : State) (r : Refresh) (failure : Failure) :
    (s.refreshFails r failure).user = s.user ∨ (s.refreshFails r failure).user = none ∧
      failure.hasStatus [401, 403] = true ∧
        (r.started = s.generation ∨ s.operations.any Operation.loading = true) := by
  cases status : failure.hasStatus [401, 403] with
  | false => left; simp [State.refreshFails, State.settle, status]
  | true =>
      by_cases current : r.started = s.generation
      · right; simp [State.refreshFails, State.settle, status, current]
      · cases loading : s.operations.any Operation.loading with
        | false => left; simp [State.refreshFails, State.settle, status, current, loading]
        | true => right; simp [State.refreshFails, State.settle, status, current, loading]

/-- A refresh sets the user only in the generation in which it was called. -/
theorem refreshed_sets {s s' : State} {r : Refresh} {response : Option Response}
    (does : Refreshed s r response s') :
    s'.user = s.user ∨ s'.user = none ∨
      thrown response = none ∧ r.started = s.generation := by
  cases does with
  | idle | outdated => exact .inl rfl
  | applied user succeeds current => exact .inr (.inr ⟨succeeds, current⟩)
  | retried i error =>
      exact (ended_user s response).imp id fun ended => .inl ended.1
  | failed failure =>
      rcases refreshFails_user (s.ended response) r failure with same | ⟨cleared, -⟩
      · rw [same]
        exact (ended_user s response).imp id fun ended => .inl ended.1
      · exact .inr (.inl cleared)

/-- A refresh clears the user by the code of an answer, or when it is refused, in its own
    generation or for a `load` that waits for it. -/
theorem refreshed_clears {s s' : State} {r : Refresh} {response : Option Response}
    (does : Refreshed s r response s') (cleared : s'.user = none) :
    s.user = none ∨ endsSession response = true ∨ r.refused s response = true ∧
      (r.started = s.generation ∨ s.operations.any Operation.loading = true) := by
  cases does with
  | idle | outdated => exact .inl cleared
  | applied user => cases cleared
  | retried i error =>
      exact (ended_user s response).imp (fun same => same.symm.trans cleared)
        fun ended => .inl ended.2
  | failed failure refused =>
      cases ends : endsSession response with
      | true => exact .inr (.inl rfl)
      | false =>
          have same : s.ended response = s := by simp [State.ended, ends]
          rw [same] at cleared
          rcases refreshFails_user s r failure with kept | ⟨-, status, who⟩
          · exact .inl (kept.symm.trans cleared)
          · exact .inr (.inr ⟨refused status, who⟩)

/-! ## After a sign-out, and after a sign-in

`n` operations have been called when the `logout` or `login` resolves, and `t` is the
state that it leaves.
-/

def State.callOf (s : State) (index : Nat) : Option Call :=
  (s.operations[index]?).map (·.call)

/-- The operation that an answer belongs to: the one that waits for it, or the one that
    called the refresh -/
def owner (s : State) : Event → Option Nat
  | .answer index _ => some index
  | .refreshAnswer _ => s.refreshPromise.map (·.caller)
  | _ => none

/-- No answer that belongs to one of the first `n` operations makes the user non-null. -/
def NotRestored (n : Nat) (s : State) (e : Event) : Prop :=
  ∀ index, owner s e = some index → index < n →
    (step s e).user = s.user ∨ (step s e).user = none

/-- The answer is one with which a request fails, also that of a `logout`, or one to a
    refresh. -/
def OfRequestOrRefresh (s : State) : Event → Prop
  | .answer index response =>
      thrown response ≠ none ∧
        (s.callOf index = some .request ∨ s.callOf index = some .logout)
  | .refreshAnswer _ => True
  | _ => False

/-- No such answer that belongs to one of the first `n` operations clears the user. -/
def NotCleared (n : Nat) (s : State) (e : Event) : Prop :=
  ∀ index, owner s e = some index → index < n → OfRequestOrRefresh s e →
    (step s e).user = none → s.user = none

/-- The refresh was called since, and no generation has begun after that. -/
def Refresh.late (r : Refresh) (t s : State) : Bool :=
  t.generation ≤ r.started && r.started = s.generation

/-- An earlier `load` or `login` succeeds, or a refresh that an earlier operation called only
    since. -/
def restoring (t s : State) : Event → Bool
  | .answer index response =>
      index < t.operations.length && thrown response = none &&
        (s.callOf index = some .load || s.callOf index = some .login)
  | .refreshAnswer response =>
      s.refreshPromise.any fun r =>
        r.caller < t.operations.length && thrown response = none && r.late t s
  | _ => false

/-- The answer to an earlier request or refresh ends the session by its code; or such a
    refresh is refused while a `load` waits for it, or having been called only since. -/
def clearing (t s : State) : Event → Bool
  | .answer index response =>
      index < t.operations.length && endsSession response &&
        (s.callOf index = some .request || s.callOf index = some .logout)
  | .refreshAnswer response =>
      s.refreshPromise.any fun r =>
        r.caller < t.operations.length &&
          (endsSession response ||
            r.refused s response && (s.operations.any Operation.loading || r.late t s))
  | _ => false

theorem not_restored_step {t s : State} (onward : t.generation ≤ s.generation) (e : Event)
    (guarded : restoring t s e = false) : NotRestored t.operations.length s e := by
  intro index owns earlier
  cases e with
  | call | elapse => cases owns
  | answer answered response =>
      cases owns
      cases here : s.operations[index]? with
      | none => exact .inl (by rw [step, here])
      | some operation =>
          rcases answered_sets (answered_cases s index response operation) with same | none | who
          · exact .inl (by rwa [step, here])
          · exact .inr (by rwa [step, here])
          · simp only [restoring, State.callOf, here, earlier, who.1, Option.map_some, decide_true,
              Bool.true_and, Bool.or_eq_false_iff, decide_eq_false_iff_not, Option.some.injEq]
              at guarded
            exact absurd who.2 (not_or.mpr guarded)
  | refreshAnswer response =>
      cases inFlight : s.refreshPromise with
      | none => simp [owner, inFlight] at owns
      | some r =>
          rcases refreshed_sets (refreshed_cases s r response) with same | none | who
          · exact .inl (by rwa [step, inFlight])
          · exact .inr (by rwa [step, inFlight])
          · have caller : r.caller = index := by simpa [owner, inFlight] using owns
            simp [restoring, inFlight, caller, earlier, who, Refresh.late, onward] at guarded

theorem not_cleared_step {t s : State} (onward : t.generation ≤ s.generation) (e : Event)
    (guarded : clearing t s e = false) : NotCleared t.operations.length s e := by
  intro index owns earlier kind cleared
  cases e with
  | call | elapse => cases owns
  | answer answered response =>
      cases owns
      cases here : s.operations[index]? with
      | none => rwa [step, here] at cleared
      | some operation =>
          rw [step, here] at cleared
          obtain ⟨fails, isRequest⟩ := kind
          simp only [State.callOf, here, Option.map_some, Option.some.injEq] at isRequest
          rcases answered_clears (answered_cases s index response operation) isRequest fails cleared
            with before | ends
          · exact before
          · simp only [clearing, State.callOf, here, earlier, ends, Option.map_some, decide_true,
              Bool.true_and, Bool.or_eq_false_iff, decide_eq_false_iff_not, Option.some.injEq]
              at guarded
            exact absurd isRequest (not_or.mpr guarded)
  | refreshAnswer response =>
      cases inFlight : s.refreshPromise with
      | none => simp [owner, inFlight] at owns
      | some r =>
          have caller : r.caller = index := by simpa [owner, inFlight] using owns
          rw [step, inFlight] at cleared
          rcases refreshed_clears (refreshed_cases s r response) cleared
            with before | ends | ⟨refused, current | loading⟩
          · exact before
          · simp [clearing, inFlight, caller, earlier, ends] at guarded
          · simp [clearing, inFlight, caller, earlier, refused, Refresh.late, current, onward]
              at guarded
          · simp [clearing, inFlight, caller, earlier, refused, loading] at guarded

theorem onward_step_of {t : State} (s : State) (e : Event)
    (later : s.Sound ∧ t.generation ≤ s.generation) :
    (step s e).Sound ∧ t.generation ≤ (step s e).generation :=
  have onward := step_sound later.1 e
  ⟨onward.sound later.1, later.2.trans onward.generation⟩

/-- After a `logout` no guarded answer to an earlier operation makes the user non-null, and
    after a `login` none to an earlier request or refresh clears the user. A refresh that
    was in flight then does not count as called since. -/
theorem logging_out_is_final (user : Option AuthUser) (before : List Event) (e : Event)
    (after : List Event) :
    let s := run step (start user) before
    let t := step s e
    (LogsOut s e →
      (∀ r, t.refreshPromise = some r → r.started < t.generation) ∧
        (Along step (fun u x => restoring t u x = false) t after →
          Along step (NotRestored t.operations.length) t after)) ∧
    (LogsIn s e →
      (∀ r, t.refreshPromise = some r → r.started < t.generation) ∧
        (Along step (fun u x => clearing t u x = false) t after →
          Along step (NotCleared t.operations.length) t after)) := by
  intro s t
  have sound : s.Sound := run_sound user before
  have later : t.Sound ∧ t.generation ≤ t.generation :=
    ⟨(step_sound sound e).sound sound, Nat.le_refl _⟩
  constructor
  · rintro ⟨index, waiting, done⟩
    refine ⟨earlier_of_renews sound (renews_of_done (.inl rfl) waiting done), fun guarded => ?_⟩
    exact guarded.of_invariant onward_step_of
      (fun u x goesOn free => not_restored_step goesOn.2 x free) later
  · rintro ⟨index, waiting, done, -⟩
    refine ⟨earlier_of_renews sound (renews_of_done (.inr rfl) waiting done), fun guarded => ?_⟩
    exact guarded.of_invariant onward_step_of
      (fun u x goesOn free => not_cleared_step goesOn.2 x free) later

/-! ## Two sessions -/

def ada : AuthUser :=
  ⟨text "1", text "ada@example.org", text "Ada", text "Lovelace", none, true, false⟩

def answered (body : Body) : Option Response :=
  some ⟨200, none, none, body⟩

def refusal (status : Nat) (code : String) : Option Response :=
  some ⟨status, some (text code), none, .other⟩

/-- A refresh is in flight while a `logout` resolves; a request is in flight while a `login`
    does, and fails after it. -/
def logoutDuringRefresh : List Event :=
  [.call .request, .answer 0 (refusal 401 "ACCESS_TOKEN_EXPIRED"), .call .logout]

def loginDuringRequest : List Event :=
  [.call .request, .call .login]

theorem refresh_does_not_restore :
    let s := run step (start (some ada)) logoutDuringRefresh
    let t := step s (.answer 1 (answered .other))
    let s' := run step (start none) loginDuringRequest
    let t' := step s' (.answer 1 (answered (.authenticated ada)))
    Along step (NotRestored t.operations.length) t
        [.refreshAnswer (answered (.authenticated ada)), .answer 0 (refusal 500 "BROKEN")] ∧
      Along step (NotCleared t'.operations.length) t'
        [.answer 0 (refusal 401 "AUTH_REQUIRED"), .refreshAnswer (refusal 500 "BROKEN")] :=
  ⟨((logging_out_is_final (some ada) logoutDuringRefresh (.answer 1 (answered .other))
      [.refreshAnswer (answered (.authenticated ada)), .answer 0 (refusal 500 "BROKEN")]).1
        ⟨1, by decide, by decide⟩).2 (by decide),
    ((logging_out_is_final none loginDuringRequest (.answer 1 (answered (.authenticated ada)))
      [.answer 0 (refusal 401 "AUTH_REQUIRED"), .refreshAnswer (refusal 500 "BROKEN")]).2
        ⟨1, by decide, by decide, by decide⟩).2 (by decide)⟩

/-- The user is back after the `logout`, by a `load` that was called before it; and gone after
    the `login`, by a request that was. -/
theorem load_restores_and_request_clears :
    (¬ ∀ user before e after, LogsOut (run step (start user) before) e →
      Along step (NotRestored (step (run step (start user) before) e).operations.length)
        (step (run step (start user) before) e) after) ∧
    ¬ ∀ user before e after, LogsIn (run step (start user) before) e →
      Along step (NotCleared (step (run step (start user) before) e).operations.length)
        (step (run step (start user) before) e) after := by
  constructor
  · intro final
    have kept := final (some ada) [.call .load, .call .logout] (.answer 1 (answered .other))
      [.answer 0 (answered (.user ada))] ⟨1, by decide, by decide⟩
    have user := kept.1 0 rfl (by decide)
    revert user
    decide
  · intro final
    have kept := final none loginDuringRequest (.answer 1 (answered (.authenticated ada)))
      [.answer 0 (refusal 401 "SESSION_REVOKED")]
      ⟨1, by decide, by decide, by decide⟩
    have user := kept.1 0 rfl (by decide) ⟨by decide, .inl (by decide)⟩
      (by decide)
    revert user
    decide

end PackageRegistry.Browser
