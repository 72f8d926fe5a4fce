import Mathlib.Data.List.Chain
import Mathlib.Data.Rat.Floor
import PackageRegistry.Lib.OrderedDict
import PackageRegistry.Lib.Runs
import PackageRegistry.Lib.Text

/-! # The rate limiter in memory

`check_rate_limit` with its table of windows. The table loses a window when the window has
expired, and when too many other keys have been used since.
-/

namespace PackageRegistry.Auth

open OrderedDict

structure RateLimitSettings where
  auth_rate_limit_attempts : Int
  auth_rate_limit_window_seconds : Int
  auth_rate_limit_backend : Text
  rate_limit_fail_closed : Bool
  production : Bool
  rate_limit_memory_max_keys : Nat
  ge : 100 ≤ rate_limit_memory_max_keys
  le : rate_limit_memory_max_keys ≤ 100000

structure MemoryWindow where
  count : Nat
  expires_at : ℚ
  deriving DecidableEq

abbrev MemoryWindows := OrderedDict Text MemoryWindow

/-- A call, the clock that it reads, and what `_check_redis` returns to it unless that raises -/
structure RateLimitCall where
  key : Text
  attempts : Option Int
  window_seconds : Option Int
  scope : Option Text
  code : Text
  message : Text
  now : ℚ
  redis : Option (Int × Int)

def RateLimitCall.scoped_key (call : RateLimitCall) : Text :=
  match call.scope with
  | some scope => if scope.isEmpty then call.key else scope ++ text ":" ++ call.key
  | none => call.key

/-- An `HTTPException` with its detail and its header -/
structure RateLimitError where
  status_code : Nat
  code : Text
  message : Text
  retry_after : Text
  deriving DecidableEq

def _rate_limit_error (code message : Text) (retry_after : Int) : RateLimitError :=
  ⟨429, code, message, Text.ofNat (max 1 retry_after).toNat⟩

def rate_limit_unavailable : RateLimitError :=
  ⟨503, text "RATE_LIMIT_UNAVAILABLE",
    text "Die Sicherheitsprüfung ist vorübergehend nicht verfügbar.", text "5"⟩

section

-- `round` is what an operation on floats makes of the exact result.
variable (settings : RateLimitSettings) (round : ℚ → ℚ)

/-- `int(x)` -/
def truncated (x : ℚ) : Int := if 0 ≤ x then ⌊x⌋ else ⌈x⌉

def unexpired (now : ℚ) (windows : MemoryWindows) : MemoryWindows :=
  sweep (fun value => !decide (value.expires_at ≤ now)) windows

/-- The window of the key once this use is counted -/
def counted (windows : MemoryWindows) (now : ℚ) (key : Text) (window : Int) : MemoryWindow :=
  let current := (get key (unexpired now windows)).getD ⟨0, round (now + window)⟩
  { current with count := current.count + 1 }

def _check_memory (windows : MemoryWindows) (now : ℚ) (key : Text) (window : Int) :
    MemoryWindows × (Nat × Int) :=
  let current := counted round windows now key window
  let remaining := truncated (round (round (current.expires_at - now) + round (999 / 1000)))
  (evict settings.rate_limit_memory_max_keys (put key current (unexpired now windows)),
    (current.count, max 1 remaining))

def limit (call : RateLimitCall) : Int := call.attempts.getD settings.auth_rate_limit_attempts

def window (call : RateLimitCall) : Int :=
  call.window_seconds.getD settings.auth_rate_limit_window_seconds

/-- The end of `check_rate_limit` -/
def limited (call : RateLimitCall) (count retry_after : Int) : Except RateLimitError Unit :=
  if count > limit settings call then
    .error (_rate_limit_error call.code call.message retry_after)
  else .ok ()

/-- The `_check_memory` of a call, and what follows -/
def check_in_memory (windows : MemoryWindows) (call : RateLimitCall) :
    MemoryWindows × Except RateLimitError Unit :=
  let checked :=
    _check_memory settings round windows call.now call.scoped_key (window settings call)
  (checked.1, limited settings call checked.2.1 checked.2.2)

def check_rate_limit (windows : MemoryWindows) (call : RateLimitCall) :
    MemoryWindows × Except RateLimitError Unit :=
  if settings.auth_rate_limit_backend = text "redis" then
    match call.redis with
    | some (count, retry_after) => (windows, limited settings call count retry_after)
    | none =>
        if settings.rate_limit_fail_closed || settings.production then
          (windows, .error rate_limit_unavailable)
        else check_in_memory settings round windows call
  else check_in_memory settings round windows call

/-- The table after a list of calls -/
def windowsAfter (calls : List RateLimitCall) : MemoryWindows :=
  Runs.run (fun windows call => (check_rate_limit settings round windows call).1) [] calls

/-- A call for a key, with the window that it is counted in -/
structure Use where
  now : ℚ
  seconds : Int
  attempts : Int
  accepted : Bool
  current : MemoryWindow

/-- The uses of a key in a list of calls from a table on -/
def uses (key : Text) : MemoryWindows → List RateLimitCall → List Use
  | _, [] => []
  | windows, call :: rest =>
      let checked := check_rate_limit settings round windows call
      if call.scoped_key = key then
        ⟨call.now, window settings call, limit settings call, checked.2.toBool,
          counted round windows call.now key (window settings call)⟩ :: uses key checked.1 rest
      else uses key checked.1 rest

end

/-- Settings with the memory backend -/
structure MemorySettings extends RateLimitSettings where
  memory : auth_rate_limit_backend ≠ text "redis"

/-- Calls with a nondecreasing clock -/
structure TimedCalls where
  calls : List RateLimitCall
  nondecreasing : calls.Pairwise fun call later => call.now ≤ later.now

/-- Between two consecutive uses of a key fewer than `n` distinct other keys are touched. -/
def Quiet (n : Nat) (key : Text) (touched : List Text) : Prop :=
  ∀ before between after, touched = before ++ key :: (between ++ key :: after) →
    key ∉ between → between.toFinset.card < n

/-- A use that opens a window -/
def Use.Opens (round : ℚ → ℚ) (u : Use) : Prop :=
  u.current = ⟨1, round (u.now + u.seconds)⟩

/-- One use after another: it is counted in the same window, or that window has expired and it
    opens one. -/
def Use.Next (round : ℚ → ℚ) (u v : Use) : Prop :=
  (v.now < u.current.expires_at ∧ v.current = ⟨u.current.count + 1, u.current.expires_at⟩) ∨
    (u.current.expires_at ≤ v.now ∧ v.Opens round)

/-- The uses of a window, from the one that opens it -/
def Use.inWindow (u : Use) (later : List Use) : List Use :=
  u :: later.takeWhile fun v => decide (v.now < u.current.expires_at)

/-- The uses that succeed and allow at most `a` attempts -/
def successes (a : Int) (us : List Use) : Nat :=
  us.countP fun u => u.accepted && decide (u.attempts ≤ a)

/-- What the limiter grants to the uses of a key -/
structure Limited (round : ℚ → ℚ) (us : List Use) : Prop where
  opens : ∀ u ∈ us.head?, u.Opens round
  restarts : us.IsChain (Use.Next round)
  limits : ∀ before u later, us = before ++ u :: later → u.Opens round →
    ∀ a, successes a (u.inWindow later) ≤ a.toNat

/-- The defaults -/
def memorySettings : MemorySettings where
  auth_rate_limit_attempts := 8
  auth_rate_limit_window_seconds := 300
  auth_rate_limit_backend := text "memory"
  rate_limit_fail_closed := false
  production := false
  rate_limit_memory_max_keys := 10000
  ge := by decide
  le := by decide
  memory := by decide

/-! ## One call -/

section

variable {settings : MemorySettings} {round : ℚ → ℚ} {windows : MemoryWindows}
  {call : RateLimitCall}

theorem check_rate_limit_memory : check_rate_limit settings.toRateLimitSettings round windows call =
    check_in_memory settings.toRateLimitSettings round windows call := by
  rw [check_rate_limit, if_neg settings.memory]

/-- The table after a call -/
theorem check_rate_limit_windows :
    (check_rate_limit settings.toRateLimitSettings round windows call).1 =
      evict settings.rate_limit_memory_max_keys
        (put call.scoped_key
          (counted round windows call.now call.scoped_key
            (window settings.toRateLimitSettings call))
          (unexpired call.now windows)) := by
  rw [check_rate_limit_memory]
  rfl

theorem accepted_within
    (accepted : (check_rate_limit settings.toRateLimitSettings round windows call).2.toBool = true) :
    ((counted round windows call.now call.scoped_key
      (window settings.toRateLimitSettings call)).count : Int) ≤
      limit settings.toRateLimitSettings call := by
  rw [check_rate_limit_memory] at accepted
  by_contra more
  have refused : (check_in_memory settings.toRateLimitSettings round windows call).2 =
      .error (_rate_limit_error call.code call.message
        (_check_memory settings.toRateLimitSettings round windows call.now call.scoped_key
          (window settings.toRateLimitSettings call)).2.2) := if_pos (not_le.mp more)
  rw [refused] at accepted
  cases accepted

theorem counted_opens {now : ℚ} {key : Text} {seconds : Int}
    (absent : key ∉ keys (unexpired now windows)) :
    counted round windows now key seconds = ⟨1, round (now + seconds)⟩ := by
  rw [counted, get_absent absent]
  rfl

theorem unexpired_recent {now : ℚ} {key : Text} {current : MemoryWindow} {used : List Text}
    (recent : Recent windows key current used) (alive : now < current.expires_at) :
    Recent (unexpired now windows) key current used :=
  recent.sweep (by simpa using alive)

theorem counted_again {now : ℚ} {key : Text} {seconds : Int} {current : MemoryWindow}
    {used : List Text} (recent : Recent windows key current used)
    (alive : now < current.expires_at) :
    counted round windows now key seconds = ⟨current.count + 1, current.expires_at⟩ := by
  rw [counted, (unexpired_recent recent alive).get]
  rfl

theorem nodup_placed (now : ℚ) (key : Text) (current : MemoryWindow)
    (distinct : (keys windows).Nodup) : (keys (put key current (unexpired now windows))).Nodup :=
  nodup_put key current (distinct.sublist (keys_sweep_sublist _ windows))

theorem nodup_after (settings : MemorySettings) (round : ℚ → ℚ) (call : RateLimitCall)
    (distinct : (keys windows).Nodup) :
    (keys (check_rate_limit settings.toRateLimitSettings round windows call).1).Nodup := by
  rw [check_rate_limit_windows]
  exact (nodup_placed _ _ _ distinct).sublist (keys_evict_sublist _ _)

/-- A call brings no other key into the table. -/
theorem absent_after {key : Text} (other : call.scoped_key ≠ key)
    (absent : key ∉ keys (unexpired call.now windows)) :
    key ∉ keys (check_rate_limit settings.toRateLimitSettings round windows call).1 := by
  rw [check_rate_limit_windows]
  intro mem
  have placed := (keys_evict_sublist _ _).subset mem
  rw [mem_keys_put] at placed
  cases placed with
  | inl same => exact other same.symm
  | inr kept => exact absent kept

theorem absent_unexpired {key : Text} {now : ℚ} (absent : key ∉ keys windows) :
    key ∉ keys (unexpired now windows) :=
  fun mem => absent ((keys_sweep_sublist _ windows).subset mem)

/-! ## Between two uses of a key -/

/-- The window of a key since its last use: while fewer keys have been used than the table may
    hold, the window is there until it has expired. -/
def Since (n : Nat) (windows : MemoryWindows) (key : Text) (current : MemoryWindow)
    (used : List Text) (now : ℚ) : Prop :=
  used.toFinset.card < n →
    (current.expires_at ≤ now ∧ key ∉ keys windows) ∨ Recent windows key current used

/-- The use itself -/
theorem since_use (distinct : (keys windows).Nodup) (now : ℚ) :
    Since settings.rate_limit_memory_max_keys
      (check_rate_limit settings.toRateLimitSettings round windows call).1 call.scoped_key
      (counted round windows call.now call.scoped_key (window settings.toRateLimitSettings call))
      [] now := by
  intro few
  rw [check_rate_limit_windows]
  exact .inr ((recent_put _ _ _).evict (nodup_placed _ _ _ distinct) few)

/-- A use of another key -/
theorem Since.other {key : Text} {current : MemoryWindow} {used : List Text} {now : ℚ}
    (since : Since settings.rate_limit_memory_max_keys windows key current used now)
    (distinct : (keys windows).Nodup) (other : call.scoped_key ≠ key) (later : now ≤ call.now) :
    Since settings.rate_limit_memory_max_keys
      (check_rate_limit settings.toRateLimitSettings round windows call).1 key current
      (call.scoped_key :: used) call.now := by
  intro few
  have fewer : used.toFinset.card ≤ (call.scoped_key :: used).toFinset.card := by
    rw [List.toFinset_cons]
    exact Finset.card_le_card (Finset.subset_insert _ _)
  rcases since (by omega) with ⟨expired, absent⟩ | recent
  · exact .inl ⟨expired.trans later, absent_after other (absent_unexpired absent)⟩
  · by_cases alive : call.now < current.expires_at
    · right
      rw [check_rate_limit_windows]
      have placed := (unexpired_recent recent alive).put other
        (counted round windows call.now call.scoped_key
          (window settings.toRateLimitSettings call))
      exact placed.evict (nodup_placed _ _ _ distinct) few
    · left
      refine ⟨not_lt.mp alive, absent_after other ?_⟩
      exact recent.swept distinct (by simpa using alive)

/-- The next use -/
theorem Since.next {u : Use} {used : List Text} {now : ℚ} {n : Nat}
    (since : Since n windows call.scoped_key u.current used now)
    (few : used.toFinset.card < n) (distinct : (keys windows).Nodup) (later : now ≤ call.now)
    (seconds attempts : Int) (accepted : Bool) :
    u.Next round ⟨call.now, seconds, attempts, accepted,
      counted round windows call.now call.scoped_key seconds⟩ := by
  rcases since few with ⟨expired, absent⟩ | recent
  · exact .inr ⟨expired.trans later, counted_opens (absent_unexpired absent)⟩
  · by_cases alive : call.now < u.current.expires_at
    · exact .inl ⟨alive, counted_again recent alive⟩
    · refine .inr ⟨not_lt.mp alive, counted_opens ?_⟩
      exact recent.swept distinct (by simpa using alive)

/-! ## All uses of a key -/

theorem Quiet.suffix {n : Nat} {key : Text} (before : List Text) {touched : List Text}
    (quiet : Quiet n key (before ++ touched)) : Quiet n key touched := by
  intro front between after split absent
  refine quiet (before ++ front) between after ?_ absent
  rw [split, List.append_assoc]

/-- The uses after a use `u`, since when the keys `used` have been touched -/
theorem chain_after {key : Text} {calls : List RateLimitCall} {u : Use} {used : List Text} {now : ℚ}
    (distinct : (keys windows).Nodup)
    (since : Since settings.rate_limit_memory_max_keys windows key u.current used now)
    (others : key ∉ used) (later : ∀ call ∈ calls, now ≤ call.now)
    (timed : calls.Pairwise fun call later => call.now ≤ later.now)
    (quiet : Quiet settings.rate_limit_memory_max_keys key
      (key :: (used.reverse ++ calls.map RateLimitCall.scoped_key))) :
    (u :: uses settings.toRateLimitSettings round key windows calls).IsChain
      (Use.Next round) := by
  induction calls generalizing windows u used now with
  | nil => exact .singleton u
  | cons call rest ih =>
      have here : now ≤ call.now := later call List.mem_cons_self
      obtain ⟨ahead, ordered⟩ := List.pairwise_cons.mp timed
      have kept := nodup_after settings round call distinct
      rw [uses]
      by_cases same : call.scoped_key = key
      · subst same
        rw [if_pos rfl]
        have few : used.toFinset.card < settings.rate_limit_memory_max_keys := by
          have between := quiet [] used.reverse _ rfl (by simpa using others)
          rwa [List.toFinset_reverse] at between
        refine .cons_cons (since.next few distinct here _ _ _) ?_
        refine ih kept (since_use distinct call.now) List.not_mem_nil ahead ordered ?_
        exact Quiet.suffix (call.scoped_key :: used.reverse) quiet
      · rw [if_neg same]
        refine ih kept (since.other distinct same here) ?_ ahead ordered ?_
        · rw [List.mem_cons, not_or]
          exact ⟨Ne.symm same, others⟩
        · rwa [List.reverse_cons, List.append_assoc]

/-- The uses from a table without the key on -/
theorem chain_uses {key : Text} {calls : List RateLimitCall} (distinct : (keys windows).Nodup)
    (absent : key ∉ keys windows)
    (timed : calls.Pairwise fun call later => call.now ≤ later.now)
    (quiet : Quiet settings.rate_limit_memory_max_keys key
      (calls.map RateLimitCall.scoped_key)) :
    (∀ u ∈ (uses settings.toRateLimitSettings round key windows calls).head?, u.Opens round) ∧
      (uses settings.toRateLimitSettings round key windows calls).IsChain (Use.Next round) := by
  induction calls generalizing windows with
  | nil => exact ⟨by simp [uses], .nil⟩
  | cons call rest ih =>
      obtain ⟨ahead, ordered⟩ := List.pairwise_cons.mp timed
      have kept := nodup_after settings round call distinct
      rw [uses]
      by_cases same : call.scoped_key = key
      · subst same
        rw [if_pos rfl]
        constructor
        · intro u first
          rw [List.head?_cons, Option.mem_some_iff] at first
          subst first
          exact counted_opens (absent_unexpired absent)
        · exact chain_after kept (since_use distinct call.now) List.not_mem_nil ahead ordered quiet
      · rw [if_neg same]
        refine ih kept (absent_after same (absent_unexpired absent)) ordered ?_
        exact Quiet.suffix [call.scoped_key] quiet

theorem accepted_uses {key : Text} {calls : List RateLimitCall} {u : Use}
    (mem : u ∈ uses settings.toRateLimitSettings round key windows calls)
    (accepted : u.accepted = true) : (u.current.count : Int) ≤ u.attempts := by
  induction calls generalizing windows with
  | nil => cases mem
  | cons call rest ih =>
      rw [uses] at mem
      split at mem
      · rename_i same
        subst same
        rcases List.mem_cons.mp mem with rfl | later
        · exact accepted_within accepted
        · exact ih later
      · exact ih mem

theorem successes_cons {a : Int} {u : Use} {later : List Use} (positive : 0 < u.current.count)
    (bounded : u.accepted = true → (u.current.count : Int) ≤ u.attempts)
    (rest : successes a later ≤ a.toNat - u.current.count) :
    successes a (u :: later) ≤ a.toNat - (u.current.count - 1) := by
  rw [successes, List.countP_cons, ← successes]
  split
  · rename_i counts
    rw [Bool.and_eq_true, decide_eq_true_eq] at counts
    have within := bounded counts.1
    omega
  · omega

/-- A window counts its uses one by one, and one that succeeds is counted within its attempts. -/
theorem successes_inWindow (a : Int) {u : Use} {later : List Use}
    (chain : (u :: later).IsChain (Use.Next round))
    (bounded : ∀ v ∈ u :: later, v.accepted = true → (v.current.count : Int) ≤ v.attempts)
    (positive : 0 < u.current.count) :
    successes a (u.inWindow later) ≤ a.toNat - (u.current.count - 1) := by
  induction later generalizing u with
  | nil => exact successes_cons positive (bounded u List.mem_cons_self) (Nat.zero_le _)
  | cons v rest ih =>
      obtain ⟨next, further⟩ := List.isChain_cons_cons.mp chain
      refine successes_cons positive (bounded u List.mem_cons_self) ?_
      rcases next with ⟨alive, again⟩ | ⟨expired, -⟩
      · rw [List.takeWhile_cons_of_pos (by simpa using alive)]
        have inside := ih further (fun w mem => bounded w (List.mem_cons_of_mem u mem))
          (again ▸ Nat.succ_pos _)
        rw [Use.inWindow, again] at inside
        exact inside
      · rw [List.takeWhile_cons_of_neg (by simpa using expired)]
        exact Nat.zero_le _

theorem length_windowsAfter (calls : List RateLimitCall) :
    (windowsAfter settings.toRateLimitSettings round calls).length ≤
      settings.rate_limit_memory_max_keys := by
  induction calls using List.reverseRecOn with
  | nil => exact Nat.zero_le _
  | append_singleton calls call =>
      rw [windowsAfter, Runs.run_append, Runs.run_cons, Runs.run_nil, check_rate_limit_windows]
      exact length_evict _ _

end

/-- The table stays bounded. A key that is not crowded out opens a window at its first use and
    again only when that has expired, and has at most `a` successes in each window among the
    calls that allow at most `a` attempts. -/
theorem check_rate_limit_limits (settings : MemorySettings) (round : ℚ → ℚ) (timed : TimedCalls) :
    (∀ calls, (windowsAfter settings.toRateLimitSettings round calls).length ≤
      settings.rate_limit_memory_max_keys) ∧
    ∀ key, Quiet settings.rate_limit_memory_max_keys key
        (timed.calls.map RateLimitCall.scoped_key) →
      Limited round (uses settings.toRateLimitSettings round key [] timed.calls) := by
  refine ⟨length_windowsAfter, fun key quiet => ?_⟩
  have distinct : (keys ([] : MemoryWindows)).Nodup := List.nodup_nil
  have absent : key ∉ keys ([] : MemoryWindows) := List.not_mem_nil
  obtain ⟨first, chain⟩ : (∀ u ∈ (uses settings.toRateLimitSettings round key []
      timed.calls).head?, u.Opens round) ∧ _ :=
    chain_uses distinct absent timed.nondecreasing quiet
  refine ⟨first, chain, fun before u later split opens a => ?_⟩
  have fromHere : (u :: later).IsChain (Use.Next round) := by
    rw [split] at chain
    exact chain.right_of_append
  have bounded : ∀ v ∈ u :: later, v.accepted = true → (v.current.count : Int) ≤ v.attempts := by
    intro v mem
    have used : v ∈ uses settings.toRateLimitSettings round key [] timed.calls :=
      split ▸ List.mem_append_right before mem
    exact accepted_uses used
  have counted := successes_inWindow a fromHere bounded
  rw [opens] at counted
  exact counted Nat.one_pos

/-- Two logins of one client and one of another in between -/
def threeCalls : TimedCalls where
  calls := [⟨text "a", none, none, none, text "RATE_LIMITED", [], 0, none⟩,
    ⟨text "b", none, none, none, text "RATE_LIMITED", [], 1, none⟩,
    ⟨text "a", none, none, none, text "RATE_LIMITED", [], 2, none⟩]
  nondecreasing := by norm_num

theorem check_rate_limit_limits_threeCalls :
    Limited id (uses memorySettings.toRateLimitSettings id (text "a") [] threeCalls.calls) := by
  refine (check_rate_limit_limits memorySettings id threeCalls).2 (text "a") ?_
  intro before between after split _
  have total := congrArg List.length split
  simp only [threeCalls, List.map_cons, List.map_nil, List.length_append, List.length_cons,
    List.length_nil] at total
  calc between.toFinset.card
    _ ≤ between.length := List.toFinset_card_le between
    _ < memorySettings.rate_limit_memory_max_keys := by
      rw [show memorySettings.rate_limit_memory_max_keys = 10000 from rfl]
      omega

end PackageRegistry.Auth
