import Mathlib.Data.Finset.Lattice.Fold
import PackageRegistry.Store.Immutability

/-! # Publishers of one artifact agree

Calls for one module and version race from an absent artifact, with sources that
are what they expect and without faults. Whoever links the artifact decides the
outcome of everybody, now and later.
-/

namespace PackageRegistry.Store

open Runs

/-- A call whose arguments are valid and whose source is what it expects. -/
structure Healthy (store : FilesystemArtifactStore) (c : PublishCall) (source : Bytes) : Prop where
  identity : ∃ relative, _identity c.module_id c.version c.expected_sha256 = .ok relative
  sourcePath : ∃ path, _safe_absolute c.source = .ok path
  digest : store.sha256 source = c.expected_sha256

/-- The message of `_verify_at` on a file with another digest. -/
def conflict : StoreError :=
  .artifactConflict "Existing artifact SHA-256 mismatch; refusing overwrite"

section

variable (store : FilesystemArtifactStore) (c : PublishCall)

/-- The result of a call, against whether it made the link. -/
def Outcome (fs : FileSystem) (won : Prop) : Result → Prop
  | .ok publication => publication.status = .published ↔ won
  | .error e => e = conflict ∧ ¬won ∧
      ∃ fd, fs.file (finalPath store c) = some fd ∧ store.sha256 (fs.content fd) ≠ c.expected_sha256

/-- What a call without faults has done so far. -/
def OnTrack (source : Bytes) (fs : FileSystem) (won : Prop) : Pc → Prop
  | .hashSource acc => acc <+: source ∧ ¬won
  | .copy tmp => fs.content tmp <+: source ∧ ¬won
  | .fchmodPartial tmp | .fsyncPartial tmp | .hashPartial tmp _ | .checkParent tmp | .link tmp =>
      fs.content tmp = source ∧ ¬won
  | .openFinal status | .readFinal status _ _ =>
      (∃ fd, fs.file (finalPath store c) = some fd) ∧ (status = .published ↔ won)
  | .fsyncFinalParent publication => publication.status = .published ↔ won
  | .unlinkPartial result | .fsyncStaging result | .returned result => Outcome store c fs won result
  | .removalFailed _ | .crashed => False
  | _ => ¬won

end

variable {store : FilesystemArtifactStore} {call : Pid → PublishCall}

theorem verified_error {c : PublishCall} {bytes : Bytes} {e : StoreError}
    (h : verified store c bytes = .error e) :
    e = conflict ∧ store.sha256 bytes ≠ c.expected_sha256 := by
  unfold verified at h
  split at h
  · cases h
  · exact ⟨(Except.error.inj h).symm, ‹_›⟩

/-! ## Who made the link -/

theorem links_eq_true {c : PublishCall} {fs : FileSystem} {pc : Pc} :
    links store c fs pc = true ↔ (∃ tmp, pc = .link tmp) ∧ fs.file (finalPath store c) = none := by
  cases pc <;> simp [links]

theorem linker_step (s : State) (pid : Pid) (path : Path) :
    (s.step store call (.step pid)).linker path =
      if links store (call pid) s.fs (s.pc pid) = true ∧ path = finalPath store (call pid) then
        some pid
      else s.linker path := by
  by_cases fires : links store (call pid) s.fs (s.pc pid) = true
  · by_cases final : path = finalPath store (call pid)
    · simp [State.step, fires, final]
    · simp [State.step, fires, final]
  · simp [State.step, fires]

theorem unlinked_of_links {s : State} (inv : Inv store call s) {pid : Pid}
    (fires : links store (call pid) s.fs (s.pc pid) = true) :
    s.linker (finalPath store (call pid)) = none := by
  cases linked : s.linker (finalPath store (call pid)) with
  | none => rfl
  | some owner =>
      obtain ⟨i, present⟩ := inv.linked _ _ linked
      rw [links_free fires] at present
      cases present

/-- The first to link a path stays its linker. -/
theorem linker_kept {s : State} (inv : Inv store call s) (e : Event) {path : Path} {owner : Pid}
    (linked : s.linker path = some owner) : (s.step store call e).linker path = some owner := by
  cases e with
  | step pid =>
      rw [linker_step, if_neg]
      · exact linked
      · rintro ⟨fires, rfl⟩
        rw [unlinked_of_links inv fires] at linked
        cases linked
  | fail | crash | rewriteSource => exact linked

/-- Another call's step does not decide whether this one has won. -/
theorem won_other {s : State} (inv : Inv store call s) {pid q : Pid} (other : q ≠ pid) (path : Path) :
    (s.step store call (.step pid)).linker path = some q ↔ s.linker path = some q := by
  rw [linker_step]
  split
  · rename_i fires
    obtain ⟨fires, rfl⟩ := fires
    simp [unlinked_of_links inv fires, Ne.symm other]
  · rfl

/-! ## Steps of the race -/

theorem Outcome.spared {s : State} {fs' : FileSystem} (inv : Inv store call s) {pid : Pid}
    (spares : Spares s.fs fs' pid) {c : PublishCall} {won : Prop} {result : Result}
    (h : Outcome store c s.fs won result) : Outcome store c fs' won result := by
  cases result with
  | ok publication => exact h
  | error e =>
      obtain ⟨message, lost, fd, present, different⟩ := h
      exact ⟨message, lost, fd, spares.fileKept _ fd present,
        by rwa [spares.published inv present]⟩

/-- Frame: another call is where it was. -/
theorem OnTrack.spared {s : State} {fs' : FileSystem} (inv : Inv store call s) {pid q : Pid}
    (spares : Spares s.fs fs' pid) (other : q ≠ pid) {source : Bytes} {won : Prop} {pc : Pc}
    (own : ProcOK store call q s.fs pc) (h : OnTrack store (call q) source s.fs won pc) :
    OnTrack store (call q) source fs' won pc := by
  have copying : ∀ {tmp}, Private s.fs q tmp → fs'.content tmp = s.fs.content tmp := fun isPrivate =>
    spares.contentKept _ (inv.stagedAllocated q _ isPrivate.1) fun mine =>
      other (inv.distinct q pid _ isPrivate.1 mine.1)
  cases pc with
  | copy | fchmodPartial | fsyncPartial => exact ⟨copying own ▸ h.1, h.2⟩
  | hashPartial | checkParent | link => exact ⟨copying own.1 ▸ h.1, h.2⟩
  | openFinal | readFinal =>
      obtain ⟨⟨fd, present⟩, decided⟩ := h
      exact ⟨⟨fd, spares.fileKept _ fd present⟩, decided⟩
  | unlinkPartial | fsyncStaging | returned => exact Outcome.spared inv spares h
  | _ => exact h

/-- A call that reads another digest under its path did not make the link. -/
theorem mismatch_of_read {s : State} (inv : Inv store call s) {pid : Pid} (fd : InodeId)
    (acc : Bytes) (e : StoreError) (present : s.fs.file (finalPath store (call pid)) = some fd)
    (readSoFar : acc <+: s.fs.content fd) (atEnd : chunk (s.fs.content fd) acc.length = [])
    (bad : verified store (call pid) acc = .error e) :
    Outcome store (call pid) s.fs (s.linker (finalPath store (call pid)) = some pid) (.error e) := by
  obtain ⟨message, different⟩ := verified_error bad
  rw [chunk_eq_nil readSoFar atEnd] at different
  refine ⟨message, fun won => ?_, fd, present, different⟩
  obtain ⟨owner, linked, -, digest⟩ := inv.complete _ _ present
  rw [won, Option.some.injEq] at linked
  exact different (linked ▸ digest)

/-- A call's own step without a fault keeps it on track. -/
theorem advance_onTrack {s : State} (inv : Inv store call s) {pid : Pid}
    (healthy : Healthy store (call pid) (s.source pid))
    (track : OnTrack store (call pid) (s.source pid) s.fs
      (s.linker (finalPath store (call pid)) = some pid) (s.pc pid)) :
    OnTrack store (call pid) (s.source pid) (s.step store call (.step pid)).fs
      ((s.step store call (.step pid)).linker (finalPath store (call pid)) = some pid)
      ((s.step store call (.step pid)).pc pid) := by
  have own := inv.procs pid
  have spares := (advance_effect store (call pid) pid (s.source pid) s.fs (s.pc pid)).spares inv
  have mismatch := fun fd acc e => @mismatch_of_read store call s inv pid fd acc e
  rw [linker_step, step_fs]
  simp only [State.step, Function.update_self, and_true]
  generalize s.pc pid = pc at own spares track
  cases pc with
  | start =>
      obtain ⟨relative, identity⟩ := healthy.identity
      obtain ⟨path, sourcePath⟩ := healthy.sourcePath
      simp only [advance, identity, sourcePath]
      exact ⟨List.nil_prefix, track⟩
  | hashSource acc =>
      simp only [advance]
      split
      · rename_i atEnd
        rw [if_pos (by rw [chunk_eq_nil track.1 atEnd, healthy.digest])]
        exact track.2
      · exact ⟨chunk_append track.1, track.2⟩
  | walk goal here todo =>
      cases todo with
      | nil => cases goal <;> exact track
      | cons name rest => exact track
  | openChild w created => cases created <;> exact track
  | fchmodChild | fsyncChild | fsyncHere | checkStaging => exact track
  | openExisting =>
      simp only [advance]
      split <;> exact track
  | readExisting fd acc =>
      simp only [advance]
      split
      · split
        · exact track
        · exact mismatch fd acc _ own.2.1 own.2.2 ‹_› ‹_›
      · exact track
  | reopenExisting artifact =>
      obtain ⟨-, fd, present, -⟩ := own
      simp only [advance, present]
      exact track
  | fsyncExisting fd artifact => exact track
  | fsyncExistingParent artifact => exact ⟨by rintro ⟨⟩, fun won => absurd won track⟩
  | openPartial => exact ⟨by simp [advance, FileSystem.createStaged], track⟩
  | copy tmp =>
      simp only [advance]
      split
      · exact ⟨chunk_eq_nil track.1 ‹_›, track.2⟩
      · refine ⟨?_, track.2⟩
        simp only [FileSystem.append, Function.update_self]
        exact chunk_append track.1
  | fchmodPartial | fsyncPartial | checkParent => exact track
  | hashPartial tmp acc =>
      simp only [advance]
      split
      · rename_i atEnd
        rw [if_pos (by rw [chunk_eq_nil own.2 atEnd, track.1, healthy.digest])]
        exact track
      · exact track
  | link tmp =>
      cases present : s.fs.file (finalPath store (call pid)) with
      | none =>
          simp only [advance, links, present]
          exact ⟨by simp [FileSystem.link], by simp⟩
      | some fd =>
          simp only [advance, links, present]
          exact ⟨⟨fd, present⟩, ⟨by rintro ⟨⟩, fun won => absurd won track.2⟩⟩
  | openFinal status =>
      obtain ⟨⟨fd, present⟩, decided⟩ := track
      simp only [advance, present]
      exact ⟨⟨fd, present⟩, decided⟩
  | readFinal status fd acc =>
      simp only [advance]
      split
      · split
        · exact track.2
        · exact mismatch fd acc _ own.1 own.2 ‹_› ‹_›
      · exact track
  | fsyncFinalParent publication => exact track
  | unlinkPartial result => exact Outcome.spared inv spares track
  | fsyncStaging result => exact Outcome.spared inv spares track
  | returned result => exact track
  | removalFailed | crashed => exact track

/-! ## The race -/

/-- A step of one of the first `m` calls. -/
def Entrant (m : Nat) : Event → Prop
  | .step pid => pid < m
  | _ => False

/-- The first `m` calls race for one path, with files of at most `bound` bytes. -/
structure Race (store : FilesystemArtifactStore) (call : Pid → PublishCall) (path : Path)
    (m bound : Nat) (s : State) : Prop where
  inv : Inv store call s
  reachable : Reachable store call s
  same : ∀ i < m, finalPath store (call i) = path
  healthy : ∀ i < m, Healthy store (call i) (s.source i)
  small : ∀ i < m, (s.source i).length ≤ bound
  onTrack : ∀ i < m, OnTrack store (call i) (s.source i) s.fs (s.linker path = some i) (s.pc i)
  entrant : ∀ winner, s.linker path = some winner → winner < m
  bounded : ∀ fd, s.fs.file path = some fd → (s.fs.content fd).length ≤ bound

variable {path : Path} {m bound : Nat}

theorem Race.bounded_step {s : State} (race : Race store call path m bound s) {pid : Pid}
    (inside : pid < m) {fd : InodeId}
    (present : (s.step store call (.step pid)).fs.file path = some fd) :
    ((s.step store call (.step pid)).fs.content fd).length ≤ bound := by
  have spares :=
    (advance_effect store (call pid) pid (s.source pid) s.fs (s.pc pid)).spares race.inv
  rw [step_fs] at present ⊢
  rcases advance_published (call pid) pid (s.source pid) s.fs (s.pc pid) path fd present with
    old | ⟨rfl, at_⟩
  · rw [spares.published race.inv old]
    exact race.bounded fd old
  · have track := race.onTrack pid inside
    rw [at_] at track ⊢
    have kept : (advance store (call pid) pid (s.source pid) s.fs (.link fd)).1.content fd =
        s.fs.content fd := by
      simp only [advance]
      split <;> rfl
    rw [kept, track.1]
    exact race.small pid inside

theorem race_step {s : State} (race : Race store call path m bound s) {e : Event}
    (admissible : Entrant m e) : Race store call path m bound (s.step store call e) := by
  cases e with
  | step pid =>
      have inside : pid < m := admissible
      refine {
        inv := inv_step race.inv _
        reachable := reachable_step race.reachable _
        same := race.same
        healthy := race.healthy
        small := race.small
        onTrack := fun i below => ?_
        entrant := fun winner linked => ?_
        bounded := fun fd => race.bounded_step inside }
      · by_cases own : i = pid
        · subst own
          have track := race.onTrack i below
          rw [← race.same i below] at track ⊢
          exact advance_onTrack race.inv (race.healthy i below) track
        · have spares :=
            (advance_effect store (call pid) pid (s.source pid) s.fs (s.pc pid)).spares race.inv
          rw [won_other race.inv own]
          simpa [State.step, Function.update_of_ne own] using
            (race.onTrack i below).spared race.inv spares own (race.inv.procs i)
      · rw [linker_step] at linked
        split at linked
        · exact Option.some.inj linked ▸ inside
        · exact race.entrant winner linked
  | fail | crash | rewriteSource => exact admissible.elim

theorem race_run {s : State} (race : Race store call path m bound s) {events : List Event}
    (admissible : ∀ e ∈ events, Entrant m e) :
    Race store call path m bound (run (State.step store call) s events) :=
  run_invariant_along (I := Race store call path m bound) (A := fun _ e => Entrant m e)
    (fun _ _ race admissible => race_step race admissible) race (along_of_forall admissible s)

/-! ## Every call returns -/

def isStepOf (pid : Pid) : Event → Bool
  | .step q => q == pid
  | _ => false

/-- A bound on the steps a call still takes. -/
def rank (store : FilesystemArtifactStore) (c : PublishCall) (bound : Nat) (fs : FileSystem) :
    Pc → Nat
  | .returned _ | .removalFailed _ | .crashed => 0
  | .fsyncStaging _ | .fsyncExistingParent _ => 1
  | .unlinkPartial _ | .fsyncExisting _ _ => 2
  | .fsyncFinalParent _ | .reopenExisting _ => 3
  | .readFinal _ _ acc | .readExisting _ acc => 4 + (bound - acc.length)
  | .openFinal _ => 5 + bound
  | .link _ => 6 + bound
  | .checkParent _ => 7 + bound
  | .hashPartial _ acc => 8 + bound + (bound - acc.length)
  | .fsyncPartial _ => 9 + 2 * bound
  | .fchmodPartial _ => 10 + 2 * bound
  | .copy tmp => 11 + 2 * bound + (bound - (fs.content tmp).length)
  | .openPartial => 12 + 3 * bound
  | .checkStaging => 13 + 3 * bound
  | .walk goal _ todo => walking goal + 5 * todo.length
  | .openChild w _ => walking w.goal + 5 * w.rest.length + 4
  | .fchmodChild w => walking w.goal + 5 * w.rest.length + 3
  | .fsyncChild w => walking w.goal + 5 * w.rest.length + 2
  | .fsyncHere w => walking w.goal + 5 * w.rest.length + 1
  | .openExisting => walking .parent - 1
  | .hashSource acc => walking .parent + 5 * (parentPath store c).length + 1 + (bound - acc.length)
  | .start => walking .parent + 5 * (parentPath store c).length + 2 + bound
where
  walking : Goal → Nat
    | .staging => 14 + 3 * bound
    | .parent => 16 + 3 * bound + 5 * (stagingPath store).length

theorem chunk_shortens {content acc : Bytes} (readSoFar : acc <+: content)
    (within : content.length ≤ bound) (more : chunk content acc.length ≠ []) :
    bound - (acc ++ chunk content acc.length).length < bound - acc.length := by
  have longer := (chunk_append readSoFar).length_le
  have nonempty := List.length_pos_of_ne_nil more
  rw [List.length_append] at longer ⊢
  omega

/-- Every own step of a call in the race brings it closer to its return. -/
theorem Race.rank_own {s : State} (race : Race store call path m bound s) {pid : Pid}
    (inside : pid < m) :
    rank store (call pid) bound (s.step store call (.step pid)).fs
        ((s.step store call (.step pid)).pc pid) ≤
      rank store (call pid) bound s.fs (s.pc pid) - 1 := by
  have own := race.inv.procs pid
  have track := race.onTrack pid inside
  have small := race.small pid inside
  have bounded := race.bounded
  rw [← race.same pid inside] at track bounded
  rw [step_fs]
  simp only [State.step, Function.update_self]
  generalize s.pc pid = pc at own track
  cases pc with
  | start =>
      obtain ⟨relative, identity⟩ := (race.healthy pid inside).identity
      obtain ⟨path, sourcePath⟩ := (race.healthy pid inside).sourcePath
      simp only [advance, identity, sourcePath, rank, List.length_nil]
      omega
  | hashSource acc =>
      have digest := (race.healthy pid inside).digest
      simp only [advance]
      split
      · rename_i atEnd
        rw [if_pos (by rw [chunk_eq_nil track.1 atEnd, digest])]
        simp only [rank]
        omega
      · have shorter := chunk_shortens track.1 small ‹_›
        simp only [rank]
        omega
  | walk goal here todo =>
      cases todo with
      | nil => cases goal <;> simp only [advance, Goal.next, rank, rank.walking] <;> omega
      | cons name rest =>
          simp only [advance, rank, List.length_cons]
          omega
  | openChild w created =>
      cases created
      · simp only [advance, rank, Bool.false_eq_true, if_false]
        omega
      · simp only [advance, rank, if_true]
        omega
  | openExisting =>
      simp only [advance]
      split <;> simp only [rank, rank.walking, List.length_nil] <;> omega
  | readExisting fd acc =>
      have bounded := bounded fd own.2.1
      simp only [advance]
      split
      · split <;> simp only [rank] <;> omega
      · have shorter := chunk_shortens own.2.2 bounded ‹_›
        simp only [rank]
        omega
  | reopenExisting artifact =>
      obtain ⟨-, fd, present, -⟩ := own
      simp only [advance, present, rank]
      omega
  | openPartial =>
      simp only [advance, rank, FileSystem.createStaged, Function.update_self, List.length_nil]
      omega
  | copy tmp =>
      simp only [advance]
      split
      · simp only [rank]
        omega
      · have shorter := chunk_shortens track.1 small ‹_›
        simp only [rank, FileSystem.append, Function.update_self]
        omega
  | hashPartial tmp acc =>
      have within : (s.fs.content tmp).length ≤ bound := track.1 ▸ small
      simp only [advance]
      split
      · split <;> simp only [rank] <;> omega
      · have shorter := chunk_shortens own.2 within ‹_›
        simp only [rank]
        omega
  | link tmp =>
      simp only [advance]
      split <;> simp only [rank] <;> omega
  | openFinal status =>
      obtain ⟨⟨fd, present⟩, -⟩ := track
      simp only [advance, present, rank, List.length_nil]
      omega
  | readFinal status fd acc =>
      have bounded := bounded fd own.1
      simp only [advance]
      split
      · split <;> simp only [rank] <;> omega
      · have shorter := chunk_shortens own.2 bounded ‹_›
        simp only [rank]
        omega
  | removalFailed | crashed => exact track.elim
  | fchmodChild | fsyncChild | fsyncHere | fsyncExisting | fsyncExistingParent | checkStaging
  | fchmodPartial | fsyncPartial | checkParent | fsyncFinalParent | unlinkPartial | fsyncStaging
  | returned =>
      simp only [advance, rank, List.length_nil]
      omega

theorem Race.rank_other {s : State} (race : Race store call path m bound s) {pid q : Pid}
    (other : q ≠ pid) :
    rank store (call q) bound (s.step store call (.step pid)).fs
        ((s.step store call (.step pid)).pc q) = rank store (call q) bound s.fs (s.pc q) := by
  have own := race.inv.procs q
  have spares :=
    (advance_effect store (call pid) pid (s.source pid) s.fs (s.pc pid)).spares race.inv
  rw [step_fs]
  simp only [State.step, Function.update_of_ne other]
  generalize s.pc q = pc at own
  cases pc with
  | copy tmp =>
      have kept := spares.contentKept tmp (race.inv.stagedAllocated q tmp own.1) fun mine =>
        other (race.inv.distinct q pid tmp own.1 mine.1)
      simp only [rank, kept]
  | _ => rfl

theorem rank_run {s : State} (race : Race store call path m bound s) {events : List Event}
    (admissible : ∀ e ∈ events, Entrant m e) {pid : Pid} (inside : pid < m) :
    let s' := run (State.step store call) s events
    rank store (call pid) bound s'.fs (s'.pc pid) ≤
      rank store (call pid) bound s.fs (s.pc pid) -
        events.countP (isStepOf pid) := by
  refine run_rank (I := Race store call path m bound) (A := fun _ e => Entrant m e)
    (fun s : State => rank store (call pid) bound s.fs (s.pc pid))
    (fun _ _ race admissible => race_step race admissible) ?_ ?_ race (along_of_forall admissible s)
  · intro s e race admissible
    cases e with
    | step q =>
        by_cases own : pid = q
        · subst own
          exact (race.rank_own inside).trans (Nat.sub_le _ _)
        · exact Nat.le_of_eq (race.rank_other own)
    | fail | crash | rewriteSource => exact admissible.elim
  · intro s e race admissible mine
    cases e with
    | step q =>
        have own : q = pid := by simpa [isStepOf] using mine
        subst own
        exact race.rank_own inside
    | fail | crash | rewriteSource => exact admissible.elim

theorem Race.returned_of_rank {s : State} (race : Race store call path m bound s) {pid : Pid}
    (inside : pid < m) (spent : rank store (call pid) bound s.fs (s.pc pid) = 0) :
    ∃ result, s.pc pid = .returned result := by
  have track := race.onTrack pid inside
  generalize s.pc pid = pc at spent track
  cases pc with
  | returned result => exact ⟨result, rfl⟩
  | removalFailed | crashed => exact track.elim
  | walk goal here todo => cases goal <;> simp [rank, rank.walking] at spent
  | openExisting =>
      simp only [rank, rank.walking] at spent
      omega
  | _ => simp [rank] at spent

/-! ## The outcome -/

theorem race_start (m bound : Nat) {s : State} (inv : Inv store call s) (reachable : Reachable store call s)
    (same : ∀ i < m, finalPath store (call i) = path)
    (healthy : ∀ i < m, Healthy store (call i) (s.source i)) (waiting : ∀ i < m, s.pc i = .start)
    (absent : s.fs.read path = none) (small : ∀ i < m, (s.source i).length ≤ bound) :
    Race store call path m bound s := by
  have noFile : s.fs.file path = none := by
    rw [read_eq_cells reachable] at absent
    exact Option.map_eq_none_iff.mp absent
  have unlinked : ∀ owner, s.linker path ≠ some owner := by
    intro owner linked
    obtain ⟨i, present⟩ := inv.linked path owner linked
    rw [noFile] at present
    cases present
  refine {
    inv, reachable, same, healthy, small
    onTrack := fun i below => ?_
    entrant := fun winner linked => absurd linked (unlinked winner)
    bounded := fun fd present => by
      rw [noFile] at present
      cases present }
  rw [waiting i below]
  exact unlinked i

/-- The result of a call that did not make the link, by its digest. -/
def answer (artifact : StoredArtifact) (c : PublishCall) : Result :=
  if c.expected_sha256 = artifact.digest then .ok ⟨artifact, .alreadyPresent⟩ else .error conflict

theorem Race.winner {s : State} (race : Race store call path m bound s) {fd : InodeId}
    (present : s.fs.file path = some fd) :
    ∃ w < m, s.linker path = some w ∧ store.sha256 (s.fs.content fd) = (call w).expected_sha256 := by
  obtain ⟨w, linked, -, digest⟩ := race.inv.complete path fd present
  exact ⟨w, race.entrant w linked, linked, digest⟩

/-- What a call that has returned was told about the file that is there. -/
theorem Race.result {s : State} (race : Race store call path m bound s) {id version : Text}
    {fd : InodeId} (present : s.fs.file path = some fd) {j : Pid} (inside : j < m)
    (sameModule : (call j).module_id = id ∧ (call j).version = version) {result : Result}
    (returned : s.pc j = .returned result) :
    let artifact :=
      _metadata id version (store.sha256 (s.fs.content fd)) (s.fs.content fd).length
    result = if s.linker path = some j then .ok ⟨artifact, .published⟩
      else answer artifact (call j) := by
  intro artifact
  have track := race.onTrack j inside
  have own := race.inv.procs j
  rw [returned] at track own
  cases result with
  | ok publication =>
      obtain ⟨art, status⟩ := publication
      obtain ⟨fd', present', ok⟩ := own.2 _ rfl
      rw [race.same j inside, present, Option.some.injEq] at present'
      subst present'
      obtain ⟨digest, rfl⟩ := verified_ok ok
      have decided : status = .published ↔ s.linker path = some j := track
      split
      · rename_i won
        rw [decided.mpr won, ← digest, sameModule.1, sameModule.2]
      · rename_i lost
        cases status with
        | published => exact absurd (decided.mp rfl) lost
        | alreadyPresent =>
            simp only [answer, artifact, _metadata, ← digest, if_pos, sameModule.1, sameModule.2]
  | error e =>
      obtain ⟨rfl, lost, fd', present', different⟩ := track
      rw [race.same j inside, present, Option.some.injEq] at present'
      subst present'
      rw [if_neg lost, answer, if_neg]
      exact Ne.symm different

theorem Race.present_of_returned {s : State} (race : Race store call path m bound s) {j : Pid}
    (inside : j < m) {result : Result} (returned : s.pc j = .returned result) :
    ∃ fd, s.fs.file path = some fd := by
  have track := race.onTrack j inside
  have own := race.inv.procs j
  rw [returned] at track own
  cases result with
  | ok publication =>
      obtain ⟨fd, present, -⟩ := own.2 _ rfl
      exact ⟨fd, race.same j inside ▸ present⟩
  | error e =>
      obtain ⟨-, -, fd, present, -⟩ := track
      exact ⟨fd, race.same j inside ▸ present⟩

theorem linker_run {s : State} (inv : Inv store call s) (events : List Event) {owner : Pid}
    (linked : s.linker path = some owner) :
    (run (State.step store call) s events).linker path = some owner :=
  run_relation (I := Inv store call)
    (R := fun (s s' : State) => s.linker path = some owner → s'.linker path = some owner)
    (fun _ e inv => inv_step inv e) (fun _ => id) (fun h h' => h' ∘ h)
    (fun _ e inv => linker_kept inv e) inv events linked

theorem verify_of_read {s : State} {c : PublishCall} {bytes : Bytes}
    (identity : ∃ relative, _identity c.module_id c.version c.expected_sha256 = .ok relative)
    (present : s.fs.read (finalPath store c) = some bytes) :
    verify store s.fs c = verified store c bytes := by
  obtain ⟨relative, ok⟩ := identity
  simp only [verify, ok, present]

section

variable (store : FilesystemArtifactStore) (call : Pid → PublishCall) (id version : Text)

/-- Under every schedule, a call returns once it has taken enough steps. -/
def EveryCallReturns (m : Nat) (s : State) : Prop :=
  ∃ enough, ∀ events, (∀ e ∈ events, Entrant m e) → ∀ i < m,
    enough ≤ events.countP (isStepOf i) →
      ∃ result, (run (State.step store call) s events).pc i = .returned result

/-- Once the first `n` calls have returned, one has published and the others know
    its artifact or refuse it. So does everybody who comes later, up to call `m`. -/
def Agreement (n m : Nat) (s : State) : Prop :=
  ∀ events, (∀ e ∈ events, Entrant n e) →
    let s' := run (State.step store call) s events
    (∀ i < n, ∃ result, s'.pc i = .returned result) →
      ∃ winner < n, ∃ artifact bytes,
        artifact.digest = (call winner).expected_sha256 ∧
        s'.pc winner = .returned (.ok ⟨artifact, .published⟩) ∧
        (∀ i < n, i ≠ winner → s'.pc i = .returned (answer artifact (call i))) ∧
        ∀ later, (∀ e ∈ later, Entrant m e) →
          let s'' := run (State.step store call) s' later
          s''.fs.read (store.root ++ relativePath id version) = some bytes ∧
          (∀ i < m, n ≤ i → ∀ result, s''.pc i = .returned result →
            result = answer artifact (call i)) ∧
          ∀ c : PublishCall, c.module_id = id → c.version = version →
            SHA256_RE c.expected_sha256 = true →
            verify store s''.fs c =
              if c.expected_sha256 = artifact.digest then .ok artifact else .error conflict

end

theorem relative_of_identity {id version digest digest' : Text} {relative : Path}
    (h : _identity id version digest = .ok relative) (shape : SHA256_RE digest' = true) :
    _identity id version digest' = .ok relative := by
  unfold _identity at h ⊢
  cases canonical : canonical_artifact_relative_path id version with
  | none => simp [canonical] at h
  | some r =>
      simp only [canonical] at h ⊢
      split at h
      · simpa [shape] using h
      · cases h

theorem every_call_returns {s : State} (race : Race store call path m bound s)
    (waiting : ∀ i < m, s.pc i = .start) : EveryCallReturns store call m s := by
  refine ⟨(Finset.range m).sup fun i => rank store (call i) bound s.fs .start,
    fun events admissible i inside many => ?_⟩
  refine (race_run race admissible).returned_of_rank inside ?_
  have spent := rank_run race admissible inside
  have top := Finset.le_sup (f := fun i => rank store (call i) bound s.fs .start)
    (Finset.mem_range.mpr inside)
  simp only [waiting i inside] at spent
  exact Nat.le_zero.mp (spent.trans (Nat.sub_eq_zero_of_le (top.trans many)).le)

/-- What is there decides what `verify` says about a digest. -/
theorem Race.verify_eq {s : State} {id version : Text}
    (race : Race store call (store.root ++ relativePath id version) m bound s)
    (sameModule : ∀ i < m, (call i).module_id = id ∧ (call i).version = version)
    (someone : 0 < m) {bytes : Bytes}
    (stored : s.fs.read (store.root ++ relativePath id version) = some bytes) {c : PublishCall}
    (sameId : c.module_id = id) (sameVersion : c.version = version)
    (shape : SHA256_RE c.expected_sha256 = true) :
    let artifact := _metadata id version (store.sha256 bytes) bytes.length
    verify store s.fs c =
      if c.expected_sha256 = artifact.digest then .ok artifact else .error conflict := by
  intro artifact
  obtain ⟨relative, identity⟩ := (race.healthy 0 someone).identity
  have valid := relative_of_identity identity shape
  rw [(sameModule 0 someone).1, (sameModule 0 someone).2] at valid
  subst sameId sameVersion
  rw [verify_of_read ⟨relative, valid⟩ stored, verified]
  by_cases same : store.sha256 bytes = c.expected_sha256
  · simp only [same, artifact, _metadata, if_true]
  · rw [if_neg same, if_neg]
    · rfl
    · exact Ne.symm same

theorem race_agrees {s : State} {id version : Text} {n : Nat} (someone : 0 < n) (within : n ≤ m)
    (race : Race store call (store.root ++ relativePath id version) m bound s)
    (first : Race store call (store.root ++ relativePath id version) n bound s)
    (sameModule : ∀ i < m, (call i).module_id = id ∧ (call i).version = version) :
    Agreement store call id version n m s := by
  intro events admissible s' returned
  have race' : Race store call (store.root ++ relativePath id version) m bound s' :=
    race_run race fun e mem => by
      have early := admissible e mem
      cases e with
      | step pid => exact Nat.lt_of_lt_of_le early within
      | fail | crash | rewriteSource => exact early.elim
  have first' : Race store call (store.root ++ relativePath id version) n bound s' :=
    race_run first admissible
  obtain ⟨result, done⟩ := returned 0 someone
  obtain ⟨fd, present⟩ := first'.present_of_returned someone done
  obtain ⟨winner, early, linked, digest⟩ := first'.winner present
  let artifact := _metadata id version (store.sha256 (s'.fs.content fd)) (s'.fs.content fd).length
  have stored : s'.fs.read (store.root ++ relativePath id version) = some (s'.fs.content fd) := by
    rw [read_eq_cells race'.reachable, FileSystem.cells, present]
    rfl
  refine ⟨winner, early, artifact, s'.fs.content fd, digest, ?_, fun i below other => ?_,
    fun later admissible' => ?_⟩
  · obtain ⟨result, done⟩ := returned winner early
    have told := first'.result present early (sameModule winner (early.trans_le within)) done
    rw [done, told, if_pos linked]
  · obtain ⟨result, done⟩ := returned i below
    have told := first'.result present below (sameModule i (below.trans_le within)) done
    rw [done, told, if_neg]
    rw [linked, Option.some.injEq]
    exact Ne.symm other
  · intro s''
    have race'' : Race store call (store.root ++ relativePath id version) m bound s'' :=
      race_run race' admissible'
    have stored'' := published_forever race'.inv race'.reachable later stored
    refine ⟨stored'', fun i below notEarly result done => ?_, fun c sameId sameVersion shape =>
      race''.verify_eq sameModule (someone.trans_le within) stored'' sameId sameVersion shape⟩
    obtain ⟨fd'', present'', sameBytes⟩ :
        ∃ fd'', s''.fs.file (store.root ++ relativePath id version) = some fd'' ∧
          s''.fs.content fd'' = s'.fs.content fd := by
      rw [read_eq_cells race''.reachable] at stored''
      exact Option.map_eq_some_iff.mp stored''
    have told := race''.result present'' below (sameModule i below) done
    rw [told, if_neg, sameBytes]
    rw [linker_run race'.inv later linked, Option.some.injEq]
    rintro rfl
    exact absurd early (Nat.not_lt.mpr notEarly)

/-- Publisher agreement: any number of calls for one absent module version, each
    with a source that is what it expects, and no faults. Under every schedule they
    all return, exactly one has published, and the winner's digest alone decides
    what the others and everybody later are told. -/
theorem publishers_agree (store : FilesystemArtifactStore) (call : Pid → PublishCall)
    (id version : Text) (n m : Nat) (someone : 0 < n) (within : n ≤ m)
    (directories : Path → Bool) (source : Pid → Bytes) (earlier : List Event)
    (sameModule : ∀ i < m, (call i).module_id = id ∧ (call i).version = version)
    (healthy : ∀ i < m,
      Healthy store (call i) ((after store call directories source earlier).source i))
    (waiting : ∀ i < m, (after store call directories source earlier).pc i = .start)
    (absent : (after store call directories source earlier).fs.read
      (store.root ++ relativePath id version) = none) :
    EveryCallReturns store call m (after store call directories source earlier) ∧
      Agreement store call id version n m (after store call directories source earlier) := by
  have inv := inv_run (inv_initial store call directories source) earlier
  have reachable := reachable_run (reachable_initial store call directories source) earlier
  have race := fun (k : Nat) (below : k ≤ m) =>
    race_start k ((Finset.range m).sup fun i =>
        ((after store call directories source earlier).source i).length) inv reachable
      (fun i inside => by
        rw [finalPath, (sameModule i (inside.trans_le below)).1,
          (sameModule i (inside.trans_le below)).2])
      (fun i inside => healthy i (inside.trans_le below))
      (fun i inside => waiting i (inside.trans_le below)) absent
      (fun i inside => Finset.le_sup
        (f := fun i => ((after store call directories source earlier).source i).length)
        (Finset.mem_range.mpr (inside.trans_le below)))
  exact ⟨every_call_returns (race m (Nat.le_refl m)) waiting,
    race_agrees someone within (race m (Nat.le_refl m)) (race n within) sameModule⟩

/-! A race of two publishers with different files, and a third call afterwards. -/

theorem smallCall_healthy (pid : Pid) :
    Healthy smallStore (smallCall pid) (smallSource pid) where
  identity := by
    refine ⟨relativePath (text "roads") (text "1.0.0"), ?_⟩
    by_cases first : pid = 1
    · subst first
      decide
    · simp only [smallCall, smallSource, first, if_false]
      decide
  sourcePath := by
    refine ⟨[text "tmp", text "roads.ocp"], ?_⟩
    simp only [smallCall]
    decide
  digest := rfl

theorem publishers_agree_small :
    let s := after smallStore smallCall (fun _ => false) smallSource []
    EveryCallReturns smallStore smallCall 3 s ∧
      Agreement smallStore smallCall (text "roads") (text "1.0.0") 2 3 s :=
  publishers_agree smallStore smallCall (text "roads") (text "1.0.0") 2 3 (by decide) (by decide)
    (fun _ => false) smallSource [] (fun _ _ => ⟨rfl, rfl⟩) (fun i _ => smallCall_healthy i)
    (fun _ _ => rfl) (by decide)

end PackageRegistry.Store
