import PackageRegistry.Lib.WriteOnce
import PackageRegistry.Store.Directories

/-! # Published artifacts never change

Every step of a call falls under one of five effects on the published files and
their bytes. From these follows the invariant of the store: a file that is
published is complete, and nobody holds its inode for writing. The store therefore
refines a family of write-once cells, whatever fails and in whatever order calls run.
-/

namespace PackageRegistry.Store

open Runs

/-! ## Reading a file in pieces -/

theorem chunk_eq_nil {content acc : Bytes} (readSoFar : acc <+: content)
    (atEnd : chunk content acc.length = []) : acc = content := by
  obtain ⟨rest, rfl⟩ := readSoFar
  simp only [chunk, List.drop_left, List.take_eq_nil_iff, chunkSize] at atEnd
  rcases atEnd with h | rfl
  · cases h
  · rw [List.append_nil]

theorem chunk_append {content acc : Bytes} (readSoFar : acc <+: content) :
    acc ++ chunk content acc.length <+: content := by
  obtain ⟨rest, rfl⟩ := readSoFar
  simp only [chunk, List.drop_left]
  exact (List.prefix_append_right_inj acc).mpr (List.take_prefix _ _)

theorem verified_ok {store : FilesystemArtifactStore} {call : PublishCall} {bytes : Bytes}
    {artifact : StoredArtifact} (h : verified store call bytes = .ok artifact) :
    store.sha256 bytes = call.expected_sha256 ∧
      artifact = _metadata call.module_id call.version call.expected_sha256 bytes.length := by
  unfold verified at h
  split at h
  · rename_i same
    exact ⟨same, (Except.ok.inj h).symm⟩
  · cases h

/-! ## The effect of one step -/

/-- Nothing that a reader of the published files can tell apart. -/
structure SameData (fs fs' : FileSystem) : Prop where
  file : fs'.file = fs.file
  staged : fs'.staged = fs.staged
  content : fs'.content = fs.content
  fresh : fs'.fresh = fs.fresh

theorem SameData.refl (fs : FileSystem) : SameData fs fs := ⟨rfl, rfl, rfl, rfl⟩

theorem SameData.mkdir (fs : FileSystem) (path : Path) : SameData fs (fs.mkdir path).1 := by
  unfold FileSystem.mkdir
  split <;> exact ⟨rfl, rfl, rfl, rfl⟩

theorem SameData.fsyncDirectory (fs : FileSystem) (path : Path) :
    SameData fs (fs.fsyncDirectory path) := ⟨rfl, rfl, rfl, rfl⟩

theorem SameData.fsyncFile (fs : FileSystem) (i : InodeId) : SameData fs (fs.fsyncFile i) :=
  ⟨rfl, rfl, rfl, rfl⟩

/-- What a step at a program counter does to the file system. -/
inductive Effect (store : FilesystemArtifactStore) (call : PublishCall) (pid : Pid)
    (fs fs' : FileSystem) : Pc → Prop where
  | quiet {pc : Pc} (same : SameData fs fs') : Effect store call pid fs fs' pc
  | create (h : fs' = fs.createStaged pid) : Effect store call pid fs fs' .openPartial
  | append (tmp : InodeId) (bytes : Bytes) (h : fs' = fs.append tmp bytes) :
      Effect store call pid fs fs' (.copy tmp)
  | link (tmp : InodeId) (free : fs.file (finalPath store call) = none)
      (h : fs' = fs.link tmp (finalPath store call)) : Effect store call pid fs fs' (.link tmp)
  | unlink (result : Result) (h : fs' = fs.unlinkStaged pid) :
      Effect store call pid fs fs' (.unlinkPartial result)

theorem advance_effect (store : FilesystemArtifactStore) (call : PublishCall) (pid : Pid)
    (source : Bytes) (fs : FileSystem) (pc : Pc) :
    Effect store call pid fs (advance store call pid source fs pc).1 pc := by
  cases pc with
  | walk goal here todo =>
      cases todo with
      | nil => exact .quiet (SameData.refl fs)
      | cons name rest => exact .quiet (SameData.mkdir fs _)
  | fsyncChild | fsyncHere | fsyncExistingParent | fsyncFinalParent | fsyncStaging =>
      exact .quiet (SameData.fsyncDirectory fs _)
  | fsyncExisting | fsyncPartial => exact .quiet (SameData.fsyncFile fs _)
  | openPartial => exact .create rfl
  | unlinkPartial result => exact .unlink result rfl
  | copy tmp =>
      simp only [advance]
      split
      · exact .quiet (SameData.refl fs)
      · exact .append tmp _ rfl
  | link tmp =>
      simp only [advance]
      split
      · exact .link tmp ‹_› rfl
      · exact .quiet (SameData.refl fs)
  | openChild w created => cases created <;> exact .quiet (SameData.refl fs)
  | _ =>
      simp only [advance]
      repeat' split
      all_goals exact .quiet (SameData.refl fs)

/-! ## The invariant -/

section

variable (store : FilesystemArtifactStore) (call : Pid → PublishCall)

/-- The file at the call's final path passed the comparison of `_verify_at`. -/
def Stored (c : PublishCall) (fs : FileSystem) (artifact : StoredArtifact) : Prop :=
  ∃ i, fs.file (finalPath store c) = some i ∧ verified store c (fs.content i) = .ok artifact

/-- A result that reports success is about a stored artifact. -/
def Sound (c : PublishCall) (fs : FileSystem) (result : Result) : Prop :=
  ∀ publication, result = .ok publication → Stored store c fs publication.artifact

/-- A private copy that no path leads to. -/
def Private (fs : FileSystem) (pid : Pid) (tmp : InodeId) : Prop :=
  fs.staged pid = some tmp ∧ ∀ path, fs.file path ≠ some tmp

/-- What a call knows where it stands. -/
def ProcOK (pid : Pid) (fs : FileSystem) : Pc → Prop
  | .readExisting fd acc =>
      fs.staged pid = none ∧ fs.file (finalPath store (call pid)) = some fd ∧ acc <+: fs.content fd
  | .reopenExisting artifact | .fsyncExisting _ artifact | .fsyncExistingParent artifact =>
      fs.staged pid = none ∧ Stored store (call pid) fs artifact
  | .copy tmp | .fchmodPartial tmp | .fsyncPartial tmp => Private fs pid tmp
  | .hashPartial tmp acc => Private fs pid tmp ∧ acc <+: fs.content tmp
  | .checkParent tmp | .link tmp =>
      Private fs pid tmp ∧ store.sha256 (fs.content tmp) = (call pid).expected_sha256
  | .readFinal _ fd acc =>
      fs.file (finalPath store (call pid)) = some fd ∧ acc <+: fs.content fd
  | .fsyncFinalParent publication => Stored store (call pid) fs publication.artifact
  | .unlinkPartial result => Sound store (call pid) fs result
  | .fsyncStaging result | .returned result =>
      fs.staged pid = none ∧ Sound store (call pid) fs result
  | .openFinal _ | .removalFailed _ | .crashed => True
  | _ => fs.staged pid = none

/-- A published file is what the call that linked it expected, complete. -/
def Complete (s : State) (path : Path) (i : InodeId) : Prop :=
  ∃ pid, s.linker path = some pid ∧ finalPath store (call pid) = path ∧
    store.sha256 (s.fs.content i) = (call pid).expected_sha256

structure Inv (s : State) : Prop where
  procs : ∀ pid, ProcOK store call pid s.fs (s.pc pid)
  complete : ∀ path i, s.fs.file path = some i → Complete store call s path i
  fileAllocated : ∀ path i, s.fs.file path = some i → i < s.fs.fresh
  stagedAllocated : ∀ pid i, s.fs.staged pid = some i → i < s.fs.fresh
  distinct : ∀ p q i, s.fs.staged p = some i → s.fs.staged q = some i → p = q
  linked : ∀ path pid, s.linker path = some pid → ∃ i, s.fs.file path = some i

end

variable {store : FilesystemArtifactStore} {call : Pid → PublishCall}

/-- What one call's step leaves alone for everybody else. -/
structure Spares (fs fs' : FileSystem) (pid : Pid) : Prop where
  fileKept : ∀ path i, fs.file path = some i → fs'.file path = some i
  fileNew : ∀ path i, fs'.file path = some i → fs.file path = some i ∨ fs.staged pid = some i
  stagedKept : ∀ q, q ≠ pid → fs'.staged q = fs.staged q
  contentKept : ∀ i, i < fs.fresh → ¬Private fs pid i → fs'.content i = fs.content i
  freshKept : fs.fresh ≤ fs'.fresh

theorem Spares.of_same {fs fs' : FileSystem} (pid : Pid) (same : SameData fs fs') :
    Spares fs fs' pid where
  fileKept path i h := same.file ▸ h
  fileNew path i h := .inl (same.file ▸ h)
  stagedKept q _ := by rw [same.staged]
  contentKept i _ _ := by rw [same.content]
  freshKept := Nat.le_of_eq same.fresh.symm

theorem Effect.spares {pid : Pid} {s : State} {fs' : FileSystem} (inv : Inv store call s)
    (effect : Effect store (call pid) pid s.fs fs' (s.pc pid)) : Spares s.fs fs' pid := by
  have own := inv.procs pid
  generalize s.pc pid = pc at effect own
  cases effect with
  | quiet same => exact .of_same pid same
  | create h =>
      subst h
      refine ⟨fun _ _ h => h, fun _ _ h => .inl h, fun q other => ?_, fun i allocated _ => ?_,
        Nat.le_succ _⟩
      · exact Function.update_of_ne other _ _
      · exact Function.update_of_ne (Nat.ne_of_lt allocated) _ _
  | append tmp bytes h =>
      subst h
      refine ⟨fun _ _ h => h, fun _ _ h => .inl h, fun _ _ => rfl, fun i _ notPrivate => ?_,
        Nat.le_refl _⟩
      refine Function.update_of_ne (fun same => notPrivate ?_) _ _
      exact same ▸ own
  | link tmp free h =>
      subst h
      refine ⟨fun path i h => ?_, fun path i h => ?_, fun _ _ => rfl, fun _ _ _ => rfl,
        Nat.le_refl _⟩
      · refine (Function.update_of_ne (fun same => ?_) _ _).trans h
        rw [same, free] at h
        cases h
      · by_cases same : path = finalPath store (call pid)
        · subst same
          simp only [FileSystem.link, Function.update_self, Option.some.injEq] at h
          exact .inr (h ▸ own.1.1)
        · simp only [FileSystem.link, Function.update_of_ne same] at h
          exact .inl h
  | unlink result h =>
      subst h
      exact ⟨fun _ _ h => h, fun _ _ h => .inl h, fun q other => Function.update_of_ne other _ _,
        fun _ _ _ => rfl, Nat.le_refl _⟩

/-- A published inode keeps its bytes under everybody's steps. -/
theorem Spares.published {pid : Pid} {s : State} {fs' : FileSystem} (inv : Inv store call s)
    (spares : Spares s.fs fs' pid) {path : Path} {i : InodeId} (h : s.fs.file path = some i) :
    fs'.content i = s.fs.content i :=
  spares.contentKept i (inv.fileAllocated path i h) fun isPrivate => isPrivate.2 path h

theorem Stored.spared {pid : Pid} {s : State} {fs' : FileSystem} (inv : Inv store call s)
    (spares : Spares s.fs fs' pid) {c : PublishCall} {artifact : StoredArtifact}
    (h : Stored store c s.fs artifact) : Stored store c fs' artifact := by
  obtain ⟨i, present, ok⟩ := h
  exact ⟨i, spares.fileKept _ i present, by rwa [spares.published inv present]⟩

theorem Sound.spared {pid : Pid} {s : State} {fs' : FileSystem} (inv : Inv store call s)
    (spares : Spares s.fs fs' pid) {c : PublishCall} {result : Result}
    (h : Sound store c s.fs result) : Sound store c fs' result :=
  fun publication ok => (h publication ok).spared inv spares

/-- Frame: another call still knows what it knew. -/
theorem ProcOK.spared {pid q : Pid} {s : State} {fs' : FileSystem} (inv : Inv store call s)
    (spares : Spares s.fs fs' pid) (other : q ≠ pid) {pc : Pc}
    (h : ProcOK store call q s.fs pc) : ProcOK store call q fs' pc := by
  have staged := spares.stagedKept q other
  have reading : ∀ {path fd acc}, s.fs.file path = some fd → acc <+: s.fs.content fd →
      fs'.file path = some fd ∧ acc <+: fs'.content fd := by
    intro path fd acc present readSoFar
    exact ⟨spares.fileKept path fd present, by rwa [spares.published inv present]⟩
  have copying : ∀ {tmp}, Private s.fs q tmp →
      Private fs' q tmp ∧ fs'.content tmp = s.fs.content tmp := by
    intro tmp own
    refine ⟨⟨staged.trans own.1, fun path present => ?_⟩, ?_⟩
    · rcases spares.fileNew path tmp present with old | mine
      · exact own.2 path old
      · exact other (inv.distinct q pid tmp own.1 mine)
    · exact spares.contentKept tmp (inv.stagedAllocated q tmp own.1) fun mine =>
        other (inv.distinct q pid tmp own.1 mine.1)
  cases pc with
  | readExisting fd acc => exact ⟨staged.trans h.1, reading h.2.1 h.2.2⟩
  | reopenExisting | fsyncExisting | fsyncExistingParent =>
      exact ⟨staged.trans h.1, h.2.spared inv spares⟩
  | copy | fchmodPartial | fsyncPartial => exact (copying h).1
  | hashPartial tmp acc => exact ⟨(copying h.1).1, (copying h.1).2 ▸ h.2⟩
  | checkParent | link => exact ⟨(copying h.1).1, (copying h.1).2 ▸ h.2⟩
  | readFinal status fd acc => exact reading h.1 h.2
  | fsyncFinalParent => exact Stored.spared inv spares h
  | unlinkPartial => exact Sound.spared inv spares h
  | fsyncStaging | returned => exact ⟨staged.trans h.1, h.2.spared inv spares⟩
  | openFinal | removalFailed | crashed => trivial
  | start | hashSource | walk | openChild | fchmodChild | fsyncChild | fsyncHere | openExisting
  | checkStaging | openPartial => exact staged.trans h

theorem Sound.error (c : PublishCall) (fs : FileSystem) (e : StoreError) :
    Sound store c fs (.error e) := fun _ h => nomatch h

theorem Stored.of_read {c : PublishCall} {fs : FileSystem} {fd : InodeId} {acc : Bytes}
    {artifact : StoredArtifact} (present : fs.file (finalPath store c) = some fd)
    (readSoFar : acc <+: fs.content fd) (atEnd : chunk (fs.content fd) acc.length = [])
    (ok : verified store c acc = .ok artifact) : Stored store c fs artifact :=
  ⟨fd, present, chunk_eq_nil readSoFar atEnd ▸ ok⟩

/-- A call's own step leads to a place where it knows what that place requires. -/
theorem advance_own {s : State} (inv : Inv store call s) (pid : Pid) :
    ProcOK store call pid (advance store (call pid) pid (s.source pid) s.fs (s.pc pid)).1
      (advance store (call pid) pid (s.source pid) s.fs (s.pc pid)).2 := by
  have own := inv.procs pid
  have spares := (advance_effect store (call pid) pid (s.source pid) s.fs (s.pc pid)).spares inv
  generalize s.pc pid = pc at own spares
  cases pc with
  | start =>
      simp only [advance]
      split
      · exact ⟨own, .error _ _ _⟩
      · split
        · exact ⟨own, .error _ _ _⟩
        · exact own
  | hashSource acc =>
      simp only [advance]
      split
      · split
        · exact own
        · exact ⟨own, .error _ _ _⟩
      · exact own
  | walk goal here todo =>
      cases todo with
      | nil => cases goal <;> exact own
      | cons name rest => exact (congrFun (SameData.mkdir s.fs _).staged pid).trans own
  | openChild w created => cases created <;> exact own
  | fchmodChild | fsyncChild | fsyncHere | checkStaging => exact own
  | openExisting =>
      simp only [advance]
      split
      · exact own
      · exact ⟨own, ‹_›, List.nil_prefix⟩
  | readExisting fd acc =>
      obtain ⟨noStaging, present, readSoFar⟩ := own
      simp only [advance]
      split
      · split
        · exact ⟨noStaging, .of_read present readSoFar ‹_› ‹_›⟩
        · exact ⟨noStaging, .error _ _ _⟩
      · exact ⟨noStaging, present, chunk_append readSoFar⟩
  | reopenExisting artifact =>
      simp only [advance]
      split
      · exact ⟨own.1, .error _ _ _⟩
      · exact own
  | fsyncExisting fd artifact => exact ⟨own.1, own.2.spared inv spares⟩
  | fsyncExistingParent artifact =>
      refine ⟨own.1, fun publication ok => ?_⟩
      cases ok
      exact own.2.spared inv spares
  | openPartial =>
      refine ⟨Function.update_self .., fun path present => ?_⟩
      exact Nat.lt_irrefl _ (inv.fileAllocated path _ present)
  | copy tmp =>
      simp only [advance]
      split <;> exact own
  | fchmodPartial tmp => exact own
  | fsyncPartial tmp => exact ⟨own, List.nil_prefix⟩
  | hashPartial tmp acc =>
      obtain ⟨isPrivate, readSoFar⟩ := own
      simp only [advance]
      split
      · rename_i atEnd
        split
        · rename_i same
          exact ⟨isPrivate, chunk_eq_nil readSoFar atEnd ▸ same⟩
        · exact .error _ _ _
      · exact ⟨isPrivate, chunk_append readSoFar⟩
  | checkParent tmp => exact own
  | link tmp =>
      simp only [advance]
      split <;> trivial
  | openFinal status =>
      simp only [advance]
      split
      · exact .error _ _ _
      · exact ⟨‹_›, List.nil_prefix⟩
  | readFinal status fd acc =>
      obtain ⟨present, readSoFar⟩ := own
      simp only [advance]
      split
      · split
        · exact Stored.of_read present readSoFar ‹_› ‹_›
        · exact .error _ _ _
      · exact ⟨present, chunk_append readSoFar⟩
  | fsyncFinalParent publication =>
      intro other ok
      cases ok
      exact Stored.spared inv spares own
  | unlinkPartial result =>
      exact ⟨Function.update_self .., Sound.spared inv spares own⟩
  | fsyncStaging result => exact ⟨own.1, own.2.spared inv spares⟩
  | returned result => exact own
  | removalFailed | crashed => trivial

/-- An exception also leads to a place whose requirements hold. -/
theorem raised_own {pid : Pid} {fs : FileSystem} (fault : Fault) {pc : Pc}
    (own : ProcOK store call pid fs pc) : ProcOK store call pid fs (raised store fault pc) := by
  cases pc with
  | openExisting =>
      simp only [raised]
      split
      · exact own
      · exact ⟨own, .error _ _ _⟩
  | copy | fchmodPartial | fsyncPartial | hashPartial | checkParent | link | openFinal | readFinal
  | fsyncFinalParent => exact .error _ _ _
  | unlinkPartial | removalFailed | crashed => trivial
  | returned => exact own
  | readExisting | reopenExisting | fsyncExisting | fsyncExistingParent | fsyncStaging =>
      exact ⟨own.1, .error _ _ _⟩
  | start | hashSource | walk | openChild | fchmodChild | fsyncChild | fsyncHere | checkStaging
  | openPartial => exact ⟨own, .error _ _ _⟩

theorem step_fs (s : State) (pid : Pid) :
    (s.step store call (.step pid)).fs =
      (advance store (call pid) pid (s.source pid) s.fs (s.pc pid)).1 := rfl

theorem links_free {c : PublishCall} {fs : FileSystem} {pc : Pc} (h : links store c fs pc = true) :
    fs.file (finalPath store c) = none := by
  unfold links at h
  split at h
  · exact Option.isNone_iff_eq_none.mp h
  · cases h

/-- The history of links goes with the published files. -/
theorem Complete.spared {s : State} (inv : Inv store call s) (pid : Pid) {path : Path}
    {i : InodeId} (present : s.fs.file path = some i) :
    Complete store call (s.step store call (.step pid)) path i := by
  obtain ⟨owner, linked, samePath, digest⟩ := inv.complete path i present
  have spares := (advance_effect store (call pid) pid (s.source pid) s.fs (s.pc pid)).spares inv
  refine ⟨owner, ?_, samePath, ?_⟩
  · simp only [State.step]
    split
    · rename_i fires
      rw [Function.update_of_ne, linked]
      rintro rfl
      rw [links_free fires] at present
      cases present
    · exact linked
  · rw [step_fs, spares.published inv present, digest]

theorem complete_step {s : State} (inv : Inv store call s) (pid : Pid) (path : Path) (i : InodeId)
    (present : (s.step store call (.step pid)).fs.file path = some i) :
    Complete store call (s.step store call (.step pid)) path i := by
  by_cases old : s.fs.file path = some i
  · exact .spared inv pid old
  have own := inv.procs pid
  have effect := advance_effect store (call pid) pid (s.source pid) s.fs (s.pc pid)
  rw [step_fs] at present
  generalize at_ : s.pc pid = pc at effect own present
  cases effect with
  | quiet same => exact absurd (same.file ▸ present) old
  | create h | append _ _ h | unlink _ h =>
      rw [h] at present
      exact absurd present old
  | link tmp free h =>
      rw [h] at present
      by_cases final : path = finalPath store (call pid)
      · subst final
        simp only [FileSystem.link, Function.update_self, Option.some.injEq] at present
        subst present
        refine ⟨pid, ?_, rfl, ?_⟩
        · simp [State.step, at_, links, free]
        · rw [step_fs, at_, h]
          exact own.2
      · simp only [FileSystem.link, Function.update_of_ne final] at present
        exact absurd present old

/-- The staging files after a step: the others' as before, the call's own as
    before, new, or gone. -/
theorem staged_step {s : State} (pid q : Pid) {i : InodeId}
    (present : (s.step store call (.step pid)).fs.staged q = some i) :
    s.fs.staged q = some i ∨ (q = pid ∧ i = s.fs.fresh ∧
      (s.step store call (.step pid)).fs.fresh = s.fs.fresh + 1) := by
  have effect := advance_effect store (call pid) pid (s.source pid) s.fs (s.pc pid)
  rw [step_fs] at present ⊢
  generalize s.pc pid = pc at effect present
  cases effect with
  | quiet same => exact .inl (same.staged ▸ present)
  | append _ _ h | link _ _ h =>
      rw [h] at present
      exact .inl present
  | create h =>
      rw [h] at present ⊢
      by_cases own : q = pid
      · subst own
        simp only [FileSystem.createStaged, Function.update_self, Option.some.injEq] at present
        exact .inr ⟨rfl, present.symm, rfl⟩
      · simp only [FileSystem.createStaged, Function.update_of_ne own] at present
        exact .inl present
  | unlink _ h =>
      rw [h] at present
      by_cases own : q = pid
      · subst own
        simp [FileSystem.unlinkStaged] at present
      · simp only [FileSystem.unlinkStaged, Function.update_of_ne own] at present
        exact .inl present

theorem linked_step {s : State} (inv : Inv store call s) (pid : Pid) {path : Path} {owner : Pid}
    (h : (s.step store call (.step pid)).linker path = some owner) :
    ∃ i, (s.step store call (.step pid)).fs.file path = some i := by
  have spares := (advance_effect store (call pid) pid (s.source pid) s.fs (s.pc pid)).spares inv
  by_cases old : ∃ i, s.fs.file path = some i
  · obtain ⟨i, present⟩ := old
    exact ⟨i, spares.fileKept path i present⟩
  · simp only [State.step] at h
    split at h
    · rename_i fires
      by_cases final : path = finalPath store (call pid)
      · subst final
        have free := links_free fires
        unfold links at fires
        split at fires
        · rename_i tmp at_
          exact ⟨tmp, by simp [step_fs, at_, advance, free, FileSystem.link]⟩
        · cases fires
      · rw [Function.update_of_ne final] at h
        exact absurd (inv.linked path owner h) old
    · exact absurd (inv.linked path owner h) old

theorem inv_step {s : State} (inv : Inv store call s) (e : Event) :
    Inv store call (s.step store call e) := by
  cases e with
  | step pid =>
      have spares := (advance_effect store (call pid) pid (s.source pid) s.fs (s.pc pid)).spares inv
      refine ⟨fun q => ?_, complete_step inv pid, fun path i present => ?_, fun q i present => ?_,
        fun p q i hp hq => ?_, fun path owner => linked_step inv pid⟩
      · by_cases own : q = pid
        · subst own
          simpa [State.step] using advance_own inv q
        · simpa [State.step, Function.update_of_ne own] using
            (inv.procs q).spared inv spares own
      · rcases spares.fileNew path i present with old | mine
        · exact Nat.lt_of_lt_of_le (inv.fileAllocated path i old) spares.freshKept
        · exact Nat.lt_of_lt_of_le (inv.stagedAllocated pid i mine) spares.freshKept
      · rcases staged_step pid q present with old | ⟨-, new, grown⟩
        · exact Nat.lt_of_lt_of_le (inv.stagedAllocated q i old) spares.freshKept
        · rw [new, grown]
          exact Nat.lt_succ_self _
      · rcases staged_step pid p hp with oldP | ⟨ownP, newP, -⟩ <;>
          rcases staged_step pid q hq with oldQ | ⟨ownQ, newQ, -⟩
        · exact inv.distinct p q i oldP oldQ
        · exact absurd newQ (Nat.ne_of_lt (inv.stagedAllocated p i oldP))
        · exact absurd newP (Nat.ne_of_lt (inv.stagedAllocated q i oldQ))
        · exact ownP.trans ownQ.symm
  | fail pid fault =>
      refine { inv with procs := fun q => ?_ }
      by_cases own : q = pid
      · subst own
        simpa [State.step] using raised_own fault (inv.procs q)
      · simpa [State.step, Function.update_of_ne own] using inv.procs q
  | crash pid =>
      refine { inv with procs := fun q => ?_ }
      by_cases own : q = pid
      · subst own
        have known := inv.procs q
        simp only [State.step, Function.update_self]
        split
        · rename_i result at_
          rwa [at_] at known
        · trivial
      · simpa [State.step, Function.update_of_ne own] using inv.procs q
  | rewriteSource => exact { inv with }

/-! ## The store as write-once cells -/

/-- The bytes that may appear under a path: what some call for it expects. -/
def Legal (store : FilesystemArtifactStore) (call : Pid → PublishCall) (path : Path)
    (bytes : Bytes) : Prop :=
  ∃ pid, finalPath store (call pid) = path ∧ store.sha256 bytes = (call pid).expected_sha256

theorem cells_eq {fs fs' : FileSystem} (sameFile : fs'.file = fs.file)
    (sameContent : ∀ path i, fs.file path = some i → fs'.content i = fs.content i) :
    fs'.cells = fs.cells := by
  funext path
  unfold FileSystem.cells
  rw [sameFile]
  cases present : fs.file path with
  | none => rfl
  | some i => simp only [Option.map_some, sameContent path i present]

/-- Each event of the file-level model is one step of the write-once cells. -/
theorem step_refines {s : State} (inv : Inv store call s) (e : Event) :
    WriteOnce.Step (Legal store call) s.fs.cells (s.step store call e).fs.cells := by
  cases e with
  | step pid =>
      have own := inv.procs pid
      have effect := advance_effect store (call pid) pid (s.source pid) s.fs (s.pc pid)
      have kept : ∀ path i, s.fs.file path = some i → _ := fun _ _ => (effect.spares inv).published inv
      rw [step_fs]
      generalize s.pc pid = pc at own effect kept
      cases effect with
      | quiet same => rw [cells_eq same.file kept]; exact .stay _
      | create h | append _ _ h | unlink _ h =>
          rw [cells_eq (by rw [h]; rfl) kept]
          exact .stay _
      | link tmp free h =>
          have filled : (advance store (call pid) pid (s.source pid) s.fs (.link tmp)).1.cells =
              Function.update s.fs.cells (finalPath store (call pid)) (some (s.fs.content tmp)) := by
            rw [h]
            funext path
            by_cases final : path = finalPath store (call pid)
            · subst final
              simp [FileSystem.cells, FileSystem.link]
            · simp [FileSystem.cells, FileSystem.link, Function.update_of_ne final]
          rw [filled]
          refine .fill _ _ _ ?_ ⟨pid, rfl, own.2⟩
          simp [FileSystem.cells, free]
  | fail | crash | rewriteSource => exact .stay _

/-! ## Runs -/

section

variable (store : FilesystemArtifactStore) (call : Pid → PublishCall)

/-- The store after a run that starts with an empty artifact tree. -/
def after (directories : Path → Bool) (source : Pid → Bytes) (events : List Event) : State :=
  run (State.step store call) (State.initial (.holding directories) source) events

theorem inv_initial (directories : Path → Bool) (source : Pid → Bytes) :
    Inv store call (State.initial (.holding directories) source) where
  procs _ := rfl
  complete _ _ h := nomatch h
  fileAllocated _ _ h := nomatch h
  stagedAllocated _ _ h := nomatch h
  distinct _ _ _ h := nomatch h
  linked _ _ h := nomatch h

theorem reachable_initial (directories : Path → Bool) (source : Pid → Bytes) :
    Reachable store call (State.initial (.holding directories) source) where
  onTheWay _ := trivial
  published _ _ h := nomatch h

end

theorem inv_run {s : State} (inv : Inv store call s) (events : List Event) :
    Inv store call (run (State.step store call) s events) :=
  run_invariant (I := Inv store call) (fun _ e inv => inv_step inv e) inv events

theorem reachable_run {s : State} (reachable : Reachable store call s) (events : List Event) :
    Reachable store call (run (State.step store call) s events) :=
  run_invariant (I := Reachable store call) (fun _ e h => reachable_step h e) reachable events

theorem read_eq_cells {s : State} (reachable : Reachable store call s) (path : Path) :
    s.fs.read path = s.fs.cells path := by
  cases present : s.fs.file path with
  | some i => exact read_of_opened (reachable.published path i present)
  | none => simp [FileSystem.read, FileSystem.cells, present]

theorem cells_keep {s : State} (inv : Inv store call s) (events : List Event) :
    WriteOnce.Keeps s.fs.cells (run (State.step store call) s events).fs.cells :=
  run_relation (I := Inv store call)
    (R := fun (s s' : State) => WriteOnce.Keeps s.fs.cells s'.fs.cells)
    (fun _ e inv => inv_step inv e) (fun _ => .refl _) (fun h h' => h.trans h')
    (fun _ e inv => (step_refines inv e).keeps) inv events

/-- What has been published stays, byte for byte. -/
theorem published_forever {s : State} (inv : Inv store call s) (reachable : Reachable store call s)
    (events : List Event) {path : Path} {bytes : Bytes} (present : s.fs.read path = some bytes) :
    (run (State.step store call) s events).fs.read path = some bytes := by
  rw [read_eq_cells reachable] at present
  rw [read_eq_cells (reachable_run reachable events)]
  exact cells_keep inv events path bytes present

theorem absent_or_complete {s : State} (inv : Inv store call s) (reachable : Reachable store call s)
    (path : Path) :
    s.fs.read path = none ∨ ∃ pid bytes, s.linker path = some pid ∧
      finalPath store (call pid) = path ∧ s.fs.read path = some bytes ∧
      store.sha256 bytes = (call pid).expected_sha256 := by
  rw [read_eq_cells reachable]
  cases present : s.fs.file path with
  | none => exact .inl (by simp [FileSystem.cells, present])
  | some i =>
      obtain ⟨pid, linked, samePath, digest⟩ := inv.complete path i present
      exact .inr ⟨pid, _, linked, samePath, by simp [FileSystem.cells, present], digest⟩

theorem success_is_stored {s : State} (inv : Inv store call s) (reachable : Reachable store call s)
    {pid : Pid} {publication : Publication} (returned : s.pc pid = .returned (.ok publication)) :
    ∃ bytes, s.fs.read (finalPath store (call pid)) = some bytes ∧
      verified store (call pid) bytes = .ok publication.artifact := by
  have known := inv.procs pid
  rw [returned] at known
  obtain ⟨i, present, ok⟩ := known.2 publication rfl
  exact ⟨_, by rw [read_eq_cells reachable, FileSystem.cells, present]; rfl, ok⟩

/-- Immutability under concurrency and failure: in every run a canonical path is
    absent or holds what the call that linked it expected; it keeps these bytes in
    every later state; success means that they hash to the call's own digest; and
    a call that ends otherwise than by a crash or a failed removal has left no
    staging file. -/
theorem artifact_store_immutable (store : FilesystemArtifactStore) (call : Pid → PublishCall)
    (directories : Path → Bool) (source : Pid → Bytes) (events later : List Event) :
    let s := after store call directories source events
    let s' := after store call directories source (events ++ later)
    (∀ path, s.fs.read path = none ∨ ∃ pid bytes, s.linker path = some pid ∧
      finalPath store (call pid) = path ∧ s.fs.read path = some bytes ∧
      store.sha256 bytes = (call pid).expected_sha256) ∧
    (∀ path bytes, s.fs.read path = some bytes → s'.fs.read path = some bytes) ∧
    (∀ pid publication, s.pc pid = .returned (.ok publication) →
      ∃ bytes, s.fs.read (finalPath store (call pid)) = some bytes ∧
        store.sha256 bytes = (call pid).expected_sha256) ∧
    (∀ pid result, s.pc pid = .returned result → s.fs.staged pid = none) := by
  have inv : Inv store call (after store call directories source events) :=
    inv_run (inv_initial store call directories source) events
  have reachable : Reachable store call (after store call directories source events) :=
    reachable_run (reachable_initial store call directories source) events
  refine ⟨absent_or_complete inv reachable, fun path bytes present => ?_, ?_, ?_⟩
  · rw [after, run_append]
    exact published_forever inv reachable later present
  · intro pid publication returned
    obtain ⟨bytes, present, ok⟩ := success_is_stored inv reachable returned
    exact ⟨bytes, present, (verified_ok ok).1⟩
  · intro pid result returned
    have known := inv.procs pid
    rw [returned] at known
    exact known.1

end PackageRegistry.Store
