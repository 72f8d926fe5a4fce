import PackageRegistry.Store.Immutability

/-! # What a success survives

A call syncs the directories that it makes itself. One that finds a directory which
another call has made and not yet synced goes on without syncing it, and then
reports a success that a power loss can undo. As long as no call passes such a
directory, every success is durable.
-/

namespace PackageRegistry.Store

open Runs

/-- Every directory on the way down to a path survives a power loss. -/
def Synced (fs : FileSystem) (path : Path) : Prop :=
  ∀ d, d <+: path → d ≠ [] → fs.directory d = true ∧ fs.entrySynced d = true

theorem Synced.nil (fs : FileSystem) : Synced fs [] := by
  intro d below nonempty
  exact absurd (List.prefix_nil.mp below) nonempty

theorem Synced.snoc {fs : FileSystem} {here : Path} {name : Text} (above : Synced fs here)
    (there : fs.directory (here ++ [name]) = true)
    (synced : fs.entrySynced (here ++ [name]) = true) : Synced fs (here ++ [name]) := by
  intro d below nonempty
  rcases List.prefix_concat_iff.mp below with rfl | shorter
  · exact ⟨there, synced⟩
  · exact above d shorter nonempty

section

variable (store : FilesystemArtifactStore) (c : PublishCall)

/-- The path of the directory that a walk is after. -/
def Goal.path : Goal → Path
  | .parent => parentPath store c
  | .staging => stagingPath store

/-- The directories whose durability a walk at `here` relies on. -/
def Goal.relied (here : Path) : Goal → Path
  | .parent => here
  | .staging => parentPath store c

/-- What is durable where a call stands. -/
def Durable (fs : FileSystem) : Pc → Prop
  | .walk goal here todo => here ++ todo = goal.path store c ∧ Synced fs (goal.relied store c here)
  | .openChild w created =>
      w.here ++ w.name :: w.rest = w.goal.path store c ∧
        Synced fs (w.goal.relied store c w.here) ∧
        fs.directory (w.here ++ [w.name]) = true ∧
        (w.goal = .parent → created = false → fs.entrySynced (w.here ++ [w.name]) = true)
  | .fchmodChild w | .fsyncChild w | .fsyncHere w =>
      w.here ++ w.name :: w.rest = w.goal.path store c ∧
        Synced fs (w.goal.relied store c w.here) ∧ fs.directory (w.here ++ [w.name]) = true
  | .hashPartial tmp _ | .checkParent tmp | .link tmp =>
      Synced fs (parentPath store c) ∧ fs.dataSynced tmp = true
  | .unlinkPartial result | .fsyncStaging result | .returned result =>
      ∀ publication, result = .ok publication →
        Synced fs (parentPath store c) ∧ fs.entrySynced (finalPath store c) = true
  | .start | .hashSource _ | .removalFailed _ | .crashed => True
  | _ => Synced fs (parentPath store c)

end

structure Lasts (store : FilesystemArtifactStore) (call : Pid → PublishCall) (s : State) : Prop where
  procs : ∀ pid, Durable store (call pid) s.fs (s.pc pid)
  data : ∀ path i, s.fs.file path = some i → s.fs.dataSynced i = true

/-- The branch that goes wrong is not taken: a call on its way to the artifact's
    directory passes no directory whose entry is not synced. -/
def passesSynced (fs : FileSystem) : Pc → Bool
  | .walk .parent here (name :: _) =>
      !fs.directory (here ++ [name]) || fs.entrySynced (here ++ [name])
  | _ => true

def PassesSynced (s : State) : Event → Prop
  | .step pid => passesSynced s.fs (s.pc pid) = true
  | _ => True

instance (s : State) : (e : Event) → Decidable (PassesSynced s e)
  | .step pid => inferInstanceAs (Decidable (passesSynced s.fs (s.pc pid) = true))
  | .fail .. | .crash .. | .rewriteSource .. => inferInstanceAs (Decidable True)

variable {store : FilesystemArtifactStore} {call : Pid → PublishCall}

/-! ## Nothing that is synced becomes unsynced -/

theorem parentPath_length (store : FilesystemArtifactStore) (c : PublishCall) :
    (parentPath store c).length = store.root.length + 3 := by
  simp [parentPath, relativeParent]

theorem finalPath_length (store : FilesystemArtifactStore) (c : PublishCall) :
    (finalPath store c).length = store.root.length + 4 := by
  simp [finalPath, relativePath, relativeParent]

theorem goal_length (store : FilesystemArtifactStore) (c : PublishCall) (goal : Goal) :
    (goal.path store c).length ≤ store.root.length + 3 := by
  cases goal with
  | parent => exact (parentPath_length store c).le
  | staging => simp [Goal.path, stagingPath]

/-- What a step of one call leaves durable. -/
structure Lasting (root : Path) (fs fs' : FileSystem) (pid : Pid) : Prop where
  grows : ∀ d, fs.directory d = true → fs'.directory d = true
  directories : ∀ d, d.length ≤ root.length + 3 → fs.directory d = true →
    fs.entrySynced d = true → fs'.entrySynced d = true
  entries : ∀ path i, path.length = root.length + 4 → fs.file path = some i →
    fs.entrySynced path = true → fs'.entrySynced path = true
  data : ∀ i, i < fs.fresh → ¬Private fs pid i → fs.dataSynced i = true → fs'.dataSynced i = true

theorem Lasting.refl (root : Path) (fs : FileSystem) (pid : Pid) : Lasting root fs fs pid :=
  ⟨fun _ h => h, fun _ _ _ h => h, fun _ _ _ _ h => h, fun _ _ _ h => h⟩

theorem Lasting.mkdir {root : Path} (fs : FileSystem) (pid : Pid) {path : Path}
    (short : path.length ≤ root.length + 3) : Lasting root fs (fs.mkdir path).1 pid := by
  have grows := mkdir_grows fs path
  unfold FileSystem.mkdir at grows ⊢
  split
  · exact .refl root fs pid
  · rename_i absent
    rw [if_neg absent] at grows
    refine ⟨grows, fun d _ there synced => ?_, fun p i long _ synced => ?_, fun _ _ _ h => h⟩
    · have other : d ≠ path := fun same => absent (same ▸ there)
      simpa only [Function.update_of_ne other] using synced
    · have other : p ≠ path := by
        rintro rfl
        omega
      simpa only [Function.update_of_ne other] using synced

theorem Lasting.fsyncDirectory (root : Path) (fs : FileSystem) (pid : Pid) (path : Path) :
    Lasting root fs (fs.fsyncDirectory path) pid := by
  have kept : ∀ d, fs.entrySynced d = true → (fs.fsyncDirectory path).entrySynced d = true := by
    intro d synced
    simp only [FileSystem.fsyncDirectory]
    split
    · rfl
    · exact synced
  exact ⟨fun _ h => h, fun d _ _ => kept d, fun p _ _ _ => kept p, fun _ _ _ h => h⟩

theorem Lasting.fsyncFile (root : Path) (fs : FileSystem) (pid : Pid) (i : InodeId) :
    Lasting root fs (fs.fsyncFile i) pid := by
  refine ⟨fun _ h => h, fun _ _ _ h => h, fun _ _ _ _ h => h, fun j _ _ synced => ?_⟩
  simp only [FileSystem.fsyncFile]
  by_cases same : j = i
  · rw [same]
    exact Function.update_self ..
  · exact (Function.update_of_ne same _ _).trans synced

theorem Lasting.link {root : Path} {fs : FileSystem} (pid : Pid) (i : InodeId) {path : Path}
    (long : path.length = root.length + 4) (free : fs.file path = none) :
    Lasting root fs (fs.link i path) pid := by
  refine ⟨fun _ h => h, fun d short _ synced => ?_, fun p j _ present synced => ?_, fun _ _ _ h => h⟩
  · have other : d ≠ path := by
      rintro rfl
      omega
    exact (Function.update_of_ne other _ _).trans synced
  · have other : p ≠ path := by
      rintro rfl
      rw [free] at present
      cases present
    exact (Function.update_of_ne other _ _).trans synced

theorem walk_short {c : PublishCall} {goal : Goal} {here : Path} {name : Text} {rest : List Text}
    (way : here ++ name :: rest = goal.path store c) :
    (here ++ [name]).length ≤ store.root.length + 3 := by
  have bound := goal_length store c goal
  rw [← way] at bound
  simp only [List.length_append, List.length_cons, List.length_nil] at bound ⊢
  omega

theorem advance_lasting {s : State} (inv : Inv store call s) (lasts : Lasts store call s)
    (pid : Pid) :
    Lasting store.root s.fs (s.step store call (.step pid)).fs pid := by
  have own := inv.procs pid
  have durable := lasts.procs pid
  rw [step_fs]
  generalize s.pc pid = pc at own durable
  cases pc with
  | walk goal here todo =>
      cases todo with
      | nil => exact .refl ..
      | cons name rest => exact .mkdir s.fs pid (walk_short durable.1)
  | openChild w created => cases created <;> exact .refl ..
  | fsyncChild | fsyncHere | fsyncExistingParent | fsyncFinalParent | fsyncStaging =>
      exact .fsyncDirectory ..
  | fsyncExisting | fsyncPartial => exact .fsyncFile ..
  | openPartial =>
      refine ⟨fun _ h => h, fun _ _ _ h => h, fun _ _ _ _ h => h, fun i allocated _ synced => ?_⟩
      exact (Function.update_of_ne (Nat.ne_of_lt allocated) _ _).trans synced
  | copy tmp =>
      simp only [advance]
      split
      · exact .refl ..
      · refine ⟨fun _ h => h, fun _ _ _ h => h, fun _ _ _ _ h => h, fun i _ notPrivate synced => ?_⟩
        refine (Function.update_of_ne (fun same => notPrivate ?_) _ _).trans synced
        exact same ▸ own
  | link tmp =>
      simp only [advance]
      split
      · exact .link pid tmp (finalPath_length store (call pid)) ‹_›
      · exact .refl ..
  | unlinkPartial result =>
      exact ⟨fun _ h => h, fun _ _ _ h => h, fun _ _ _ _ h => h, fun _ _ _ h => h⟩
  | _ =>
      simp only [advance]
      repeat' split
      all_goals exact .refl ..

theorem Synced.lasting {root : Path} {fs fs' : FileSystem} {pid : Pid}
    (lasting : Lasting root fs fs' pid) {path : Path} (short : path.length ≤ root.length + 3)
    (h : Synced fs path) : Synced fs' path :=
  fun d below nonempty => ⟨lasting.grows d (h d below nonempty).1,
    lasting.directories d (below.length_le.trans short) (h d below nonempty).1
      (h d below nonempty).2⟩

theorem Goal.relied_short {c : PublishCall} {goal : Goal} {here rest : Path}
    (way : here ++ rest = goal.path store c) :
    (goal.relied store c here).length ≤ store.root.length + 3 := by
  cases goal with
  | parent =>
      have bound := goal_length store c .parent
      rw [← way, List.length_append] at bound
      exact (Nat.le_add_right _ _).trans bound
  | staging => exact (parentPath_length store c).le

/-- A result that is durable, also when it is an error. -/
theorem result_lasting {s : State} {fs' : FileSystem} {pid : Pid}
    (lasting : Lasting store.root s.fs fs' pid) {c : PublishCall} {result : Result}
    (sound : Sound store c s.fs result)
    (h : ∀ publication, result = .ok publication →
      Synced s.fs (parentPath store c) ∧ s.fs.entrySynced (finalPath store c) = true) :
    ∀ publication, result = .ok publication →
      Synced fs' (parentPath store c) ∧ fs'.entrySynced (finalPath store c) = true := by
  intro publication ok
  obtain ⟨i, present, -⟩ := sound publication ok
  obtain ⟨parent, entry⟩ := h publication ok
  exact ⟨parent.lasting lasting (parentPath_length store c).le,
    lasting.entries _ i (finalPath_length store c) present entry⟩

/-- Frame: what another call relies on stays durable. -/
theorem Durable.lasting {s : State} {fs' : FileSystem} (inv : Inv store call s) {pid q : Pid}
    (lasting : Lasting store.root s.fs fs' pid) (other : q ≠ pid) {pc : Pc}
    (own : ProcOK store call q s.fs pc) (h : Durable store (call q) s.fs pc) :
    Durable store (call q) fs' pc := by
  have parent : Synced s.fs (parentPath store (call q)) → Synced fs' (parentPath store (call q)) :=
    Synced.lasting lasting (parentPath_length store _).le
  have copied : ∀ {tmp}, Private s.fs q tmp → s.fs.dataSynced tmp = true →
      fs'.dataSynced tmp = true := fun isPrivate =>
    lasting.data _ (inv.stagedAllocated q _ isPrivate.1) fun mine =>
      other (inv.distinct q pid _ isPrivate.1 mine.1)
  cases pc with
  | walk goal here todo => exact ⟨h.1, h.2.lasting lasting (goal.relied_short h.1)⟩
  | openChild w created =>
      obtain ⟨way, relied, there, passed⟩ := h
      exact ⟨way, relied.lasting lasting (w.goal.relied_short way), lasting.grows _ there,
        fun goal old => lasting.directories _ (walk_short way) there (passed goal old)⟩
  | fchmodChild w | fsyncChild w | fsyncHere w =>
      exact ⟨h.1, h.2.1.lasting lasting (w.goal.relied_short h.1), lasting.grows _ h.2.2⟩
  | hashPartial | checkParent | link => exact ⟨parent h.1, copied own.1 h.2⟩
  | unlinkPartial result => exact result_lasting lasting own h
  | fsyncStaging | returned => exact result_lasting lasting own.2 h
  | start | hashSource | removalFailed | crashed => trivial
  | _ => exact parent h

theorem mkdir_old {fs : FileSystem} {path : Path} (old : (fs.mkdir path).2 = false) :
    fs.directory path = true ∧ (fs.mkdir path).1 = fs := by
  unfold FileSystem.mkdir at old ⊢
  split at old
  · rename_i there
    exact ⟨there, by rw [if_pos there]⟩
  · cases old

theorem fsyncDirectory_synced (fs : FileSystem) {path entry : Path} (nonempty : entry ≠ [])
    (inside : entry.dropLast = path) : (fs.fsyncDirectory path).entrySynced entry = true := by
  simp only [FileSystem.fsyncDirectory]
  exact if_pos ⟨nonempty, inside⟩

theorem finalPath_synced (fs : FileSystem) (c : PublishCall) :
    (fs.fsyncDirectory (parentPath store c)).entrySynced (finalPath store c) = true := by
  refine fsyncDirectory_synced fs ?_ (finalPath_dropLast store c)
  exact List.ne_nil_of_length_pos (by rw [finalPath_length]; exact Nat.succ_pos _)

/-- A directory of the walk that is durable by now. -/
theorem walk_durable {c : PublishCall} {fs : FileSystem} {w : Walk}
    (way : w.here ++ w.name :: w.rest = w.goal.path store c)
    (relied : Synced fs (w.goal.relied store c w.here))
    (there : fs.directory (w.here ++ [w.name]) = true)
    (passed : w.goal = .parent → fs.entrySynced (w.here ++ [w.name]) = true) :
    Durable store c fs (.walk w.goal (w.here ++ [w.name]) w.rest) := by
  refine ⟨by rwa [List.append_assoc], ?_⟩
  obtain ⟨goal, here, name, rest⟩ := w
  cases goal with
  | parent => exact relied.snoc there (passed rfl)
  | staging => exact relied

theorem advance_durable {s : State} (inv : Inv store call s) (lasts : Lasts store call s)
    {pid : Pid} (passes : PassesSynced s (.step pid)) :
    Durable store (call pid) (s.step store call (.step pid)).fs
      ((s.step store call (.step pid)).pc pid) := by
  have own := inv.procs pid
  have durable := lasts.procs pid
  have lasting := advance_lasting inv lasts pid
  have parent : Synced s.fs (parentPath store (call pid)) →
      Synced (s.step store call (.step pid)).fs (parentPath store (call pid)) :=
    Synced.lasting lasting (parentPath_length store _).le
  simp only [PassesSynced] at passes
  rw [step_fs] at lasting parent ⊢
  simp only [State.step, Function.update_self]
  generalize s.pc pid = pc at own durable lasting parent passes
  cases pc with
  | start =>
      simp only [advance]
      repeat' split
      all_goals first | trivial | rintro _ ⟨⟩
  | hashSource acc =>
      simp only [advance]
      split
      · split
        · exact ⟨rfl, Synced.nil s.fs⟩
        · rintro _ ⟨⟩
      · trivial
  | walk goal here todo =>
      cases todo with
      | nil =>
          cases goal with
          | parent =>
              have there : here = parentPath store (call pid) := by simpa [Goal.path] using durable.1
              exact there ▸ durable.2
          | staging => exact durable.2
      | cons name rest =>
          refine ⟨durable.1, durable.2.lasting lasting (goal.relied_short durable.1),
            mkdir_makes s.fs _, fun isParent old => ?_⟩
          obtain ⟨there, same⟩ := mkdir_old old
          cases isParent
          simp only [advance, same]
          simpa [passesSynced, there] using passes
  | openChild w created =>
      obtain ⟨way, relied, there, passed⟩ := durable
      cases created with
      | true => exact ⟨way, relied, there⟩
      | false => exact walk_durable way relied there fun goal => passed goal rfl
  | fchmodChild w => exact durable
  | fsyncChild w =>
      exact ⟨durable.1, durable.2.1.lasting lasting (w.goal.relied_short durable.1), durable.2.2⟩
  | fsyncHere w =>
      refine walk_durable durable.1 (durable.2.1.lasting lasting (w.goal.relied_short durable.1))
        durable.2.2 fun _ => ?_
      exact fsyncDirectory_synced s.fs (by simp) List.dropLast_concat
  | openExisting =>
      simp only [advance]
      split
      · exact ⟨rfl, durable⟩
      · exact durable
  | fsyncExistingParent artifact => exact fun _ _ => ⟨parent durable, finalPath_synced s.fs _⟩
  | fsyncFinalParent publication => exact fun _ _ => ⟨parent durable, finalPath_synced s.fs _⟩
  | fsyncPartial tmp => exact ⟨parent durable, Function.update_self ..⟩
  | hashPartial tmp acc =>
      simp only [advance]
      split
      · split
        · exact durable
        · rintro _ ⟨⟩
      · exact durable
  | link tmp =>
      cases present : s.fs.file (finalPath store (call pid)) <;>
        simp only [advance, present] at parent ⊢ <;> exact parent durable.1
  | unlinkPartial result => exact result_lasting lasting own durable
  | fsyncStaging result => exact result_lasting lasting own.2 durable
  | _ =>
      simp only [advance] at parent ⊢
      repeat' split
      all_goals first | exact durable | exact parent durable | rintro _ ⟨⟩

theorem raised_durable {c : PublishCall} {fs : FileSystem} (fault : Fault) {pc : Pc}
    (durable : Durable store c fs pc) : Durable store c fs (raised store fault pc) := by
  cases pc with
  | openExisting =>
      simp only [raised]
      split
      · exact ⟨rfl, durable⟩
      · rintro _ ⟨⟩
  | returned => exact durable
  | copy | fchmodPartial | fsyncPartial | hashPartial | checkParent | link | openFinal | readFinal
  | fsyncFinalParent => rintro _ ⟨⟩
  | unlinkPartial | removalFailed | crashed => trivial
  | _ => rintro _ ⟨⟩

theorem data_step {s : State} (inv : Inv store call s) (lasts : Lasts store call s) (pid : Pid)
    (path : Path) (i : InodeId) (present : (s.step store call (.step pid)).fs.file path = some i) :
    (s.step store call (.step pid)).fs.dataSynced i = true := by
  have lasting := advance_lasting inv lasts pid
  rw [step_fs] at present
  rcases advance_published (call pid) pid (s.source pid) s.fs (s.pc pid) path i present with
    old | ⟨rfl, at_⟩
  · exact lasting.data i (inv.fileAllocated path i old) (fun isPrivate => isPrivate.2 path old)
      (lasts.data path i old)
  · have durable := lasts.procs pid
    rw [step_fs]
    rw [at_] at durable ⊢
    simp only [advance]
    split <;> exact durable.2

theorem lasts_step {s : State} (inv : Inv store call s) (lasts : Lasts store call s) {e : Event}
    (passes : PassesSynced s e) : Lasts store call (s.step store call e) := by
  cases e with
  | step pid =>
      refine ⟨fun q => ?_, data_step inv lasts pid⟩
      by_cases own : q = pid
      · subst own
        exact advance_durable inv lasts passes
      · have lasting := advance_lasting inv lasts pid
        rw [step_fs] at lasting ⊢
        simpa [State.step, Function.update_of_ne own] using
          (lasts.procs q).lasting inv lasting own (inv.procs q)
  | fail pid fault =>
      refine ⟨fun q => ?_, lasts.data⟩
      by_cases own : q = pid
      · subst own
        simpa [State.step] using raised_durable fault (lasts.procs q)
      · simpa [State.step, Function.update_of_ne own] using lasts.procs q
  | crash pid =>
      refine ⟨fun q => ?_, lasts.data⟩
      by_cases own : q = pid
      · subst own
        have known := lasts.procs q
        simp only [State.step, Function.update_self]
        split
        · rename_i result at_
          rwa [at_] at known
        · trivial
      · simpa [State.step, Function.update_of_ne own] using lasts.procs q
  | rewriteSource => exact ⟨lasts.procs, lasts.data⟩

theorem lasts_run {s : State} (inv : Inv store call s) (lasts : Lasts store call s)
    {events : List Event} (passes : Along (State.step store call) PassesSynced s events) :
    Lasts store call (run (State.step store call) s events) :=
  (run_invariant_along (I := fun s => Inv store call s ∧ Lasts store call s) (A := PassesSynced)
    (fun _ e known passes => ⟨inv_step known.1 e, lasts_step known.1 known.2 passes⟩)
    ⟨inv, lasts⟩ passes).2

theorem lasts_initial (store : FilesystemArtifactStore) (call : Pid → PublishCall)
    (directories : Path → Bool) (source : Pid → Bytes) :
    Lasts store call (State.initial (.holding directories) source) where
  procs _ := trivial
  data _ _ h := nomatch h

/-- A power loss leaves what is synced. -/
theorem read_powerLoss {fs : FileSystem} {path : Path} {i : InodeId} (above : Synced fs path.dropLast)
    (entry : fs.entrySynced path = true) (present : fs.file path = some i)
    (data : fs.dataSynced i = true) : fs.powerLoss.read path = some (fs.content i) := by
  have opened : Opened fs.powerLoss path.dropLast := by
    intro d below nonempty
    obtain ⟨there, synced⟩ := above d below nonempty
    simp [FileSystem.powerLoss, there, synced]
  rw [read_of_opened opened]
  simp [FileSystem.cells, FileSystem.powerLoss, entry, present, data]

theorem Lasts.success {s : State} (inv : Inv store call s) (lasts : Lasts store call s) {pid : Pid}
    {publication : Publication} (returned : s.pc pid = .returned (.ok publication)) :
    ∃ bytes, s.fs.powerLoss.read (finalPath store (call pid)) = some bytes ∧
      store.sha256 bytes = (call pid).expected_sha256 := by
  have own := inv.procs pid
  have durable := lasts.procs pid
  rw [returned] at own durable
  obtain ⟨i, present, ok⟩ := own.2 publication rfl
  obtain ⟨above, entry⟩ := durable publication rfl
  rw [← finalPath_dropLast] at above
  exact ⟨_, read_powerLoss above entry present (lasts.data _ i present), (verified_ok ok).1⟩

theorem returned_run (store : FilesystemArtifactStore) (call : Pid → PublishCall) (s : State)
    (events : List Event) {pid : Pid} {result : Result}
    (returned : s.pc pid = .returned result) :
    (run (State.step store call) s events).pc pid = .returned result := by
  refine run_invariant (I := fun s : State => s.pc pid = .returned result) (fun s e at_ => ?_)
    returned events
  cases e with
  | step q | fail q | crash q =>
      by_cases own : pid = q
      · subst own
        simp [State.step, at_, advance, raised]
      · simpa [State.step, Function.update_of_ne own] using at_
  | rewriteSource => exact at_

/-- In every run in which no call passes an unsynced directory, a reported success
    survives a power loss at any later moment. -/
theorem success_is_durable (store : FilesystemArtifactStore) (call : Pid → PublishCall)
    (directories : Path → Bool) (source : Pid → Bytes) (events later : List Event)
    (passes : Along (State.step store call) PassesSynced
      (State.initial (.holding directories) source) (events ++ later))
    (pid : Pid) (publication : Publication)
    (success : (after store call directories source events).pc pid = .returned (.ok publication)) :
    ∃ bytes, (after store call directories source (events ++ later)).fs.powerLoss.read
        (finalPath store (call pid)) = some bytes ∧
      store.sha256 bytes = (call pid).expected_sha256 := by
  have inv := inv_run (inv_initial store call directories source) (events ++ later)
  have lasts := lasts_run (inv_initial store call directories source)
    (lasts_initial store call directories source) passes
  have returned := returned_run store call _ later success
  rw [after, ← run_append] at returned
  exact lasts.success inv returned

def srvOnly (d : Path) : Bool := d == [text "srv"]

set_option maxRecDepth 4000 in
theorem success_is_durable_alone :
    ∃ bytes, (after smallStore smallCall srvOnly smallSource
        (List.replicate 48 (.step 2) ++ [.step 0])).fs.powerLoss.read
          (finalPath smallStore (smallCall 2)) = some bytes ∧
      smallStore.sha256 bytes = (smallCall 2).expected_sha256 :=
  success_is_durable smallStore smallCall srvOnly smallSource (List.replicate 48 (.step 2)) [.step 0]
    (by decide) 2 ⟨_metadata (text "roads") (text "1.0.0") (emptiness [7]) 1, .published⟩ rfl

set_option maxRecDepth 4000 in
/-- One call stops between making `modules/roads` and syncing `modules`; the next
    call publishes, and a power loss takes the directory and the artifact in it. -/
theorem success_is_not_durable :
    ¬∀ (store : FilesystemArtifactStore) (call : Pid → PublishCall) (directories : Path → Bool)
      (source : Pid → Bytes) (events : List Event) (pid : Pid) (publication : Publication),
      (after store call directories source events).pc pid = .returned (.ok publication) →
        ∃ bytes, (after store call directories source events).fs.powerLoss.read
            (finalPath store (call pid)) = some bytes ∧
          store.sha256 bytes = (call pid).expected_sha256 := by
  intro durable
  obtain ⟨bytes, present, -⟩ := durable smallStore smallCall srvOnly smallSource
    (List.replicate 11 (.step 0) ++ [.crash 0] ++ List.replicate 48 (.step 2)) 2
    ⟨_metadata (text "roads") (text "1.0.0") (emptiness [7]) 1, .published⟩ rfl
  have lost : (after smallStore smallCall srvOnly smallSource
      (List.replicate 11 (.step 0) ++ [.crash 0] ++ List.replicate 48 (.step 2))).fs.powerLoss.read
        (finalPath smallStore (smallCall 2)) = none := by decide
  rw [lost] at present
  cases present

end PackageRegistry.Store
