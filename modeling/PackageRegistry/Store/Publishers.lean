import PackageRegistry.Store.Agreement

/-! # Publishers that come and go

The store with processes that open a call of `publish` whenever they want to. A call that has been
opened keeps its arguments, and what it returns is known from the files that are there.
-/

namespace PackageRegistry.Store

open Runs

structure Depot where
  call : Pid → PublishCall
  state : State
  /-- Calls from here on have not been opened. -/
  next : Pid

def Event.pid : Event → Pid
  | .step pid | .fail pid _ | .crash pid | .rewriteSource pid _ => pid

/-- What any process may do. -/
inductive Happening where
  | event (e : Event)
  | opened (call : PublishCall) (content : Bytes)

def Depot.opened (d : Depot) (c : PublishCall) (content : Bytes) : Depot where
  call := Function.update d.call d.next c
  state := { d.state with source := Function.update d.state.source d.next content }
  next := d.next + 1

def Depot.step (store : FilesystemArtifactStore) (d : Depot) : Happening → Depot
  | .event e => if e.pid < d.next then { d with state := d.state.step store d.call e } else d
  | .opened c content => d.opened c content

/-- The status that a call has settled for -/
def settled : Pc → Option Status
  | .openFinal status | .readFinal status _ _ => some status
  | .fsyncFinalParent publication => some publication.status
  | .unlinkPartial (.ok publication) | .fsyncStaging (.ok publication)
  | .returned (.ok publication) => some publication.status
  | .reopenExisting _ | .fsyncExisting _ _ | .fsyncExistingParent _ => some .alreadyPresent
  | _ => none

section

variable (store : FilesystemArtifactStore)

/-- What holds of a store from its beginnings -/
structure Good (d : Depot) : Prop where
  inv : Inv store d.call d.state
  reachable : Reachable store d.call d.state
  unopened : ∀ pid, d.next ≤ pid → d.state.pc pid = .start ∧ ∀ path, d.state.linker path ≠ some pid
  won : ∀ pid, settled (d.state.pc pid) = some .published →
    d.state.linker (finalPath store (d.call pid)) = some pid

/-- What every later state keeps -/
structure Later (d d' : Depot) : Prop where
  next : d.next ≤ d'.next
  call : ∀ pid, pid < d.next → d'.call pid = d.call pid
  cells : WriteOnce.Keeps d.state.fs.cells d'.state.fs.cells
  linker : ∀ path pid, d.state.linker path = some pid → d'.state.linker path = some pid

end

variable {store : FilesystemArtifactStore} {d d' d'' : Depot}

theorem Later.refl (d : Depot) : Later d d :=
  ⟨Nat.le_refl _, fun _ _ => rfl, .refl _, fun _ _ linked => linked⟩

theorem Later.trans (first : Later d d') (second : Later d' d'') : Later d d'' where
  next := first.next.trans second.next
  call pid old := (second.call pid (Nat.lt_of_lt_of_le old first.next)).trans (first.call pid old)
  cells := first.cells.trans second.cells
  linker path pid linked := second.linker path pid (first.linker path pid linked)

theorem Later.read (later : Later d d') (good : Good store d) (good' : Good store d') {path : Path}
    {bytes : Bytes} (present : d.state.fs.read path = some bytes) :
    d'.state.fs.read path = some bytes := by
  rw [read_eq_cells good.reachable] at present
  rw [read_eq_cells good'.reachable]
  exact later.cells path bytes present

/-! ## One step -/

/-- A call that settles for `published` links its file in this step, or had done so before. -/
theorem advance_settled {c : PublishCall} {pid : Pid} {source : Bytes} {fs : FileSystem} {pc : Pc}
    (published : settled (advance store c pid source fs pc).2 = some .published) :
    settled pc = some .published ∨ links store c fs pc = true := by
  cases pc with
  | walk goal here todo => cases todo <;> cases goal <;> cases published
  | openChild w created => cases created <;> cases published
  | link tmp =>
      simp only [advance] at published
      split at published
      · rename_i free
        exact .inr (by simp [links, free])
      · cases published
  | unlinkPartial result | fsyncStaging result | returned result =>
      cases result with
      | error => cases published
      | ok publication => exact .inl published
  | openFinal status =>
      simp only [advance] at published
      split at published
      · cases published
      · exact .inl published
  | readFinal status fd acc =>
      simp only [advance] at published
      repeat' split at published
      all_goals first | exact .inl published | cases published
  | fsyncFinalParent publication => exact .inl published
  | _ =>
      simp only [advance] at published
      repeat' split at published
      all_goals cases published

theorem raised_settled {fault : Fault} {pc : Pc}
    (published : settled (raised store fault pc) = some .published) :
    settled pc = some .published := by
  cases pc with
  | openExisting =>
      simp only [raised] at published
      split at published <;> cases published
  | returned result => exact published
  | _ => cases published

/-- A step is about one call only. -/
theorem step_other {call : Pid → PublishCall} {s : State} (inv : Inv store call s) {e : Event}
    {pid : Pid} (other : pid ≠ e.pid) : (s.step store call e).pc pid = s.pc pid ∧
      ∀ path, (s.step store call e).linker path = some pid ↔ s.linker path = some pid := by
  cases e with
  | step q => exact ⟨Function.update_of_ne other _ _, won_other inv other⟩
  | fail q | crash q => exact ⟨Function.update_of_ne other _ _, fun _ => Iff.rfl⟩
  | rewriteSource q => exact ⟨rfl, fun _ => Iff.rfl⟩

theorem step_settled {call : Pid → PublishCall} {s : State} {e : Event}
    (published : settled ((s.step store call e).pc e.pid) = some .published) :
    settled (s.pc e.pid) = some .published ∨
      (s.step store call e).linker (finalPath store (call e.pid)) = some e.pid := by
  cases e with
  | step q =>
      have own : (s.step store call (.step q)).pc q =
          (advance store (call q) q (s.source q) s.fs (s.pc q)).2 := Function.update_self _ _ _
      rw [Event.pid, own] at published
      exact (advance_settled published).imp_right fun fires =>
        (linker_step _ _ _).trans (if_pos ⟨fires, rfl⟩)
  | fail q fault =>
      have own : (s.step store call (.fail q fault)).pc q = raised store fault (s.pc q) :=
        Function.update_self _ _ _
      rw [Event.pid, own] at published
      exact .inl (raised_settled published)
  | crash q =>
      simp only [Event.pid, State.step, Function.update_self] at published ⊢
      split at published
      · rename_i result at_
        rw [at_]
        exact .inl published
      · cases published
  | rewriteSource q => exact .inl published

theorem Good.event (good : Good store d) {e : Event} (old : e.pid < d.next) :
    Good store { d with state := d.state.step store d.call e } := by
  refine ⟨inv_step good.inv e, reachable_step good.reachable e, fun pid above => ?_,
    fun pid published => ?_⟩
  · obtain ⟨waiting, unlinked⟩ := good.unopened pid above
    obtain ⟨same, linker⟩ := step_other good.inv (e := e) (Nat.ne_of_gt (Nat.lt_of_lt_of_le old above))
    exact ⟨same.trans waiting, fun path => mt (linker path).mp (unlinked path)⟩
  · have kept : d.state.linker (finalPath store (d.call pid)) = some pid →
        (d.state.step store d.call e).linker (finalPath store (d.call pid)) = some pid :=
      linker_kept good.inv e
    by_cases own : pid = e.pid
    · subst own
      exact (step_settled published).elim (fun before => kept (good.won _ before)) id
    · refine kept (good.won pid ?_)
      rw [← (step_other good.inv own).1]
      exact published

theorem opened_call {pid : Pid} (old : pid ≠ d.next) (c : PublishCall) (content : Bytes) :
    (d.opened c content).call pid = d.call pid :=
  Function.update_of_ne old _ _

theorem Good.opened (good : Good store d) (c : PublishCall) (content : Bytes) :
    Good store (d.opened c content) := by
  have waiting := (good.unopened d.next (Nat.le_refl _)).1
  have unlinked := (good.unopened d.next (Nat.le_refl _)).2
  have linked : ∀ {path pid}, d.state.linker path = some pid → pid ≠ d.next := by
    rintro path pid here rfl
    exact unlinked path here
  have procs : ∀ pid, ProcOK store (Function.update d.call d.next c) pid d.state.fs
      (d.state.pc pid) := by
    intro pid
    by_cases new : pid = d.next
    · subst new
      have old := good.inv.procs d.next
      rw [waiting] at old ⊢
      exact old
    · have old := good.inv.procs pid
      have same : Function.update d.call d.next c pid = d.call pid := Function.update_of_ne new _ _
      cases at_ : d.state.pc pid <;> simp only [at_, ProcOK, same] at old ⊢ <;> exact old
  refine ⟨{ good.inv with procs := procs, complete := fun path i present => ?_ }, ⟨fun pid => ?_,
    good.reachable.published⟩, fun pid above => ?_, fun pid published => ?_⟩
  · obtain ⟨pid, here, final, digest⟩ := good.inv.complete path i present
    rw [← opened_call (linked here) c content] at final digest
    exact ⟨pid, here, final, digest⟩
  · by_cases new : pid = d.next
    · have start : (d.opened c content).state.pc pid = .start := new ▸ waiting
      rw [start]
      trivial
    · rw [opened_call new]
      exact good.reachable.onTheWay pid
  · exact good.unopened pid (Nat.le_of_succ_le above)
  · have old := good.won pid published
    rw [opened_call (linked old)]
    exact old

theorem later_opened (d : Depot) (c : PublishCall) (content : Bytes) :
    Later d (d.opened c content) where
  next := Nat.le_succ _
  call _ old := Function.update_of_ne (Nat.ne_of_lt old) _ _
  cells := .refl _
  linker _ _ linked := linked

theorem Good.step (good : Good store d) (h : Happening) : Good store (d.step store h) := by
  cases h with
  | event e =>
      simp only [Depot.step]
      split
      · exact good.event ‹_›
      · exact good
  | opened c content => exact good.opened c content

theorem Good.later_step (good : Good store d) (h : Happening) : Later d (d.step store h) := by
  cases h with
  | event e =>
      simp only [Depot.step]
      split
      · exact ⟨Nat.le_refl _, fun _ _ => rfl, (step_refines good.inv e).keeps,
          fun _ _ => linker_kept good.inv e⟩
      · exact .refl d
  | opened c content => exact later_opened d c content

/-! ## Runs -/

theorem good_run (good : Good store d) (happenings : List Happening) :
    Good store (run (Depot.step store) d happenings) :=
  run_invariant (I := Good store) (fun _ h good => good.step h) good happenings

theorem later_run (good : Good store d) (happenings : List Happening) :
    Later d (run (Depot.step store) d happenings) :=
  run_relation (I := Good store) (R := Later) (fun _ h good => good.step h) .refl .trans
    (fun _ h good => good.later_step h) good happenings

theorem good_initial (store : FilesystemArtifactStore) (call : Pid → PublishCall)
    (directories : Path → Bool) (source : Pid → Bytes) :
    Good store ⟨call, State.initial (.holding directories) source, 0⟩ where
  inv := inv_initial store call directories source
  reachable := reachable_initial store call directories source
  unopened _ _ := ⟨rfl, fun _ => Option.some_ne_none _ ∘ Eq.symm⟩
  won _ published := nomatch published

/-! ## A call of `publish` -/

/-- How a script ends that does not return -/
inductive Stop (ε : Type) where
  | raised (e : ε)
  /-- The process is killed, or waits forever. -/
  | killed
  deriving DecidableEq

/-- What the caller sees of a call -/
def Pc.outcome : Pc → Except (Stop StoreError) Publication
  | .returned (.ok publication) => .ok publication
  | .returned (.error e) | .removalFailed e => .error (.raised e)
  | _ => .error .killed

/-- A call of `publish`, and all that happens until it has returned or for as long as it waits. -/
def Depot.publish (store : FilesystemArtifactStore) (d : Depot) (c : PublishCall) (content : Bytes)
    (happenings : List Happening) : Except (Stop StoreError) Publication × Depot :=
  let d' := run (Depot.step store) (d.opened c content) happenings
  ((d'.state.pc d.next).outcome, d')

/-- The file of a call is there, with the digest that the call expects. -/
def Holds (store : FilesystemArtifactStore) (d : Depot) (c : PublishCall) : Prop :=
  ∃ bytes, d.state.fs.read (finalPath store c) = some bytes ∧ store.sha256 bytes = c.expected_sha256

theorem Holds.later {c : PublishCall} (holds : Holds store d c) (later : Later d d')
    (good : Good store d) (good' : Good store d') : Holds store d' c := by
  obtain ⟨bytes, present, digest⟩ := holds
  exact ⟨bytes, later.read good good' present, digest⟩

section

variable (good : Good store d) (c : PublishCall) (content : Bytes) (happenings : List Happening)

include good

theorem good_publish : Good store (d.publish store c content happenings).2 :=
  good_run (good.opened c content) happenings

theorem later_publish : Later d (d.publish store c content happenings).2 :=
  (later_opened d c content).trans (later_run (good.opened c content) happenings)

theorem call_publish : (d.publish store c content happenings).2.call d.next = c := by
  have later := later_run (good.opened c content) happenings
  exact (later.call d.next (Nat.lt_succ_self _)).trans (Function.update_self _ _ _)

theorem next_publish : d.next < (d.publish store c content happenings).2.next :=
  Nat.lt_of_succ_le (later_run (good.opened c content) happenings).next

/-- What a call has linked hashes to the digest that it expects. -/
theorem linked_publish {path : Path}
    (linked : (d.publish store c content happenings).2.state.linker path = some d.next) :
    path = finalPath store c ∧ Holds store (d.publish store c content happenings).2 c := by
  have good' := good_publish good c content happenings
  obtain ⟨i, present⟩ := good'.inv.linked _ _ linked
  obtain ⟨pid, owner, final, digest⟩ := good'.inv.complete _ _ present
  rw [linked, Option.some.injEq] at owner
  subst owner
  rw [call_publish good] at final digest
  refine ⟨final.symm, _, ?_, digest⟩
  rw [read_eq_cells good'.reachable, FileSystem.cells, final, present]
  rfl

end

theorem outcome_ok {pc : Pc} {publication : Publication} (h : pc.outcome = .ok publication) :
    pc = .returned (.ok publication) := by
  cases pc with
  | returned result =>
      cases result with
      | ok _ => cases h; rfl
      | error _ => cases h
  | _ => cases h

/-- Success means that the file is there. It is reported as new only if it was not. -/
theorem publish_ok (good : Good store d) {c : PublishCall} {content : Bytes}
    {happenings : List Happening} {publication : Publication}
    (returned : (d.publish store c content happenings).1 = .ok publication) :
    Holds store (d.publish store c content happenings).2 c ∧
      ((∃ bytes, d.state.fs.read (finalPath store c) = some bytes) →
        publication.status = .alreadyPresent) := by
  have good' := good_publish good c content happenings
  have at_ : (d.publish store c content happenings).2.state.pc d.next =
      .returned (.ok publication) := outcome_ok returned
  refine ⟨?_, fun ⟨bytes, present⟩ => ?_⟩
  · obtain ⟨bytes, there, ok⟩ := success_is_stored good'.inv good'.reachable at_
    rw [call_publish good] at there ok
    exact ⟨bytes, there, (verified_ok ok).1⟩
  · -- whoever linked the file before is still its linker
    rw [read_eq_cells good.reachable] at present
    obtain ⟨i, file, -⟩ := Option.map_eq_some_iff.mp present
    obtain ⟨owner, linked, -⟩ := good.inv.complete _ _ file
    cases status : publication.status with
    | alreadyPresent => rfl
    | published =>
        have mine := good'.won d.next (by rw [at_]; exact congrArg some status)
        rw [call_publish good] at mine
        have theirs := (later_publish good c content happenings).linker _ _ linked
        rw [mine, Option.some.injEq] at theirs
        rw [← theirs] at linked
        exact absurd linked ((good.unopened d.next (Nat.le_refl _)).2 _)

end PackageRegistry.Store
