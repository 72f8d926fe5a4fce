import PackageRegistry.Store.Publish

/-! # The directories on the way to an artifact

No step removes a directory, and a call goes on to the artifact only after it has
opened every directory above it. So what is published can be reached from `/`.
-/

namespace PackageRegistry.Store

/-- Every directory on the way down to a path is there. -/
def Opened (fs : FileSystem) (path : Path) : Prop :=
  ∀ d, d <+: path → d ≠ [] → fs.directory d = true

theorem Opened.nil (fs : FileSystem) : Opened fs [] := by
  intro d below nonempty
  exact absurd (List.prefix_nil.mp below) nonempty

theorem Opened.snoc {fs : FileSystem} {here : Path} {name : Text} (above : Opened fs here)
    (last : fs.directory (here ++ [name]) = true) : Opened fs (here ++ [name]) := by
  intro d below nonempty
  rcases List.prefix_concat_iff.mp below with rfl | shorter
  · exact last
  · exact above d shorter nonempty

theorem Opened.mono {fs fs' : FileSystem} (grow : ∀ d, fs.directory d = true → fs'.directory d = true)
    {path : Path} (h : Opened fs path) : Opened fs' path :=
  fun d below nonempty => grow d (h d below nonempty)

theorem read_of_opened {fs : FileSystem} {path : Path} (h : Opened fs path.dropLast) :
    fs.read path = fs.cells path := by
  unfold FileSystem.read FileSystem.cells
  rw [if_pos]
  simp only [List.all_eq_true, List.mem_inits, Bool.or_eq_true, List.isEmpty_iff]
  intro d below
  by_cases top : d = []
  · exact .inl top
  · exact .inr (h d below top)

theorem finalPath_dropLast (store : FilesystemArtifactStore) (call : PublishCall) :
    (finalPath store call).dropLast = parentPath store call := by
  unfold finalPath parentPath relativePath
  rw [← List.append_assoc, List.dropLast_concat]

theorem mkdir_grows (fs : FileSystem) (path d : Path) (h : fs.directory d = true) :
    (fs.mkdir path).1.directory d = true := by
  unfold FileSystem.mkdir
  split
  · exact h
  · by_cases same : d = path
    · rw [same]
      exact Function.update_self ..
    · exact (Function.update_of_ne same _ _).trans h

theorem mkdir_makes (fs : FileSystem) (path : Path) : (fs.mkdir path).1.directory path = true := by
  unfold FileSystem.mkdir
  split
  · assumption
  · exact Function.update_self ..

section

variable (store : FilesystemArtifactStore) (call : PublishCall)

/-- How far a call has got on its way to the artifact's directory. -/
def OnTheWay (fs : FileSystem) : Pc → Prop
  | .walk .parent here todo => here ++ todo = parentPath store call ∧ Opened fs here
  | .openChild w _ | .fchmodChild w | .fsyncChild w | .fsyncHere w =>
      match w.goal with
      | .parent =>
          w.here ++ w.name :: w.rest = parentPath store call ∧ Opened fs (w.here ++ [w.name])
      | .staging => Opened fs (parentPath store call)
  | .start | .hashSource _ | .returned _ | .removalFailed _ | .crashed => True
  | _ => Opened fs (parentPath store call)

end

variable {store : FilesystemArtifactStore}

theorem OnTheWay.mono {call : PublishCall} {fs fs' : FileSystem}
    (grow : ∀ d, fs.directory d = true → fs'.directory d = true) {pc : Pc}
    (h : OnTheWay store call fs pc) : OnTheWay store call fs' pc := by
  cases pc with
  | walk goal here todo =>
      cases goal with
      | parent => exact ⟨h.1, h.2.mono grow⟩
      | staging => exact Opened.mono grow h
  | openChild w | fchmodChild w | fsyncChild w | fsyncHere w =>
      obtain ⟨goal, here, name, rest⟩ := w
      cases goal with
      | parent => exact ⟨h.1, h.2.mono grow⟩
      | staging => exact Opened.mono grow h
  | start | hashSource | returned | removalFailed | crashed => trivial
  | _ => exact Opened.mono grow h

theorem advance_grows (store : FilesystemArtifactStore) (call : PublishCall) (pid : Pid) (source : Bytes) (fs : FileSystem) (pc : Pc)
    (d : Path) (h : fs.directory d = true) :
    (advance store call pid source fs pc).1.directory d = true := by
  cases pc with
  | walk goal here todo =>
      cases todo with
      | nil => exact h
      | cons name rest => exact mkdir_grows fs _ d h
  | openChild w created => cases created <;> exact h
  | _ =>
      simp only [advance]
      repeat' split
      all_goals exact h

theorem walk_opened {call : PublishCall} {fs : FileSystem} {goal : Goal} {here : Path} {name : Text}
    {rest : List Text} (h : OnTheWay store call fs (.walk goal here (name :: rest))) :
    OnTheWay store call (fs.mkdir (here ++ [name])).1
      (.openChild ⟨goal, here, name, rest⟩ (fs.mkdir (here ++ [name])).2) := by
  cases goal with
  | parent => exact ⟨h.1, (h.2.mono (mkdir_grows fs _)).snoc (mkdir_makes fs _)⟩
  | staging => exact Opened.mono (mkdir_grows fs _) h

/-- The next directory of the walk, once its entry is dealt with. -/
theorem walk_continues {call : PublishCall} {fs : FileSystem} {w : Walk}
    (h : OnTheWay store call fs (.fsyncHere w)) :
    OnTheWay store call fs (.walk w.goal (w.here ++ [w.name]) w.rest) := by
  obtain ⟨goal, here, name, rest⟩ := w
  cases goal with
  | parent => exact ⟨by rw [List.append_assoc]; exact h.1, h.2⟩
  | staging => exact h

theorem advance_onTheWay (call : PublishCall) (pid : Pid) (source : Bytes) (fs : FileSystem)
    (pc : Pc) (h : OnTheWay store call fs pc) :
    OnTheWay store call (advance store call pid source fs pc).1
      (advance store call pid source fs pc).2 := by
  have grown := h.mono (advance_grows store call pid source fs pc)
  cases pc with
  | walk goal here todo =>
      cases todo with
      | nil =>
          cases goal with
          | parent =>
              have there : here = parentPath store call := by simpa using h.1
              exact there ▸ h.2
          | staging => exact h
      | cons name rest => exact walk_opened h
  | openChild w created =>
      cases created with
      | true => exact h
      | false => exact walk_continues h
  | fsyncHere w => exact walk_continues grown
  | hashSource acc =>
      simp only [advance]
      split
      · split
        · exact ⟨rfl, Opened.nil fs⟩
        · trivial
      · trivial
  | _ =>
      simp only [advance] at grown ⊢
      repeat' split
      all_goals first | exact grown | trivial

theorem raised_onTheWay {call : PublishCall} {fs : FileSystem} (fault : Fault) {pc : Pc}
    (h : OnTheWay store call fs pc) : OnTheWay store call fs (raised store fault pc) := by
  cases pc with
  | openExisting =>
      simp only [raised]
      split
      · exact h
      · trivial
  | copy | fchmodPartial | fsyncPartial | hashPartial | checkParent | link | openFinal | readFinal
  | fsyncFinalParent => exact h
  | _ => trivial

/-- Every call knows its way, and every published file can be reached. -/
structure Reachable (store : FilesystemArtifactStore) (call : Pid → PublishCall) (s : State) :
    Prop where
  onTheWay : ∀ pid, OnTheWay store (call pid) s.fs (s.pc pid)
  published : ∀ path i, s.fs.file path = some i → Opened s.fs path.dropLast

theorem advance_published (call : PublishCall) (pid : Pid) (source : Bytes) (fs : FileSystem)
    (pc : Pc) (path : Path) (i : InodeId)
    (present : (advance store call pid source fs pc).1.file path = some i) :
    fs.file path = some i ∨ path = finalPath store call ∧ pc = .link i := by
  cases pc with
  | walk goal here todo =>
      cases todo with
      | nil => exact .inl present
      | cons name rest =>
          have same : (fs.mkdir (here ++ [name])).1.file = fs.file := by
            unfold FileSystem.mkdir
            split <;> rfl
          exact .inl (same ▸ present)
  | openChild w created => cases created <;> exact .inl present
  | link tmp =>
      simp only [advance] at present
      split at present
      · by_cases final : path = finalPath store call
        · subst final
          simp only [FileSystem.link, Function.update_self, Option.some.injEq] at present
          exact .inr ⟨rfl, by rw [present]⟩
        · simp only [FileSystem.link, Function.update_of_ne final] at present
          exact .inl present
      · exact .inl present
  | _ =>
      simp only [advance] at present
      repeat' split at present
      all_goals exact .inl present

theorem reachable_step {call : Pid → PublishCall} {s : State} (h : Reachable store call s)
    (e : Event) : Reachable store call (s.step store call e) := by
  cases e with
  | step pid =>
      have grow := advance_grows store (call pid) pid (s.source pid) s.fs (s.pc pid)
      refine ⟨fun q => ?_, fun path i present => ?_⟩
      · by_cases own : q = pid
        · subst own
          simpa [State.step] using advance_onTheWay (call q) q (s.source q) s.fs (s.pc q)
            (h.onTheWay q)
        · simpa [State.step, Function.update_of_ne own] using (h.onTheWay q).mono grow
      · rcases advance_published (call pid) pid (s.source pid) s.fs (s.pc pid) path i present with
          old | ⟨rfl, at_⟩
        · exact (h.published path i old).mono grow
        · have way := h.onTheWay pid
          rw [at_] at way
          rw [finalPath_dropLast]
          exact Opened.mono grow way
  | fail pid fault =>
      refine ⟨fun q => ?_, h.published⟩
      by_cases own : q = pid
      · subst own
        simpa [State.step] using raised_onTheWay fault (h.onTheWay q)
      · simpa [State.step, Function.update_of_ne own] using h.onTheWay q
  | crash pid =>
      refine ⟨fun q => ?_, h.published⟩
      by_cases own : q = pid
      · subst own
        have known := h.onTheWay q
        simp only [State.step, Function.update_self]
        split
        · rename_i result at_
          rwa [at_] at known
        · trivial
      · simpa [State.step, Function.update_of_ne own] using h.onTheWay q
  | rewriteSource => exact ⟨h.onTheWay, h.published⟩

end PackageRegistry.Store
