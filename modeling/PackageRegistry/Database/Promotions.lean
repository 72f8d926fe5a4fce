import PackageRegistry.Database.Bindings

/-! # What a promotion has done when it commits

A promotion that is repeated changes nothing. Any other one adds the version that the intent
names, at the end of its module, moves one pointer from the revision that was expected to the
next one, and leaves its event.
-/

namespace PackageRegistry.Database

open Transactions Relational

/-- Only these rows change. -/
def changing (touched : TableName → Text → Prop) : Restraint Db where
  allows db db' := Later db db' ∧ (history.within touched).Across db db'
  refl db := ⟨growth.refl db, .refl⟩
  trans first second := ⟨growth.trans first.1 second.1, first.2.trans second.2⟩

/-- The rows that are there for an event -/
def Touched (e : PromotionEvent) : TableName → Text → Prop
  | .artifacts, _ => True
  | .module_versions, key => key = versionId e.module_id e.version
  | .module_dependencies, key => ∃ target, key = dependencyId e.module_id e.version target
  | .module_channels, key => key = channelId e.module_id e.channel
  | .promotion_events, key => key = e.result.promotion_id
  | .publishers, _ | .modules, _ => False

def Stored : TableName → Text → Prop := fun T _ => T = .artifacts

def Pointed (id : Text) (channel : Channel) : TableName → Text → Prop := fun T key =>
  T = .module_channels ∧ key = channelId id channel

def Logged (promotion_id : Text) : TableName → Text → Prop := fun T key =>
  T = .promotion_events ∧ key = promotion_id

section

variable {touched touched' : TableName → Text → Prop} {T : TableName} {key : Text}

theorem changing_mono (wider : ∀ T key, touched T key → touched' T key) (db db' : Db)
    (h : (changing touched).allows db db') : (changing touched').allows db db' :=
  ⟨h.1, h.2.within_mono wider⟩

theorem changing_write {db : Db} {change : Change (Row T)} (other : T ≠ .module_dependencies)
    (here : touched T key) (succeeds : Persists (Succeeds T) (db.row T key) (change.on (db.row T key))) :
    (changing touched).allows db (db.apply ⟨T, key, change⟩) :=
  ⟨later_write other succeeds, Evolution.across_apply ⟨succeeds, fun away => (away here).elim⟩⟩

theorem changing_insert {row : Row T} (other : T ≠ .module_dependencies) (here : touched T key)
    (db : Db) (free : db.row T key = none) :
    (changing touched).allows db (db.apply ⟨T, key, .insert row⟩) := by
  refine changing_write other here ?_
  rw [free]
  exact persists_none

theorem changing_published (e : PromotionEvent) (db db' : Db) (later : Later db db')
    (published : (publishing e.module_id e.version true).allows db db') :
    (changing (Touched e)).allows db db' := by
  refine ⟨later, published.mono fun T key row row' h => ?_⟩
  rcases h with rfl | ⟨rfl, row, rfl, new⟩
  · exact (history.within (Touched e)).refl T key _
  · refine ⟨persists_none, fun away => absurd ?_ away⟩
    cases T with
    | artifacts => trivial
    | module_versions => exact new.1
    | module_dependencies => exact new
    | publishers | modules | module_channels | promotion_events => exact new.elim

/-- A module that is not touched stays as it is. -/
theorem sameModule_of_within {id : Text} {x y : Db} (linked : Linked x) (linked' : Linked y)
    (h : (history.within touched).Across x y) (module : ¬touched .modules id)
    (owned : ∀ T, Owned T → ∀ rest, ¬touched T (Text.pair id rest)) : SameModule id x y where
  linked := linked
  linked' := linked'
  module := ((h .modules id).2 module).symm
  publishers key p here := by
    obtain ⟨p', there, rfl⟩ := (h .publishers key).1 p here
    exact there
  owned T own rest := ((h T _).2 (owned T own rest)).symm

theorem Touched.elsewhere {e : PromotionEvent} {id : Text} (other : id ≠ e.module_id) (T : TableName)
    (owned : Owned T) (rest : Text) : ¬Touched e T (Text.pair id rest) := by
  intro touched
  cases T with
  | module_versions => exact other (Text.pair_inj.mp touched).1
  | module_channels => exact other (Text.pair_inj.mp touched).1
  | module_dependencies =>
      obtain ⟨target, same⟩ := touched
      exact other (Text.pair_inj.mp same).1
  | publishers | modules | artifacts | promotion_events => exact owned

end

/-! ## The versions of a module -/

theorem foldl_max_le {l : List Nat} {a n : Nat} :
    l.foldl max a ≤ n ↔ a ≤ n ∧ ∀ b ∈ l, b ≤ n := by
  induction l generalizing a with
  | nil => simp
  | cons b rest ih => rw [List.foldl_cons, ih, List.forall_mem_cons, Nat.max_le, and_assoc]

section

variable {x y : Db} (linked : Linked x) {id : Text}

include linked

theorem nextOrder_le {n : Nat} :
    nextOrder x id ≤ n ↔ ∀ v ∈ versionsOf x id, v.historical_order < n := by
  simp only [nextOrder, foldl_max_le, Nat.zero_le, true_and, List.mem_map, forall_exists_index,
    and_imp, forall_apply_eq_imp_iff₂, versionsOf_eq linked, StableSort.mem_sortBy, Nat.succ_le_iff]

/-- After versions `0`, ..., `n - 1` comes version `n`. -/
theorem nextOrder_dense
    (dense : (versionsOf x id).map (·.historical_order) = List.range (versionsOf x id).length) :
    nextOrder x id = (versionsOf x id).length := by
  have mem_iff : ∀ n, n ∈ (versionsOf x id).map (·.historical_order) ↔
      n < (versionsOf x id).length := fun n => by rw [dense, List.mem_range]
  refine Nat.le_antisymm ((nextOrder_le linked).mpr fun v mem =>
    (mem_iff _).mp (List.mem_map_of_mem mem)) ?_
  have bounds := (nextOrder_le (n := nextOrder x id) linked).mp (Nat.le_refl _)
  by_contra short
  obtain ⟨v, mem, same⟩ := List.mem_map.mp ((mem_iff _).mpr (Nat.not_le.mp short))
  have less := bounds v mem
  omega

theorem versionsOf_nodup : (versionsOf x id).Nodup := by
  rw [versionsOf_eq linked, (StableSort.perm_sortBy _ _).nodup_iff, rows]
  have keys := List.pairwise_map.mp (Table.nodup_keys (x.table .module_versions))
  refine List.pairwise_map.mpr ((keys.filter _).imp_of_mem ?_)
  intro a b memA memB different same
  have keyed : ∀ c ∈ (x.table .module_versions).toList.filter fun row =>
      row.2.module_id == id, c.1 = versionId c.2.module_id c.2.version := fun c mem =>
    linked.keyed .module_versions _ _ ((Table.mem_toList _).mp (List.mem_filter.mp mem).1)
  refine different ((keyed a memA).trans ?_)
  rw [same]
  exact (keyed b memB).symm

/-- A version that comes last -/
theorem versionsOf_added (linked' : Linked y) {version : Text} {v : ModuleVersion}
    (new : x.row .module_versions (versionId id version) = none)
    (here : y.row .module_versions (versionId id version) = some v)
    (others : ∀ key, key ≠ versionId id version →
      y.row .module_versions key = x.row .module_versions key)
    (dense : (versionsOf x id).map (·.historical_order) = List.range (versionsOf x id).length)
    (last : v.historical_order = (versionsOf x id).length) :
    versionsOf y id = versionsOf x id ++ [v] := by
  have own := (Text.pair_inj.mp (linked'.keyed .module_versions _ v here)).1
  have mem_iff : ∀ {z : Db}, Linked z → ∀ v', v' ∈ versionsOf z id ↔
      (∃ key, z.row .module_versions key = some v') ∧ v'.module_id = id := by
    intro z linkedZ v'
    rw [versionsOf_eq linkedZ, StableSort.mem_sortBy, mem_rows, beq_iff_eq]
  have earlier : ∀ v' ∈ versionsOf x id, v'.historical_order < v.historical_order := by
    intro v' mem
    rw [last, ← List.mem_range, ← dense]
    exact List.mem_map_of_mem mem
  have fresh : v ∉ versionsOf x id := fun mem => (earlier v mem).false
  have perm : (versionsOf y id).Perm (versionsOf x id ++ [v]) := by
    refine (List.perm_ext_iff_of_nodup (versionsOf_nodup linked') ?_).mpr fun v' => ?_
    · exact (versionsOf_nodup linked).append (List.nodup_singleton v)
        (List.disjoint_singleton.mpr fresh)
    · rw [List.mem_append, List.mem_singleton, mem_iff linked', mem_iff linked]
      constructor
      · rintro ⟨⟨key, there⟩, inModule⟩
        by_cases same : key = versionId id version
        · subst same
          exact .inr (Option.some.inj (there.symm.trans here))
        · exact .inl ⟨⟨key, (others key same).symm.trans there⟩, inModule⟩
      · rintro (⟨⟨key, before⟩, inModule⟩ | rfl)
        · have other : key ≠ versionId id version := by
            rintro rfl
            rw [new] at before
            cases before
          exact ⟨⟨key, (others key other).trans before⟩, inModule⟩
        · exact ⟨⟨_, here⟩, own.symm⟩
  have orders : (versionsOf x id ++ [v]).map (·.historical_order) =
      List.range ((versionsOf x id).length + 1) := by
    rw [List.map_append, dense, List.map_singleton, last, List.range_succ]
  have distinct : ((versionsOf x id ++ [v]).map fun v => toLex (v.module_id, v.historical_order)).Nodup := by
    refine .of_map (fun key => (ofLex key).2) ?_
    rw [List.map_map]
    exact orders ▸ List.nodup_range
  have ascending : StableSort.Ascending (fun v : ModuleVersion => toLex (v.module_id, v.historical_order))
      (versionsOf x id ++ [v]) := by
    refine List.pairwise_append.mpr ⟨StableSort.ascending_sortBy _ _, by simp, fun a memA b memB => ?_⟩
    obtain rfl := List.mem_singleton.mp memB
    have inModule := ((mem_iff linked a).mp memA).2
    exact (Prod.Lex.toLex_le_toLex).mpr (.inr ⟨inModule.trans own, (earlier a memA).le⟩)
  have sorted : StableSort.Ascending (fun v : ModuleVersion => toLex (v.module_id, v.historical_order))
      (versionsOf y id) := StableSort.ascending_sortBy _ _
  have same := StableSort.sortBy_perm (fun v : ModuleVersion => toLex (v.module_id, v.historical_order))
    perm.symm distinct
  rw [StableSort.sortBy_of_ascending _ ascending, StableSort.sortBy_of_ascending _ sorted] at same
  exact same.symm

end

/-! ## The writes -/

section

variable {R : Restraint Db} {Inv : Db → Prop} {fin : Db} {p : At} {s : Settings} {id : Text}

theorem ensure_artifact_leads {digest : Text} :
    Leading (changing Stored) Inv (fun _ _ => True) (ensure_artifact s digest) fin p :=
  (ensure_record_leads (fits_artifact (changing_insert (by simp) rfl))).mono
    fun _ _ _ _ => trivial

theorem alters_artifact {digest : Text} {f : ArtifactRow → ArtifactRow} :
    Alters (changing Stored) fin p .artifacts digest f [] where
  behind r guarded := guarded.1.elim
  needs row r m need := need.elim
  keyed row here := trivial
  refers row here := rfl
  keeps row here := by
    refine changing_write (by simp) rfl ?_
    rw [here]
    exact persists_some trivial

theorem completeStorage_leads {artifact : Store.StoredArtifact} {stored : ArtifactRow} :
    Leading (changing Stored) Inv (fun _ _ => True) (completeStorage artifact stored) fin p := by
  unfold completeStorage
  split
  · exact raise_leads
  · split
    · exact pure_leads trivial
    · rw [← Tx.bind_done (updateRow ..)]
      exact (update_leads alters_artifact).mono fun _ _ _ _ => trivial

/-- The pointer of a locked module goes on to its next revision. -/
theorem alters_pointer {pointer : ModuleChannel} {version : Text}
    (locked : (.row .modules pointer.module_id, .update) ∈ p.held)
    (here : (upon fin p.pending).row .module_channels (channelId pointer.module_id pointer.channel) =
      some pointer) :
    Alters (changing (Pointed pointer.module_id pointer.channel)) fin p .module_channels
      (channelId pointer.module_id pointer.channel)
      (fun row => { row with version := version, revision := pointer.revision + 1 })
      [(.module_versions, versionId pointer.module_id version)] where
  behind := by
    rintro r ⟨-, id', rest, same, rfl⟩
    rw [← (Text.pair_inj.mp same).1]
    exact locks_of_update locked
  needs row r m need := need.elim
  keyed row there := by
    obtain rfl := Option.some.inj (there.symm.trans here)
    rfl
  refers row there := by
    obtain rfl := Option.some.inj (there.symm.trans here)
    rfl
  keeps row there := by
    refine changing_write (by simp) ⟨rfl, rfl⟩ ?_
    obtain rfl := Option.some.inj (there.symm.trans here)
    rw [there]
    exact persists_some ⟨rfl, rfl, Nat.le_succ _⟩

theorem movePointer_leads {channel : Channel} {version : Text} {pointer : Option ModuleChannel}
    (locked : (.row .modules id, .update) ∈ p.held) (linked : Linked (upon fin p.pending))
    (here : (upon fin p.pending).row .module_channels (channelId id channel) = pointer) :
    Leading (changing (Pointed id channel)) Inv (fun _ p' =>
        (upon fin p'.pending).row .module_channels (channelId id channel) =
          some ⟨id, channel, version, (pointer.map (·.revision)).getD 0 + 1⟩)
      (movePointer s id channel version pointer) fin p := by
  cases pointer with
  | none =>
      have fits : Fits (changing (Pointed id channel)) p .module_channels (channelId id channel)
          ⟨id, channel, version, 1⟩ :=
        fits_owned trivial locked rfl (changing_insert (by simp) ⟨rfl, rfl⟩)
      exact (add_leads fits).mono fun _ _ _ added => added.2
  | some pointer =>
      have keyed := Text.pair_inj.mp (linked.keyed .module_channels _ pointer here)
      obtain rfl : pointer.channel = channel := (Channel.name_injective keyed.2).symm
      obtain rfl : pointer.module_id = id := keyed.1.symm
      refine (update_leads (alters_pointer locked here)).mono ?_
      rintro _ p' - ⟨row, there, moved⟩
      obtain rfl := Option.some.inj (there.symm.trans here)
      exact moved

theorem enter_leads {value : Key} {taken : Db → Bool} :
    Leading R Inv (fun _ p' => p'.pending = p.pending) (enter () value taken) fin p := by
  rw [enter, Tx.bind_eq]
  refine (Leads.acquire (P := fun _ p' => p' = p.lock (.index value) .update)
    (onward_among fun _ => List.mem_cons_of_mem _) rfl).bind fun _ p' _ same => ?_
  subst same
  refine (Leads.query (P := fun _ p' => p' = p.lock (.index value) .update) fun _ _ => rfl).bind
    fun found p' _ same => ?_
  subst same
  cases found with
  | true => exact Leads.raise
  | false => exact pure_leads rfl

theorem addEvent_leads {key : Text} {event : PromotionEvent}
    (locked : (.row .modules event.module_id, .update) ∈ p.held)
    (named : key = event.result.promotion_id) :
    Leading (changing (Logged key)) Inv (fun _ p' =>
        (upon fin p.pending).row .promotion_events key = none ∧
          (upon fin p'.pending).row .promotion_events key = some event)
      (addEvent s key event) fin p := by
  rw [addEvent, Tx.bind_eq]
  refine (sendable_leads (P := fun _ p' => p' = p) rfl).bind fun _ p' _ same => ?_
  subst same
  rw [Tx.bind_eq]
  refine enter_leads.bind fun _ p₁ onward entered => ?_
  rw [← entered]
  refine insert_leads ⟨fun r guarded => guarded.1.elim, ?_, named,
    changing_insert (by simp) ⟨rfl, rfl⟩⟩
  rintro r m ⟨rfl, rfl⟩
  exact locks_of_update (onward.kept _ locked)

theorem checkRepresentable_leads : Leading R Inv (fun _ p' => p' = p ∧ ∃ a b c d index,
      (others Inv).allows p.held a fin ∧ (others Inv).allows p.held b fin ∧
      (others Inv).allows p.held c fin ∧ (others Inv).allows p.held d fin ∧
      validate_v1_representability s.lib
        (assemble (upon a p.pending) (upon b p.pending) (upon c p.pending))
        (channelTargets (upon d p.pending) none) = .ok index)
    (checkRepresentable s) fin p := by
  rw [checkRepresentable, Tx.bind_eq]
  refine project_v1_leads.bind fun modules p' _ read => ?_
  obtain ⟨rfl, a, b, c, allowedA, allowedB, allowedC, rfl⟩ := read
  rw [Tx.bind_eq]
  refine channel_targets_leads.bind fun targets p'' _ read => ?_
  obtain ⟨rfl, d, allowedD, rfl⟩ := read
  split
  · exact pure_leads ⟨rfl, a, b, c, d, _, allowedA, allowedB, allowedC, allowedD, ‹_›⟩
  · exact raise_leads

end

/-! ## Publishing -/

/-- What the promotion of an event makes of the registry -/
structure Promotes (lib : Library) (e : PromotionEvent) (x y : Db) : Prop where
  touched : (history.within (Touched e)).Across x y
  linked : Linked y
  fresh : x.row .promotion_events e.result.promotion_id = none
  event : y.row .promotion_events e.result.promotion_id = some e
  new : x.row .module_versions (versionId e.module_id e.version) = none
  version : ∃ v, y.row .module_versions (versionId e.module_id e.version) = some v ∧
    v.published_at.isSome = true ∧ v.artifact_id = e.result.artifact_sha256 ∧
    versionsOf y e.module_id = versionsOf x e.module_id ++ [v]
  pointer : y.row .module_channels (channelId e.module_id e.channel) =
    some ⟨e.module_id, e.channel, e.version, e.result.channel_revision⟩
  sound : ∀ m publisher, y.row .modules e.module_id = some m →
    y.row .publishers m.publisher_id = some publisher → Sound lib y e.module_id m publisher

/-- The event comes last. -/
theorem promotes_of {lib : Library} {e : PromotionEvent} {x z y : Db} {v : ModuleVersion}
    (linked : Linked x) (linkedZ : Linked z) (linkedY : Linked y)
    (touched : (history.within (Touched e)).Across x z)
    (logged : (history.within (Logged e.result.promotion_id)).Across z y)
    (fresh : z.row .promotion_events e.result.promotion_id = none)
    (event : y.row .promotion_events e.result.promotion_id = some e)
    (new : x.row .module_versions (versionId e.module_id e.version) = none)
    (here : z.row .module_versions (versionId e.module_id e.version) = some v)
    (promoted : v.published_at.isSome = true) (digest : v.artifact_id = e.result.artifact_sha256)
    (dense : (versionsOf x e.module_id).map (·.historical_order) =
      List.range (versionsOf x e.module_id).length)
    (last : v.historical_order = nextOrder x e.module_id)
    (pointer : z.row .module_channels (channelId e.module_id e.channel) =
      some ⟨e.module_id, e.channel, e.version, e.result.channel_revision⟩)
    (sound : ∀ m publisher, z.row .modules e.module_id = some m →
      z.row .publishers m.publisher_id = some publisher →
      (versionsOf z e.module_id).map (·.historical_order) =
        List.range (versionsOf z e.module_id).length → Sound lib z e.module_id m publisher) :
    Promotes lib e x y := by
  have same : SameModule e.module_id z y := by
    refine sameModule_of_within linkedZ linkedY logged (fun here => ?_) fun T owned rest here => ?_
    · cases here.1
    · obtain ⟨rfl, -⟩ := here
      exact owned
  have last' : v.historical_order = (versionsOf x e.module_id).length :=
    last.trans (nextOrder_dense linked dense)
  have added : versionsOf z e.module_id = versionsOf x e.module_id ++ [v] :=
    versionsOf_added linked linkedZ new here (fun key other => (touched .module_versions key).2 other)
      dense last'
  have denseZ : (versionsOf z e.module_id).map (·.historical_order) =
      List.range (versionsOf z e.module_id).length := by
    rw [added, List.map_append, dense, List.length_append, List.map_singleton, List.length_singleton,
      List.range_succ, last']
  refine ⟨touched.trans (logged.within_mono ?_), linkedY, ?_, event, new,
    ⟨v, ?_, promoted, digest, ?_⟩, ?_, fun m publisher module there => ?_⟩
  · rintro _ key ⟨rfl, rfl⟩
    rfl
  · by_contra before
    obtain ⟨old, before⟩ := Option.ne_none_iff_exists'.mp before
    obtain ⟨old', there, -⟩ := (touched .promotion_events _).1 old before
    rw [fresh] at there
    cases there
  · exact (same.owned .module_versions trivial _).symm.trans here
  · rw [← same.versionsOf, added]
  · exact (same.owned .module_channels trivial _).symm.trans pointer
  · have module' := same.module.trans module
    have refers := linkedZ.refers .modules _ m module' (.publishers, m.publisher_id)
      (by simp [references])
    obtain ⟨publisher', there'⟩ := Option.isSome_iff_exists.mp refers
    obtain rfl := Option.some.inj ((same.publishers _ _ there').symm.trans there)
    exact (sound m _ module' there' denseZ).transfer same

section

variable {Inv : Db → Prop} {fin : Db} {p : At} {s : Settings} {call : PromotionCall} {b : Binding}
  {release : Release} {pointer : Option ModuleChannel}

theorem publishVersion_leads (links : ∀ db, Inv db → Linked db) (inv : Inv fin)
    (progress : Progress fin p) (release_of : ReleaseOf call b release)
    (dense : (versionsOf (upon fin p.pending) call.intent.module_id).map (·.historical_order) =
      List.range (versionsOf (upon fin p.pending) call.intent.module_id).length)
    (at_ : (upon fin p.pending).row .module_channels
      (channelId call.intent.module_id release.channel) = pointer) :
    Leading (changing (Touched (eventOf s call b release.channel pointer))) Inv (fun result p' =>
        result = resultOf call b release.channel pointer ∧
          Promotes s.lib (eventOf s call b release.channel pointer) (upon fin p.pending)
            (upon fin p'.pending))
      (publishVersion s call b release pointer) fin p := by
  generalize made : eventOf s call b release.channel pointer = e
  have module_id : e.module_id = call.intent.module_id := by rw [← made]; rfl
  have version : e.version = release.version := by rw [← made, release_of.version]; rfl
  have channel : e.channel = release.channel := by rw [← made]; rfl
  have result : resultOf call b release.channel pointer = e.result := by rw [← made]; rfl
  have promotion_id : call.intent.idempotency_key = e.result.promotion_id := by rw [← made]; rfl
  have revision : e.result.channel_revision = (pointer.map (·.revision)).getD 0 + 1 := by
    rw [← made]; rfl
  have sha256 : e.result.artifact_sha256 = release.artifact.sha256 := by
    rw [← made, release_of.sha256]; rfl
  rw [← module_id] at dense at_
  rw [publishVersion, made, result, promotion_id, ← module_id, Tx.bind_eq]
  -- the artifact
  have stores : ∀ T key, Stored T key → Touched e T key := by
    rintro _ key rfl
    trivial
  refine (ensure_artifact_leads.widen fun _ _ onward _ => onward.mono (changing_mono stores)).bind
    fun stored p₁ _ first => ?_
  rw [Tx.bind_eq]
  refine (completeStorage_leads.widen fun _ _ onward _ => onward.mono (changing_mono stores)).bind
    fun _ p₂ _ second => ?_
  have storing : Onward (changing Stored) fin p p₂ :=
    (onward (changing Stored) fin).trans first.1 second.1
  have progress₂ := storing.progress progress
  have linkedAt : ∀ {q : At}, Progress fin q → Linked (upon fin q.pending) := fun at_ =>
    at_.linked fin .refl .refl (links fin inv)
  have untouched : SameModule e.module_id (upon fin p.pending) (upon fin p₂.pending) := by
    refine sameModule_of_within (linkedAt progress) (linkedAt progress₂) storing.allowed.2 ?_ ?_
    · intro touched
      cases touched
    · rintro T owned rest rfl
      exact owned
  -- the version
  rw [Tx.bind_eq]
  refine (insert_published_version_leads links inv progress₂ ?_).bind
    fun inserted p₃ onward₃ published => ?_
  · rw [← version]
    exact changing_published e
  obtain ⟨adds, v, published⟩ := published
  cases inserted with
  | false => exact raise_leads
  | true =>
      obtain ⟨absent, next, digest, -⟩ := published.new rfl
      have progress₃ := onward₃.progress progress₂
      -- the pointer
      rw [if_neg (by simp), Tx.bind_eq]
      have at₃ : (upon fin p₃.pending).row .module_channels (channelId e.module_id release.channel) =
          pointer := by
        rcases adds .module_channels (channelId e.module_id release.channel) with same | ⟨-, _, -, new⟩
        · exact same.trans ((untouched.owned .module_channels trivial _).symm.trans at_)
        · exact new.elim
      refine ((movePointer_leads published.locked (linkedAt progress₃) at₃).widen
        fun _ _ onward _ => onward.mono (changing_mono ?_)).bind fun _ p₄ onward₄ moved => ?_
      · rintro _ _ ⟨rfl, rfl⟩
        rw [← channel]
        rfl
      have progress₄ := onward₄.progress progress₃
      -- the boundary
      rw [Tx.bind_eq]
      refine checkRepresentable_leads.bind fun _ p' _ read => ?_
      obtain ⟨rfl, a, b', c, d, index, allowedA, allowedB, allowedC, allowedD, accepted⟩ := read
      -- the event
      rw [Tx.bind_eq]
      refine ((addEvent_leads (onward₄.kept _ published.locked) rfl).widen
        fun _ _ onward _ => onward.mono (changing_mono ?_)).bind fun _ p₅ onward₅ logged => ?_
      · rintro _ _ ⟨rfl, rfl⟩
        rfl
      refine pure_leads ⟨rfl, ?_⟩
      have toEvent := (onward (changing (Touched e)) fin).trans
        (storing.mono (changing_mono stores)) ((onward (changing (Touched e)) fin).trans onward₃ onward₄)
      have locked₄ := onward₄.kept _ published.locked
      have here := (moved.1.allowed.2 .module_versions (versionId e.module_id e.version)).2
        (by simp [Pointed])
      refine promotes_of (v := v) (linkedAt progress) (linkedAt progress₄)
        (linkedAt (onward₅.progress progress₄)) toEvent.allowed.2 logged.1.allowed.2 logged.2.1
        logged.2.2 ?_ ?_ published.promoted (digest.trans sha256.symm) dense ?_ ?_
        fun m publisher module there dense => ?_
      · rw [version]
        exact (untouched.owned .module_versions trivial _).trans absent
      · rw [here, version]
        exact published.version
      · rw [next rfl, untouched.nextOrder]
      · rw [channel, version, revision, moved.2, release_of.version]
      · have frozen : ∀ {db : Db}, (others Inv).allows p'.held db fin →
            SameModule e.module_id (upon db p'.pending) (upon fin p'.pending) := fun allowed =>
          frozen_of links inv allowed progress₄ locked₄
        refine sound_of_representable (frozen allowedA) (frozen allowedB) (frozen allowedC)
          (frozen allowedD) module there ⟨e.version, ?_⟩ accepted dense
        rw [here, version, published.version]
        rfl

/-- The stored intent names the version of the event. -/
def Intends (s : Settings) (e : PromotionEvent) : Prop :=
  ∃ fields, e.intent = s.jsonb (.obj fields) ∧ Json.Plain (.obj fields) ∧
    fields.lookup (text "module_id") = some (.str e.module_id) ∧
    fields.lookup (text "version") = some (.str e.version)

/-- How a promotion commits -/
inductive Settles (s : Settings) (call : PromotionCall) (x : Db) : Db → PromotionResult → Prop
  | replayed {previous : PromotionEvent}
      (here : x.row .promotion_events call.intent.idempotency_key = some previous) :
      Settles s call x x { previous.result with status := "already-published" }
  | published {y : Db} {b : Binding} {channel : Channel} {pointer : Option ModuleChannel}
      (bound : Bound call b) (named : channel.name = call.intent.channel)
      (at_ : x.row .module_channels (channelId call.intent.module_id channel) = pointer)
      (expected : (((pointer.map (·.revision)).getD 0 : Nat) : Int) =
        call.intent.expected_channel_revision)
      (promotes : Promotes s.lib (eventOf s call b channel pointer) x y) :
      Settles s call x y (resultOf call b channel pointer)

/-- What is always true, as far as a promotion relies on it -/
structure Reliable (s : Settings) (Inv : Db → Prop) : Prop where
  consistent : ∀ db, Inv db → Consistent s.lib db
  intends : ∀ db, Inv db → ∀ key e, db.row .promotion_events key = some e → Intends s e

theorem replay_leads (reliable : Reliable s Inv) (inv : Inv fin) (progress : Progress fin p)
    (bound : Bound call b) (start : p.pending = []) (release_of : ReleaseOf call b release)
    {previous : PromotionEvent}
    (here : fin.row .promotion_events call.intent.idempotency_key = some previous) :
    Leading growth Inv (fun result p' => Settles s call fin (upon fin p'.pending) result)
      (replay s call b release previous) fin p := by
  have links : ∀ db, Inv db → Linked db := fun db holds => (reliable.consistent db holds).linked
  unfold replay
  split
  · exact raise_leads
  · rename_i same
    obtain ⟨fields, stored, plain, module_id, version⟩ := reliable.intends fin inv _ previous here
    obtain ⟨fields', own, plain', module_id', version'⟩ := bound.intent
    rw [stored, own, not_not] at same
    have sameModule := same_intent plain plain' same module_id module_id'
    have sameVersion := same_intent plain plain' same version version'
    have published := (links fin inv).refers .promotion_events _ previous here
      (.module_versions, versionId previous.module_id previous.version) (by simp [references])
    rw [Tx.bind_eq]
    refine (insert_published_version_leads links inv progress fun _ _ later _ => later).bind
      fun inserted p' _ result => ?_
    obtain ⟨-, v, result⟩ := result
    refine pure_leads ?_
    cases inserted with
    | true =>
        have absent := (result.new rfl).1
        rw [start, release_of.version, ← sameModule, ← sameVersion] at absent
        exact absurd published (by simpa using absent)
    | false =>
        rw [result.unchanged rfl, start]
        exact .replayed here

theorem promoteRelease_leads (reliable : Reliable s Inv) (inv : Inv fin) (progress : Progress fin p)
    (bound : Bound call b) (start : p.pending = []) (release_of : ReleaseOf call b release)
    (locked : (.row .modules call.intent.module_id, .update) ∈ p.held) {module : ModuleRow}
    (here : fin.row .modules call.intent.module_id = some module) :
    Leading growth Inv (fun result p' => Settles s call fin (upon fin p'.pending) result)
      (promoteRelease s call b release) fin p := by
  have links : ∀ db, Inv db → Linked db := fun db holds => (reliable.consistent db holds).linked
  have dense : (versionsOf fin call.intent.module_id).map (·.historical_order) =
      List.range (versionsOf fin call.intent.module_id).length := by
    have refers := (links fin inv).refers .modules _ module here (.publishers, module.publisher_id)
      (by simp [references])
    obtain ⟨publisher, there⟩ := Option.isSome_iff_exists.mp refers
    exact ((reliable.consistent fin inv).sound _ module publisher here there).dense
  rw [promoteRelease, Tx.bind_eq]
  refine (Leads.query (P := fun _ p' => p' = p) fun _ _ => rfl).bind fun found p' _ same => ?_
  subst same
  cases found with
  | true => exact raise_leads
  | false =>
      rw [if_neg (by simp), Tx.bind_eq]
      refine (get_leads (P := fun found p'' => p'' = p' ∧ fin.row .module_channels
        (channelId call.intent.module_id release.channel) = found) fun db allowed =>
          ⟨rfl, ?_⟩).bind fun pointer p'' _ read => ?_
      · have same := frozen_of links inv allowed progress locked
        have read := same.owned .module_channels trivial release.channel.name
        rw [start] at read ⊢
        exact read.symm
      · obtain ⟨rfl, at_⟩ := read
        split
        · exact raise_leads
        · rename_i expected
          refine Leads.mono (Leads.widen (publishVersion_leads links inv progress release_of
              (by rwa [start]) (by rwa [start])) fun _ _ onward _ => onward.mono fun _ _ allowed =>
            allowed.1) fun result p₁ _ done => ?_
          obtain ⟨-, rfl, promotes⟩ := done
          rw [start] at promotes
          exact .published bound release_of.channel at_ (not_not.mp expected) promotes

theorem promoteModule_leads (reliable : Reliable s Inv) (inv : Inv fin) (progress : Progress fin p)
    (bound : Bound call b) (start : p.pending = [])
    (locked : (.row .modules call.intent.module_id, .update) ∈ p.held) {module : ModuleRow}
    (here : fin.row .modules call.intent.module_id = some module) :
    Leading growth Inv (fun result p' => Settles s call fin (upon fin p'.pending) result)
      (promoteModule s call b module) fin p := by
  unfold promoteModule
  split
  · exact raise_leads
  · split
    · exact raise_leads
    · rw [Tx.bind_eq]
      refine module_structure_leads.bind fun head p' _ same => ?_
      subst same
      rw [Tx.bind_eq]
      refine (releaseIn_leads bound).bind fun release p'' _ read => ?_
      obtain ⟨rfl, release_of⟩ := read
      rw [Tx.bind_eq]
      refine (get_leads (P := fun found p' => p' = p'' ∧ ∀ previous, found = some previous →
        fin.row .promotion_events call.intent.idempotency_key = some previous) fun db allowed =>
          ⟨rfl, fun previous found => ?_⟩).bind fun found p' _ read => ?_
      · rw [start] at found
        obtain ⟨_, there, rfl⟩ := allowed.2.2.1.evolved .promotion_events _ previous found
        exact there
      · obtain ⟨rfl, previously⟩ := read
        cases found with
        | some previous =>
            exact replay_leads reliable inv progress bound start release_of (previously previous rfl)
        | none => exact promoteRelease_leads reliable inv progress bound start release_of locked here

theorem promote_leads (reliable : Reliable s Inv) (inv : Inv fin) :
    Leading growth Inv (fun result p' => Settles s call fin (upon fin p'.pending) result)
      (promote s call) fin .start := by
  unfold promote
  cases found : bindIntent s call with
  | error e => exact raise_leads
  | ok b =>
      have bound := bindIntent_ok found
      dsimp only
      rw [promotion, Tx.bind_eq]
      refine (Leads.acquire (P := fun _ p => p = .lock .start
          (.index (.promotion call.intent.idempotency_key)) .update)
        (onward_among fun _ mem => by cases mem) rfl).bind fun _ p onward same => ?_
      split
      · exact raise_leads
      · rw [Tx.bind_eq]
        refine lockModule_leads.bind fun found p' onward' locked => ?_
        cases found with
        | none => exact raise_leads
        | some found =>
            obtain ⟨key, module⟩ := found
            obtain ⟨started, locked⟩ := locked
            obtain ⟨-, mine, here⟩ := locked key module rfl
            rw [same] at started here
            exact promoteModule_leads reliable inv
              (onward'.progress (onward.progress progress_start)) bound started mine here

end

end PackageRegistry.Database
