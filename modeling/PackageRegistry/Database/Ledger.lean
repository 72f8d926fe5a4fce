import PackageRegistry.Database.Imports
import PackageRegistry.Database.Promotions
import PackageRegistry.Lib.Register

/-! # The ledger of promotions

A version that has been promoted has one event, and the events of a channel are the journal of its
pointer. Promotions keep to it, and so do imports.
-/

namespace PackageRegistry.Database

open Transactions Relational

/-- The pointer of a channel -/
def pointerAt (db : Db) (id : Text) (channel : Channel) : Option (Register Text) :=
  (db.row .module_channels (channelId id channel)).map fun c => ⟨c.version, c.revision⟩

/-- The journal of a channel -/
def journalOf (db : Db) (id : Text) (channel : Channel) (entry : Register.Entry Text) : Prop :=
  ∃ key e, db.row .promotion_events key = some e ∧ e.module_id = id ∧ e.channel = channel ∧
    entry = ⟨e.previous_channel_version, e.version, e.result.channel_revision⟩

/-- The result says what the event says. -/
structure Tells (e : PromotionEvent) : Prop where
  module : e.result.module = e.module_id
  version : e.result.version = e.version
  channel : e.result.channel = e.channel
  previous : e.result.previous_channel_target = e.previous_channel_version
  new : e.result.new_channel_target = e.version ∧ e.new_channel_version = e.version
  status : e.result.status = "published"

/-- The event of a version that is there -/
structure Recorded (s : Settings) (db : Db) (e : PromotionEvent) : Prop where
  intends : Intends s e
  tells : Tells e
  version : ∃ v, db.row .module_versions (versionId e.module_id e.version) = some v ∧
    v.published_at.isSome = true ∧ v.artifact_id = e.result.artifact_sha256

structure Ledger (s : Settings) (db : Db) : Prop where
  recorded : ∀ key e, db.row .promotion_events key = some e → Recorded s db e
  promoted : ∀ key v, db.row .module_versions key = some v → v.published_at.isSome = true →
    ∃ key e, db.row .promotion_events key = some e ∧ e.module_id = v.module_id ∧
      e.version = v.version
  once : ∀ key key' e e', db.row .promotion_events key = some e →
    db.row .promotion_events key' = some e' → e.module_id = e'.module_id → e.version = e'.version →
    e = e'
  journal : ∀ id channel, ∃ values,
    Register.Traces values (pointerAt db id channel) (journalOf db id channel)

/-- What is always true of the registry -/
structure Upheld (s : Settings) (db : Db) : Prop where
  consistent : Consistent s.lib db
  ledger : Ledger s db

theorem reliable (s : Settings) : Reliable s (Upheld s) where
  consistent _ upheld := upheld.consistent
  intends _ upheld key e here := (upheld.ledger.recorded key e here).intends

section

variable {s : Settings} {x y : Db}

theorem Recorded.later {e : PromotionEvent} (h : Recorded s x e) (later : history.Across x y) :
    Recorded s y e := by
  obtain ⟨v, here, promoted, digest⟩ := h.version
  obtain ⟨_, there, rfl⟩ := later .module_versions _ v here
  exact ⟨h.intends, h.tells, _, there, promoted, digest⟩

/-! ## Imports -/

/-- Where no version has been promoted, there are no events. -/
theorem Ledger.quiet (h : Ledger s x) (historical : ∀ key v, x.row .module_versions key = some v →
    v.published_at = none) (key : Text) : x.row .promotion_events key = none := by
  by_contra found
  obtain ⟨e, here⟩ := Option.ne_none_iff_exists'.mp found
  obtain ⟨v, there, promoted, -⟩ := (h.recorded key e here).version
  rw [historical _ v there] at promoted
  cases promoted

theorem silent_of_quiet (quiet : ∀ key, x.row .promotion_events key = none) (id : Text)
    (channel : Channel) (entry : Register.Entry Text) : ¬journalOf x id channel entry := by
  rintro ⟨key, e, here, -⟩
  rw [quiet key] at here
  cases here

/-- An import finds a registry without promotions, and leaves it so. -/
theorem Imported.upheld {modules expected : List Module} (h : Imported s.lib expected y)
    (upheld : Upheld s x) (allowed : (importing modules).allows x y) : Upheld s y := by
  have before : ∀ key, x.row .promotion_events key = none := by
    refine upheld.ledger.quiet fun key v here => ?_
    obtain ⟨_, there, rfl⟩ := allowed.1.evolved .module_versions key v here
    exact h.historical key _ there
  have quiet : ∀ key, y.row .promotion_events key = none := by
    intro key
    rcases allowed.2 .promotion_events key with same | ⟨-, _, -, added⟩
    · exact same.trans (before key)
    · exact added.elim
  refine ⟨h.consistent, fun key e here => ?_, fun key v here promoted => ?_, fun key _ e _ here => ?_,
    fun id channel => Register.traces_of_silent (silent_of_quiet quiet id channel) fun r here => ?_⟩
  · rw [quiet key] at here
    cases here
  · rw [h.historical key v here] at promoted
    cases promoted
  · rw [quiet key] at here
    cases here
  · -- a pointer that has been there has never been moved
    obtain ⟨c, there, rfl⟩ := Option.map_eq_some_iff.mp here
    rcases allowed.2 .module_channels (channelId id channel) with same | ⟨-, c', new, first⟩
    · obtain ⟨values, traces⟩ := upheld.ledger.journal id channel
      have revision := traces.revision
      have short := traces.quiet (silent_of_quiet before id channel)
      have now := traces.now
      rw [pointerAt, ← same, there] at revision now
      have positive : values ≠ [] := by
        rintro rfl
        cases now
      have := List.length_pos_iff.mpr positive
      simp only [Option.map_some, Option.getD_some] at revision ⊢
      omega
    · rw [there, Option.some.injEq] at new
      exact new ▸ first

/-! ## Promotions -/

theorem Promotes.consistent {lib : Library} {e : PromotionEvent} (h : Promotes lib e x y)
    (consistent : Consistent lib x) : Consistent lib y := by
  refine ⟨h.linked, fun id m publisher here there => ?_⟩
  by_cases own : id = e.module_id
  · subst own
    exact h.sound m publisher here there
  · have same : SameModule id x y := sameModule_of_within consistent.linked h.linked h.touched
      (fun touched => touched)
      (Touched.elsewhere own)
    have before := same.module.trans here
    have refers := consistent.linked.refers .modules id m before (.publishers, m.publisher_id)
      (by simp [references])
    obtain ⟨publisher', there'⟩ := Option.isSome_iff_exists.mp refers
    obtain rfl := Option.some.inj ((same.publishers _ _ there').symm.trans there)
    exact (consistent.sound id m _ before there').transfer same

/-- Of the events, one is new. -/
theorem Promotes.events {lib : Library} {e : PromotionEvent} (h : Promotes lib e x y) (key : Text)
    (e' : PromotionEvent) : y.row .promotion_events key = some e' ↔
      x.row .promotion_events key = some e' ∨ key = e.result.promotion_id ∧ e' = e := by
  by_cases own : key = e.result.promotion_id
  · subst own
    rw [h.event, h.fresh]
    simp [eq_comm]
  · have same := (h.touched .promotion_events key).2 own
    rw [same]
    simp [own]

theorem Promotes.other_events {lib : Library} {e : PromotionEvent} (h : Promotes lib e x y)
    (linked : Linked x) {key : Text} {e' : PromotionEvent}
    (here : x.row .promotion_events key = some e') :
    ¬(e'.module_id = e.module_id ∧ e'.version = e.version) := by
  rintro ⟨module_id, version⟩
  have refers := linked.refers .promotion_events key e' here
    (.module_versions, versionId e'.module_id e'.version) (by simp [references])
  rw [module_id, version, h.new] at refers
  cases refers

theorem Promotes.ledger {lib : Library} {e : PromotionEvent} (h : Promotes lib e x y)
    (linked : Linked x) (ledger : Ledger s x) (intends : Intends s e) (tells : Tells e)
    (previous : e.previous_channel_version = (pointerAt x e.module_id e.channel).map (·.value))
    (revision : e.result.channel_revision =
      ((pointerAt x e.module_id e.channel).map (·.revision)).getD 0 + 1) : Ledger s y := by
  have evolved : history.Across x y := h.touched.mono fun _ _ _ _ rel => rel.1
  refine ⟨fun key e' here => ?_, fun key v here promoted => ?_, fun key key' e₁ e₂ here here' sameModule
    sameVersion => ?_, fun id channel => ?_⟩
  · rcases (h.events key e').mp here with old | ⟨-, rfl⟩
    · exact (ledger.recorded key e' old).later evolved
    · obtain ⟨v, there, promoted, digest, -⟩ := h.version
      exact ⟨intends, tells, v, there, promoted, digest⟩
  · by_cases own : key = versionId e.module_id e.version
    · have keyed := Text.pair_inj.mp (own.symm.trans (h.linked.keyed .module_versions key v here))
      exact ⟨_, e, h.event, keyed.1, keyed.2⟩
    · rw [(h.touched .module_versions key).2 own] at here
      obtain ⟨key', e', before, same⟩ := ledger.promoted key v here promoted
      exact ⟨key', e', (h.events key' e').mpr (.inl before), same⟩
  · rcases (h.events key e₁).mp here with old | ⟨-, rfl⟩
    · rcases (h.events key' e₂).mp here' with old' | ⟨-, rfl⟩
      · exact ledger.once key key' e₁ e₂ old old' sameModule sameVersion
      · exact (h.other_events linked old ⟨sameModule, sameVersion⟩).elim
    · rcases (h.events key' e₂).mp here' with old' | ⟨-, rfl⟩
      · exact (h.other_events linked old' ⟨sameModule.symm, sameVersion.symm⟩).elim
      · rfl
  · obtain ⟨values, traces⟩ := ledger.journal id channel
    by_cases own : id = e.module_id ∧ channel = e.channel
    · obtain ⟨rfl, rfl⟩ := own
      rw [traces.revision] at revision
      have written : pointerAt y e.module_id e.channel = some ⟨e.version, values.length + 1⟩ := by
        rw [pointerAt, h.pointer, revision]
        rfl
      rw [written]
      refine ⟨_, traces.write fun entry => ?_⟩
      rw [← previous, ← revision]
      constructor
      · rintro ⟨key, e', there, module_id, channel, rfl⟩
        rcases (h.events key e').mp there with old | ⟨-, rfl⟩
        · exact .inl ⟨key, e', old, module_id, channel, rfl⟩
        · exact .inr rfl
      · rintro (⟨key, e', old, rest⟩ | rfl)
        · exact ⟨key, e', (h.events key e').mpr (.inl old), rest⟩
        · exact ⟨_, e, h.event, rfl, rfl, rfl⟩
    · have away : channelId id channel ≠ channelId e.module_id e.channel := by
        intro same
        obtain ⟨module_id, name⟩ := Text.pair_inj.mp same
        exact own ⟨module_id, Channel.name_injective name⟩
      have samePointer : pointerAt y id channel = pointerAt x id channel := by
        rw [pointerAt, pointerAt, (h.touched .module_channels _).2 away]
      have sameJournal : journalOf y id channel = journalOf x id channel := by
        funext entry
        refine propext ⟨?_, ?_⟩
        · rintro ⟨key, e', there, module_id, atChannel, rfl⟩
          rcases (h.events key e').mp there with old | ⟨-, rfl⟩
          · exact ⟨key, e', old, module_id, atChannel, rfl⟩
          · exact (own ⟨module_id.symm, atChannel.symm⟩).elim
        · rintro ⟨key, e', old, rest⟩
          exact ⟨key, e', (h.events key e').mpr (.inl old), rest⟩
      rw [samePointer, sameJournal]
      exact ⟨values, traces⟩

theorem Settles.upheld {call : PromotionCall} {result : PromotionResult}
    (h : Settles s call x y result) (upheld : Upheld s x) : Upheld s y := by
  cases h with
  | replayed => exact upheld
  | published bound named at_ expected promotes =>
      rename_i b channel pointer
      obtain ⟨fields, own, plain, module_id, version⟩ := bound.intent
      refine ⟨promotes.consistent upheld.consistent,
        promotes.ledger upheld.consistent.linked upheld.ledger ⟨fields, ?_, plain, module_id, version⟩
          ⟨rfl, rfl, rfl, rfl, ⟨rfl, rfl⟩, rfl⟩ ?_ ?_⟩
      · exact congrArg s.jsonb own
      · simp only [pointerAt, eventOf, at_, Option.map_map]
        rfl
      · simp only [pointerAt, eventOf, resultOf, at_, Option.map_map]
        rfl

end

end PackageRegistry.Database
