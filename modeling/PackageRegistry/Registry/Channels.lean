import PackageRegistry.Registry.History

/-! # Channels only move forward

The index of valid modules always exists, and it offers on each channel the newest
release. Releases stay and keep their channel, so along a history nothing that is
offered disappears or becomes older, although no check compares two indexes.
-/

namespace PackageRegistry

open Checks

variable {lib : Library}

/-! ## Channels of one module -/

/-- What a channel offers -/
def offered (versions : List Release) (channel : Channel) : Option Target :=
  (firstMax versionKey (onChannel versions channel)).map Release.target

def channelTable (versions : List Release) : List Channel → Table Channel Target → Table Channel Target
  | [], channels => channels
  | channel :: rest, channels =>
      channelTable versions rest (match offered versions channel with
        | some target => channels.insert channel target
        | none => channels)

theorem get_channelTable (versions : List Release) (listed : List Channel)
    (channels : Table Channel Target) (channel : Channel) :
    (channelTable versions listed channels)[channel]? =
      (if channel ∈ listed then offered versions channel else none).or channels[channel]? := by
  induction listed generalizing channels with
  | nil => simp [channelTable]
  | cons first rest ih =>
      rw [channelTable, ih]
      cases found : offered versions first with
      | none =>
          by_cases same : channel = first
          · simp [same, found]
          · simp [same]
      | some target =>
          rw [Table.get_insert]
          by_cases same : first = channel
          · subst same
            by_cases again : first ∈ rest <;> simp [found, again]
          · simp [same, Ne.symm same]

theorem addTarget_ok {versions : List Release} (valid : ∀ r ∈ versions, IsSemver r.version)
    (channels : Table Channel Target) (channel : Channel) :
    addTarget versions channels channel = .ok (match offered versions channel with
      | some target => channels.insert channel target
      | none => channels) := by
  have compared : checkVersions ((onChannel versions channel).map (·.version)) = .ok () := by
    refine checkVersions_ok fun v mem => ?_
    obtain ⟨r, inChannel, rfl⟩ := List.mem_map.mp mem
    exact valid r (List.mem_of_mem_filter inChannel)
  simp only [addTarget, compared, ok_bind, offered]
  cases firstMax versionKey (onChannel versions channel) <;> rfl

theorem channelsOf_ok {versions : List Release} (valid : ∀ r ∈ versions, IsSemver r.version) :
    channelsOf versions = .ok (channelTable versions CHANNELS ∅) := by
  suffices all : ∀ (listed : List Channel) (channels : Table Channel Target),
      listed.foldlM (addTarget versions) channels = .ok (channelTable versions listed channels) from
    all CHANNELS ∅
  intro listed
  induction listed with
  | nil => exact fun _ => rfl
  | cons first rest ih =>
      intro channels
      rw [List.foldlM_cons, addTarget_ok valid, ok_bind, ih]
      rfl

theorem mem_CHANNELS (channel : Channel) : channel ∈ CHANNELS := by
  cases channel <;> decide

/-- Each channel of the index entry is what the module offers there. -/
theorem get_channels (versions : List Release) (channel : Channel) :
    (channelTable versions CHANNELS ∅)[channel]? = offered versions channel := by
  rw [get_channelTable, if_pos (mem_CHANNELS channel), Table.get_empty, Option.or_none]

/-- Sorting the versions changes nothing on any channel. -/
theorem offered_sorted (versions : List Release) (channel : Channel) :
    offered (sortBy versionKey versions) channel = offered versions channel := by
  rw [offered, onChannel, StableSort.filter_sortBy, StableSort.firstMax_sortBy]
  rfl

/-- The newest release on a channel, and the first one listed if several have its precedence -/
def IsNewest (versions : List Release) (channel : Channel) (target : Target) : Prop :=
  ∃ before r after, versions = before ++ r :: after ∧ r.channel = channel ∧ target = r.target ∧
    (∀ b ∈ before, b.channel = channel → versionKey b < versionKey r) ∧
    ∀ b ∈ after, b.channel = channel → versionKey b ≤ versionKey r

theorem offered_iff {versions : List Release} {channel : Channel} {target : Target} :
    offered versions channel = some target ↔ IsNewest versions channel target := by
  simp only [offered, onChannel, Option.map_eq_some_iff, StableSort.firstMax_filter, beq_iff_eq,
    IsNewest]
  constructor
  · rintro ⟨r, ⟨before, after, split, here, smaller, notGreater⟩, rfl⟩
    exact ⟨before, r, after, split, here, rfl, smaller, notGreater⟩
  · rintro ⟨before, r, after, split, here, rfl, smaller, notGreater⟩
    exact ⟨r, ⟨before, after, split, here, smaller, notGreater⟩, rfl⟩

theorem offered_mem {versions : List Release} {channel : Channel} {target : Target}
    (h : offered versions channel = some target) :
    ∃ r ∈ versions, r.channel = channel ∧ r.target = target := by
  obtain ⟨before, r, after, rfl, here, rfl, -, -⟩ := offered_iff.mp h
  exact ⟨r, by simp, here, rfl⟩

/-! ## The index of valid modules -/

theorem ValidModule.versions {m : Module} (h : ValidModule lib m) :
    ∀ r ∈ m.versions, IsSemver r.version :=
  fun r mem => (h.releases r mem).version

def entryOf (m : Module) : IndexEntry where
  id := m.id
  name := m.name
  publisher := m.publisher
  classification := m.classification
  channels := channelTable m.versions CHANNELS ∅

def indexOf (modules : List Module) : Index :=
  ⟨(sortBy (fun m => m.id) modules).map entryOf⟩

theorem arrayOf_of {minItems : Nat} {items : Schema} {values : List Json}
    (enough : minItems ≤ values.length) (each : ∀ v ∈ values, items v = true) :
    arrayOf minItems items (.arr values) = true :=
  Bool.and_eq_true_iff.mpr ⟨decide_eq_true enough, List.all_eq_true.mpr each⟩

theorem isMetadataPath_metadataPath {id : Text} (h : IsId id) :
    isMetadataPath (metadataPath id) = true := by
  have between : ((metadataPath id).drop 9).take ((metadataPath id).length - 14) = id := by
    have front : (text "/modules/").length = 9 := rfl
    have back : (text ".json").length = 5 := rfl
    rw [metadataPath, List.append_assoc, List.drop_left' front, List.take_left']
    simp only [List.length_append, front, back]
    omega
  have starts : Text.startsWith (text "/modules/") (metadataPath id) = true := by
    simp [Text.startsWith, metadataPath]
  have ends : Text.endsWith (text ".json") (metadataPath id) = true := by
    exact List.isSuffixOf_iff_suffix.mpr (List.suffix_append _ _)
  simp only [isMetadataPath, starts, ends, between, h.2, Bool.and_self]

theorem channels_schema {m : Module} (h : ValidModule lib m) :
    objectOf [] (CHANNELS.map fun c => (c.name, channelReleaseSchema))
      (.obj ((entryOf m).channels.toList.map fun c => (c.1.name, .obj c.2.toDict))) = true := by
  refine objectOf_of (by simp) fun f mem => ?_
  obtain ⟨⟨channel, target⟩, row, rfl⟩ := List.mem_map.mp mem
  have found : offered m.versions channel = some target := by
    rw [← get_channels]
    exact (Table.mem_toList _).mp row
  obtain ⟨r, inVersions, -, rfl⟩ := offered_mem found
  have sha256 : SHA256_RE r.artifact.sha256 = true := (h.releases r inVersions).sha256
  have release : channelReleaseSchema (.obj r.target.toDict) = true := by
    refine objectOf_of (by simp [Target.toDict]) ?_
    simp +decide only [Target.toDict, Release.target, List.forall_mem_cons, lookup_cons, ↓reduceIte,
      Option.any_some]
    exact ⟨searched_of sha256, rfl, by simp⟩
  cases channel <;> simp +decide [CHANNELS, lookup_cons, release]

theorem entry_schema {m : Module} (h : ValidModule lib m) :
    objectOf [text "id", text "name", text "publisher", text "classification", text "channels",
        text "metadata"]
      [(text "id", string (searched MODULE_ID_RE)),
        (text "name", string fun s => 1 ≤ s.length),
        (text "publisher", objectOf [text "id", text "name"]
          [(text "id", string fun _ => true), (text "name", string fun _ => true)]),
        (text "classification", enum [text "first-party", text "reviewed-community"]),
        (text "channels", objectOf [] (CHANNELS.map fun c => (c.name, channelReleaseSchema))),
        (text "metadata", string (searched isMetadataPath))] (.obj (entryOf m).toDict) = true := by
  have publisher : objectOf [text "id", text "name"]
      [(text "id", string fun _ => true), (text "name", string fun _ => true)]
      (.obj m.publisher.toDict) = true := by
    refine objectOf_of (by simp [Publisher.toDict]) ?_
    simp +decide only [Publisher.toDict, List.forall_mem_cons, lookup_cons, ↓reduceIte,
      Option.any_some]
    exact ⟨rfl, rfl, by simp⟩
  have classification : enum [text "first-party", text "reviewed-community"]
      (.str m.classification.name) = true := by
    cases m.classification <;> decide
  have name : string (fun s => 1 ≤ s.length) (.str m.name) = true :=
    decide_eq_true (List.length_pos_of_ne_nil h.name.1)
  refine objectOf_of (by simp [IndexEntry.toDict]) ?_
  simp +decide only [IndexEntry.toDict, List.forall_mem_cons, lookup_cons, ↓reduceIte,
    Option.any_some]
  exact ⟨channels_schema h, classification, searched_of h.id.2,
    searched_of (isMetadataPath_metadataPath h.id), name, publisher, by simp⟩

/-- Index generation cannot fail on valid modules. -/
theorem build_index_ok {modules : List Module} (h : ∀ m ∈ modules, ValidModule lib m) :
    build_index lib modules = .ok (indexOf modules) := by
  have valid : ∀ m ∈ sortBy (fun m => m.id) modules, ValidModule lib m :=
    fun m mem => h m ((StableSort.mem_sortBy _).mp mem)
  have entries : (sortBy (fun m => m.id) modules).mapM indexEntry = .ok (indexOf modules).modules :=
    mapM_ok fun m mem => by
      rw [indexEntry, channelsOf_ok (valid m mem).versions, ok_bind]
      rfl
  have schema : indexSchema (.obj (indexOf modules).toDict) = true := by
    refine objectOf_of (by simp [Index.toDict]) ?_
    simp +decide only [Index.toDict, List.forall_mem_cons, lookup_cons, ↓reduceIte, Option.any_some]
    refine ⟨arrayOf_of (Nat.zero_le _) fun v mem => ?_, by simp⟩
    simp only [indexOf, List.map_map, List.mem_map] at mem
    obtain ⟨m, inModules, rfl⟩ := mem
    exact entry_schema (valid m inModules)
  simp only [build_index, entries, ok_bind]
  rw [schema_ok.mpr schema]
  rfl

/-! ## Canonical modules -/

/-- What `canonical_module` makes of a valid module -/
def canonical (m : Module) : Module :=
  { m with versions := sortBy versionKey m.versions }

theorem canonical_module_ok {m : Module} (h : ValidModule lib m) :
    canonical_module m = .ok (canonical m) := by
  have compared : checkVersions (m.versions.map (·.version)) = .ok () := by
    refine checkVersions_ok fun v mem => ?_
    obtain ⟨r, inVersions, rfl⟩ := List.mem_map.mp mem
    exact h.versions r inVersions
  rw [canonical_module, compared, ok_bind]
  rfl

theorem ValidModule.canonical {m : Module} (h : ValidModule lib m) :
    ValidModule lib (canonical m) where
  id := h.id
  name := h.name
  description := h.description
  homepage := h.homepage
  documentation_url := h.documentation_url
  publisher_id := h.publisher_id
  publisher_name := h.publisher_name
  source_repository := h.source_repository
  firstParty := h.firstParty
  license := h.license
  nonempty := by
    intro empty
    have perm := StableSort.perm_sortBy versionKey m.versions
    rw [show sortBy versionKey m.versions = [] from empty] at perm
    exact h.nonempty perm.nil_eq.symm
  releases r mem := h.releases r ((StableSort.mem_sortBy _).mp mem)
  distinct := (((StableSort.perm_sortBy _ m.versions).map _).nodup_iff).mpr h.distinct

theorem entryOf_canonical (m : Module) : entryOf (canonical m) = entryOf m := by
  have channels : channelTable (canonical m).versions CHANNELS ∅ =
      channelTable m.versions CHANNELS ∅ := by
    refine Table.ext fun channel => ?_
    rw [get_channels, get_channels]
    exact offered_sorted m.versions channel
  simp only [entryOf, channels]
  rfl

theorem indexOf_canonical (modules : List Module) :
    indexOf (modules.map canonical) = indexOf modules := by
  have sorted : sortBy (fun m => m.id) (modules.map canonical) =
      (sortBy (fun m => m.id) modules).map canonical :=
    StableSort.sortBy_map (f := canonical) (fun m : Module => m.id) (fun _ => rfl) modules
  simp only [indexOf, sorted, List.map_map, Function.comp_def, entryOf_canonical]

/-! ## Along a history -/

/-- Whatever a module offers stays on its channel or gives way to a newer release. -/
theorem Keeps.forward {m m' : Module} (h : Keeps lib m m') (valid : ValidModule lib m')
    (old : ValidModule lib m) {channel : Channel} {target : Target}
    (found : offered m.versions channel = some target) :
    ∃ target' key key', offered m'.versions channel = some target' ∧
      semver_key target.version = some key ∧ semver_key target'.version = some key' ∧ key ≤ key' := by
  obtain ⟨r, inVersions, rfl, rfl⟩ := offered_mem found
  obtain ⟨r', inVersions', same⟩ := h.releases r inVersions
  have sameChannel : r'.channel = r.channel := by
    have value := congrArg Release.channel (equal_iff.mp same.value)
    exact value
  have listed : r' ∈ onChannel m'.versions r.channel :=
    List.mem_filter.mpr ⟨inVersions', by rw [sameChannel]; exact BEq.rfl⟩
  cases greatest : firstMax versionKey (onChannel m'.versions r.channel) with
  | none =>
      rw [StableSort.firstMax_eq_none] at greatest
      rw [greatest] at listed
      cases listed
  | some newest =>
      have inNew : newest ∈ m'.versions :=
        List.mem_of_mem_filter (StableSort.firstMax_mem _ greatest)
      have below := StableSort.firstMax_greatest _ greatest listed
      obtain ⟨key, isKey⟩ := Option.isSome_iff_exists.mp (old.versions r inVersions)
      obtain ⟨key', isKey'⟩ := Option.isSome_iff_exists.mp (valid.versions newest inNew)
      have atKey : semver_key r.version = some key.key := by rw [semver_key, isKey]; rfl
      have atKey' : semver_key newest.version = some key'.key := by rw [semver_key, isKey']; rfl
      rw [versionKey, versionKey, same.version, atKey, atKey'] at below
      exact ⟨newest.target, key.key, key'.key, by rw [offered, greatest]; rfl, atKey, atKey',
        WithBot.coe_le_coe.mp below⟩

structure ChannelsMoveForward (history : List (Snapshot lib)) : Prop where
  built : ∀ s ∈ history, ∃ index, build_index lib s.modules = .ok index ∧
    (index.modules.map (·.id)).Nodup
  forward : ∀ (i j : Nat) base later index index', i ≤ j → history[i]? = some base →
    history[j]? = some later → build_index lib base.modules = .ok index →
    build_index lib later.modules = .ok index' →
    ∀ entry ∈ index.modules, ∃ entry' ∈ index'.modules, entry'.id = entry.id ∧
      ∀ (channel : Channel) target, entry.channels[channel]? = some target →
        ∃ target' key key', entry'.channels[channel]? = some target' ∧
          semver_key target.version = some key ∧ semver_key target'.version = some key' ∧
          key ≤ key'
  newest : ∀ s ∈ history, ∀ index, build_index lib s.modules = .ok index →
    ∀ entry ∈ index.modules, ∃ m ∈ s.modules, m.id = entry.id ∧
      ∀ (channel : Channel) target,
        entry.channels[channel]? = some target ↔ IsNewest m.versions channel target
  canonical : ∀ s ∈ history, ∃ modules, s.modules.mapM canonical_module = .ok modules ∧
    build_index lib modules = build_index lib s.modules

theorem mem_indexOf {modules : List Module} {entry : IndexEntry} :
    entry ∈ (indexOf modules).modules ↔ ∃ m ∈ modules, entryOf m = entry := by
  simp [indexOf]

end PackageRegistry
