import PackageRegistry.Lib.Descent
import PackageRegistry.Registry.History

/-! # Where first-party URLs lead

A client normalises an URL before it follows it: it decodes escaped letters, digits, hyphens,
dots, underscores and tildes, and removes the dot segments. The validator does neither.
-/

namespace PackageRegistry

open Checks Descent

variable {lib : Library}

/-! ## Normal form -/

def isUnreserved (c : CodePoint) : Bool :=
  c.isIdentifierChar || c == .ofChar '.' || c == .ofChar '_' || c == .ofChar '~'

/-- The escapes of unreserved characters are replaced, all others are kept. -/
def decodeUnreserved : Text → Text
  | [] => []
  | [c] => [c]
  | [c, d] => [c, d]
  | c :: high :: low :: rest =>
      match if c = .ofChar '%' then hexByte high low else none with
      | some byte =>
          if isUnreserved (.ofNat byte) then .ofNat byte :: decodeUnreserved rest
          else c :: high :: low :: decodeUnreserved rest
      | none => c :: decodeUnreserved (high :: low :: rest)

def segmentMove (segment : Text) : Move :=
  if segment = text "." then .stay else if segment = text ".." then .up else .down

/-- `remove_dot_segments`: a dot segment at the end leaves a slash there. -/
def removeDotSegments (segments : List Text) : List Text :=
  let reached := walk segmentMove [] segments
  match segments.getLast? with
  | some last => if segmentMove last = .down then reached else reached ++ [[]]
  | none => reached

def normalPath (path : Text) : Text :=
  match Text.splitOn (.ofChar '/') (decodeUnreserved path) with
  | [] :: segments => .ofChar '/' :: [.ofChar '/'].intercalate (removeDotSegments segments)
  | _ => decodeUnreserved path

/-- The URL as a client asks for it; the default port is left out. -/
def normalUrl (lib : Library) (parsed : SplitResult) : Text :=
  parsed.scheme ++ text "://" ++ (parsed.hostname lib).getD [] ++ normalPath parsed.path

def organisation : Text := text "oklabflensburg"

/-- The URL lies under `https://github.com/oklabflensburg/`. -/
def LiesUnderOrganisation (lib : Library) (url : Text) : Prop :=
  ∃ parsed, urlsplit lib url = some parsed ∧
    Text.startsWith (text "https://github.com/oklabflensburg/") (normalUrl lib parsed) = true

/-- The segments of the path come to the organisation from the top, go on, and do not leave
it by a dot segment. -/
def StaysInOrganisation (lib : Library) (url : Text) : Prop :=
  ∃ parsed before after, urlsplit lib url = some parsed ∧
    Text.splitOn (.ofChar '/') (decodeUnreserved parsed.path) =
      [] :: (before ++ organisation :: after) ∧
    after ≠ [] ∧ EndsBelow segmentMove organisation before after

/-! ## Dot segments -/

theorem mem_walk {steps here : List Text} {segment : Text}
    (mem : segment ∈ walk segmentMove here steps) : segment ∈ here ∨ segment ∈ steps := by
  induction steps using List.reverseRecOn generalizing segment with
  | nil => exact .inl mem
  | append_singleton steps last ih =>
      rw [walk_concat, step] at mem
      split at mem
      · rcases List.mem_append.mp mem with earlier | same
        · exact (ih earlier).imp_right (List.mem_append_left _)
        · exact .inr (List.mem_append_right _ same)
      · exact (ih (List.dropLast_subset _ mem)).imp_right (List.mem_append_left _)
      · exact (ih mem).imp_right (List.mem_append_left _)

theorem mem_removeDotSegments {segments : List Text} {segment : Text}
    (mem : segment ∈ removeDotSegments segments) : segment = [] ∨ segment ∈ segments := by
  unfold removeDotSegments at mem
  have inside {segment : Text} (h : segment ∈ walk segmentMove [] segments) :
      segment ∈ segments := (mem_walk h).resolve_left List.not_mem_nil
  dsimp only at mem
  split at mem
  · split at mem
    · exact .inr (inside mem)
    · rcases List.mem_append.mp mem with early | last
      · exact .inr (inside early)
      · exact .inl (List.mem_singleton.mp last)
  · exact .inr (inside mem)

theorem removeDotSegments_concat (segments : List Text) (last : Text) :
    removeDotSegments (segments ++ [last]) =
      if segmentMove last = .down then walk segmentMove [] (segments ++ [last])
      else walk segmentMove [] (segments ++ [last]) ++ [[]] := by
  rw [removeDotSegments, List.getLast?_concat]

/-- What is left has a name in front and something below it just if the segments end there. -/
theorem removeDotSegments_below {segments : List Text} {name : Text} (named : name ≠ []) :
    (∃ rest, removeDotSegments segments = name :: rest ∧ rest ≠ []) ↔
      ∃ before after, segments = before ++ name :: after ∧ after ≠ [] ∧
        EndsBelow segmentMove name before after := by
  rcases List.eq_nil_or_concat segments with rfl | ⟨front, last, rfl⟩
  · constructor
    · rintro ⟨rest, empty, -⟩
      cases empty
    · rintro ⟨before, after, shape, -⟩
      simp at shape
  rw [List.concat_eq_append, removeDotSegments_concat]
  constructor
  · rintro ⟨rest, left, below⟩
    split at left
    · rename_i down
      obtain ⟨before, after, shape, ends, depth⟩ := endsBelow_of_walk left
      refine ⟨before, after, shape, ?_, ends⟩
      rintro rfl
      exact below (List.eq_nil_of_length_eq_zero (by simpa [downs, ups] using depth))
    · rename_i dots
      cases reached : walk segmentMove [] (front ++ [last]) with
      | nil =>
          rw [reached] at left
          exact absurd (List.cons.inj left).1.symm named
      | cons first others =>
          rw [reached] at left
          obtain ⟨rfl, -⟩ := List.cons.inj left
          obtain ⟨before, after, shape, ends, -⟩ := endsBelow_of_walk reached
          refine ⟨before, after, shape, ?_, ends⟩
          rintro rfl
          obtain ⟨-, same⟩ := List.append_inj' shape rfl
          rw [(List.cons.inj same).1] at dots
          exact dots ends.1
  · rintro ⟨before, after, shape, below, ends⟩
    obtain ⟨rest, reached, depth⟩ := walk_of_endsBelow ends
    rw [shape, reached]
    split
    · rename_i down
      refine ⟨rest, rfl, ?_⟩
      rintro rfl
      -- the last segment goes down from a place that is not above the name
      obtain ⟨inner, end_, rfl⟩ := (List.eq_nil_or_concat after).resolve_left below
      rw [List.concat_eq_append] at shape ends depth
      have same : last = end_ := by
        have lasts := congrArg List.getLast? shape
        rw [List.getLast?_concat, ← List.cons_append, ← List.append_assoc,
          List.getLast?_concat] at lasts
        exact Option.some.inj lasts
      have level := ends.2.2 inner (List.prefix_append _ _)
      rw [← same, (counts_concat inner last).1, (counts_concat inner last).2, down] at depth
      simp only [List.length_nil, reduceCtorEq, if_true, if_false] at depth
      omega
    · exact ⟨rest ++ [[]], rfl, by simp⟩

/-! ## Normal paths -/

/-- Whether a normal path lies below a name, in terms of the segments as they are written. -/
theorem normalPath_below {path name : Text} (free : .ofChar '/' ∉ name) (named : name ≠ []) :
    Text.startsWith (.ofChar '/' :: (name ++ [.ofChar '/'])) (normalPath path) = true ↔
      ∃ before after, Text.splitOn (.ofChar '/') (decodeUnreserved path) =
        [] :: (before ++ name :: after) ∧ after ≠ [] ∧
          EndsBelow segmentMove name before after := by
  have pieces := Text.separator_absent (.ofChar '/') (decodeUnreserved path)
  unfold normalPath
  split
  · rename_i segments split
    have absent : ∀ piece ∈ removeDotSegments segments, CodePoint.ofChar '/' ∉ piece := by
      intro piece mem
      rcases mem_removeDotSegments mem with rfl | inside
      · exact List.not_mem_nil
      · exact pieces piece (by rw [split]; exact List.mem_cons_of_mem _ inside)
    have drop : Text.startsWith (.ofChar '/' :: (name ++ [.ofChar '/']))
        (.ofChar '/' :: [.ofChar '/'].intercalate (removeDotSegments segments)) =
          Text.startsWith (name ++ [.ofChar '/'])
            ([.ofChar '/'].intercalate (removeDotSegments segments)) := by
      simp [Text.startsWith, List.isPrefixOf]
    rw [drop, Text.startsWith_intercalate absent free, removeDotSegments_below named, split]
    simp only [List.cons.injEq, true_and]
  · rename_i other
    constructor
    · intro starts
      obtain ⟨more, shape⟩ := List.isPrefixOf_iff_prefix.mp starts
      refine absurd ?_ (other (Text.splitOn (.ofChar '/') (name ++ [.ofChar '/'] ++ more)))
      rw [← shape, List.cons_append, Text.splitOn, if_pos rfl]
    · rintro ⟨before, after, shape, -⟩
      exact absurd shape (other _)

/-! ## First-party URLs -/

/-- For a URL on GitHub, what a client asks for is decided by the segments. -/
theorem liesUnder_iff {url : Text} {parsed : SplitResult} (split : urlsplit lib url = some parsed)
    (allowed : httpsAllowed lib url parsed = true)
    (host : parsed.hostname lib = some (text "github.com")) :
    LiesUnderOrganisation lib url ↔ StaysInOrganisation lib url := by
  have scheme : parsed.scheme = text "https" := by
    simp only [httpsAllowed, Bool.and_eq_true, beq_iff_eq] at allowed
    exact allowed.1.1.1.1.1.1.1.1
  have origin : text "https://github.com/oklabflensburg/" =
      text "https" ++ text "://" ++ text "github.com" ++
        .ofChar '/' :: (organisation ++ [.ofChar '/']) := by decide
  have below := @normalPath_below parsed.path organisation (by decide) (by decide)
  have same : Text.startsWith (text "https://github.com/oklabflensburg/") (normalUrl lib parsed) =
      Text.startsWith (.ofChar '/' :: (organisation ++ [.ofChar '/'])) (normalPath parsed.path) := by
    rw [normalUrl, scheme, host, Option.getD_some, origin, Text.startsWith, Text.startsWith,
      Bool.eq_iff_iff, List.isPrefixOf_iff_prefix, List.isPrefixOf_iff_prefix]
    exact List.prefix_append_right_inj _
  unfold LiesUnderOrganisation StaysInOrganisation
  constructor
  · rintro ⟨parsed', again, starts⟩
    obtain rfl := Option.some.inj (split.symm.trans again)
    rw [same, below] at starts
    obtain ⟨before, after, rest⟩ := starts
    exact ⟨parsed, before, after, split, rest⟩
  · rintro ⟨parsed', before, after, again, rest⟩
    obtain rfl := Option.some.inj (split.symm.trans again)
    refine ⟨parsed, split, ?_⟩
    rw [same, below]
    exact ⟨before, after, rest⟩

/-- The URLs of a first-party module lie under the organisation, once they are normalised, just
if their segments stay there. -/
theorem first_party_urls (lib : Library) (document : Dict) (origin : Text)
    (expected_id : Option Text) (module : Module)
    (accepted : validate_module lib document origin expected_id = .ok module)
    (firstParty : module.classification = .firstParty) :
    (LiesUnderOrganisation lib module.source_repository ∧
      ∀ release ∈ module.versions, OnGitHub lib release.artifact.url →
        LiesUnderOrganisation lib release.artifact.url) ↔
    StaysInOrganisation lib module.source_repository ∧
      ∀ release ∈ module.versions, OnGitHub lib release.artifact.url →
        StaysInOrganisation lib release.artifact.url := by
  have valid := (validate_module_sound accepted).1
  obtain ⟨source, -, split, allowed⟩ := valid.source_repository.allowed
  have host := valid.firstParty firstParty source split
  simp only [firstPartySource, Bool.and_eq_true, beq_iff_eq] at host
  refine and_congr (liesUnder_iff split allowed host.1) (forall₂_congr fun release mem => ?_)
  refine imp_congr_right fun github => ?_
  obtain ⟨parsed, split, host⟩ := github
  obtain ⟨⟨_, parsed'⟩, passed, -⟩ := bind_ok.mp (valid.releases release mem).url
  obtain ⟨same, -, split', allowed⟩ := https_url_ok.mp passed
  obtain rfl := Json.str.inj same
  obtain rfl := Option.some.inj (split.symm.trans split')
  exact liesUnder_iff split allowed host

/-! ## A module that leaves the organisation -/

def departed : Module :=
  { roadsModule [roadsMirrored (text "1.0.0")] with
    classification := .firstParty
    source_repository := text "https://github.com/oklabflensburg/../evil/repo" }

def settled : Module :=
  { departed with source_repository := text "https://github.com/oklabflensburg/roads" }

set_option maxRecDepth 10000 in
theorem first_party_urls_settled :
    LiesUnderOrganisation plainLibrary settled.source_repository := by
  have accepted : (validate_module plainLibrary settled.toDict [] none) = .ok settled := by
    decide
  refine ((first_party_urls plainLibrary settled.toDict [] none settled accepted rfl).mpr
    ⟨?_, ?_⟩).1
  · refine ⟨⟨text "https", text "github.com", text "/oklabflensburg/roads", [], []⟩, [],
      [text "roads"], by decide, by decide, by decide, rfl, walk_eq_nil.mp rfl, ?_⟩
    have top : Stays segmentMove ([] : List Text) := fun front inside => by
      rw [List.prefix_nil.mp inside]
      exact Nat.le_refl _
    rw [← List.nil_append [_], stays_concat]
    exact ⟨top, by decide⟩
  · intro release mem github
    obtain rfl := List.mem_singleton.mp mem
    obtain ⟨parsed, split, host⟩ := github
    have elsewhere : ((urlsplit plainLibrary (roadsMirrored (text "1.0.0")).artifact.url).bind
        (·.hostname plainLibrary)) ≠ some (text "github.com") := by decide
    rw [split] at elsewhere
    exact absurd host elsewhere

set_option maxRecDepth 10000 in
theorem departed_accepted :
    validate_module plainLibrary departed.toDict [] none = .ok departed ∧
      departed.classification = .firstParty ∧
      ¬LiesUnderOrganisation plainLibrary departed.source_repository := by
  refine ⟨by decide, rfl, ?_⟩
  rintro ⟨parsed, split, starts⟩
  have elsewhere : ((urlsplit plainLibrary departed.source_repository).map fun parsed =>
      Text.startsWith (text "https://github.com/oklabflensburg/") (normalUrl plainLibrary parsed)) =
        some false := by decide
  rw [split, Option.map_some, starts] at elsewhere
  cases elsewhere

end PackageRegistry
