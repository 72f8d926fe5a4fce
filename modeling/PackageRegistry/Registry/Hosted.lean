import PackageRegistry.Builder.Tag
import PackageRegistry.Registry.History

/-! # URLs on the registry's own host

The validator compares the parts of an URL, the host without its case and the path without
its escapes. An URL that is written plainly is determined by these parts; the others are not.
-/

namespace PackageRegistry

open Checks
open Store (canonical_public_artifact_url)

variable {lib : Library}

/-! ## Characters -/

def isHostChar (c : CodePoint) : Bool :=
  c.isLower || c.isDigit || c == .ofChar '-' || c == .ofChar '.'

/-- What occurs in the path of a version. -/
def isPathChar (c : CodePoint) : Bool :=
  c.isIdentifierChar || c == .ofChar '.' || c == .ofChar '+' || c == .ofChar '/'

theorem isHostChar_iff {c : CodePoint} : isHostChar c = true ↔
    (97 ≤ c.val ∧ c.val ≤ 122) ∨ (48 ≤ c.val ∧ c.val ≤ 57) ∨ c.val = 45 ∨ c.val = 46 := by
  have dash : '-'.toNat = 45 := rfl
  have dot : '.'.toNat = 46 := rfl
  simp only [isHostChar, Bool.or_eq_true, beq_iff_eq, CodePoint.isLower_iff,
    CodePoint.isDigit_iff, CodePoint.eq_ofChar_iff, dash, dot, or_assoc]

theorem isPathChar_iff {c : CodePoint} : isPathChar c = true ↔
    (48 ≤ c.val ∧ c.val ≤ 57) ∨ (97 ≤ c.val ∧ c.val ≤ 122) ∨ (65 ≤ c.val ∧ c.val ≤ 90) ∨
      c.val = 45 ∨ c.val = 46 ∨ c.val = 43 ∨ c.val = 47 := by
  have dash : '-'.toNat = 45 := rfl
  have dot : '.'.toNat = 46 := rfl
  have plus : '+'.toNat = 43 := rfl
  have slash : '/'.toNat = 47 := rfl
  simp only [isPathChar, CodePoint.isIdentifierChar, Bool.or_eq_true, beq_iff_eq,
    CodePoint.isLower_iff, CodePoint.isUpper_iff, CodePoint.isDigit_iff,
    CodePoint.eq_ofChar_iff, dash, dot, plus, slash, or_assoc]

theorem ne_of_hostChar {c : CodePoint} (h : isHostChar c = true) (d : Char)
    (other : isHostChar (.ofChar d) = false) : c ≠ .ofChar d := by
  rintro rfl
  rw [h] at other
  cases other

theorem absent_of_hostChars {t : Text} (h : ∀ c ∈ t, isHostChar c = true) (d : Char)
    (other : isHostChar (.ofChar d) = false) : CodePoint.ofChar d ∉ t := fun mem =>
  ne_of_hostChar (h _ mem) d other rfl

theorem absent_of_pathChars {t : Text} (h : ∀ c ∈ t, isPathChar c = true) (d : Char)
    (other : isPathChar (.ofChar d) = false) : CodePoint.ofChar d ∉ t := by
  intro mem
  rw [h _ mem] at other
  cases other

theorem semver_chars {version : Text} (h : IsSemver version) :
    ∀ c ∈ version, c.isIdentifierChar = true ∨ c = .ofChar '.' ∨ c = .ofChar '+' := by
  rw [IsSemver, Builder.semver_re_parts] at h
  simp only [Bool.and_eq_true, List.all_eq_true] at h
  obtain ⟨⟨⟨-, core⟩, prerelease⟩, build⟩ := h
  have number {part : Text} (h : isNumericIdentifier part = true) :
      ∀ c ∈ part, c.isIdentifierChar = true := by
    simp only [isNumericIdentifier, Bool.and_eq_true, List.all_eq_true] at h
    exact fun c mem => Builder.identifier_of_digit (h.1.2 c mem)
  have identifier {part : Text} (h : isBuildIdentifier part = true) :
      ∀ c ∈ part, c.isIdentifierChar = true := by
    simp only [isBuildIdentifier, Bool.and_eq_true, List.all_eq_true] at h
    exact h.2
  refine Builder.chars_of_parts (fun part mem => number (core part mem)) (fun part mem => ?_)
    fun part mem => identifier (build part mem)
  have valid := prerelease part mem
  rw [isPrereleaseIdentifier, Bool.or_eq_true] at valid
  rcases valid with numeric | mixed
  · exact number numeric
  · exact List.all_eq_true.mp (Bool.and_eq_true_iff.mp mixed).1

theorem id_isPathChar {id : Text} (h : IsId id) : ∀ c ∈ id, isPathChar c = true := by
  intro c mem
  rcases id_chars h.2 c mem with lower | digit | rfl
  · simp [isPathChar, CodePoint.isIdentifierChar, lower]
  · simp [isPathChar, CodePoint.isIdentifierChar, digit]
  · decide

theorem semver_isPathChar {version : Text} (h : IsSemver version) :
    ∀ c ∈ version, isPathChar c = true := by
  intro c mem
  rcases semver_chars h c mem with inside | rfl | rfl
  · simp [isPathChar, inside]
  · decide
  · decide

theorem registryPath_chars {module_id version : Text} (id : IsId module_id)
    (semver : IsSemver version) : ∀ c ∈ registryPath module_id version, isPathChar c = true := by
  have top : ∀ c ∈ text "/modules/", isPathChar c = true :=
    List.all_eq_true.mp (by decide)
  have slash : ∀ c ∈ text "/", isPathChar c = true := List.all_eq_true.mp (by decide)
  have dash : ∀ c ∈ text "-", isPathChar c = true := List.all_eq_true.mp (by decide)
  have ending : ∀ c ∈ text ".ocp", isPathChar c = true := List.all_eq_true.mp (by decide)
  have named := id_isPathChar id
  have numbered := semver_isPathChar semver
  simp only [registryPath, artifactName, List.forall_mem_append]
  exact ⟨⟨⟨⟨⟨top, named⟩, slash⟩, numbered⟩, slash⟩, ⟨⟨named, dash⟩, numbered⟩, ending⟩

/-! ## Plain URLs -/

structure PlainlyWritten (url : Text) : Prop where
  scheme : Text.startsWith (text "https://") url = true
  authority : ∀ c ∈ (url.drop 8).takeWhile (· != .ofChar '/'), isHostChar c = true
  unescaped : .ofChar '%' ∉ url
  no_query : .ofChar '?' ∉ url
  no_fragment : .ofChar '#' ∉ url

theorem hostinfo_plain {url : SplitResult} (plain : ∀ c ∈ url.netloc, isHostChar c = true) :
    url.hostinfo = (url.netloc, []) := by
  unfold SplitResult.hostinfo
  rw [Text.rpartition_absent (absent_of_hostChars plain '@' (by decide))]
  simp only [Text.partition_absent (absent_of_hostChars plain '[' (by decide)),
    Text.partition_absent (absent_of_hostChars plain ':' (by decide)), Option.getD_none]

theorem lowercase_plain {t : Text} (plain : ∀ c ∈ t, isHostChar c = true) :
    lib.lowercase t = t := by
  have ascii : t.all CodePoint.isAscii = true := List.all_eq_true.mpr fun c mem => by
    have range := isHostChar_iff.mp (plain c mem)
    simp only [CodePoint.isAscii, decide_eq_true_eq]
    omega
  rw [Library.lowercase, if_pos ascii]
  refine (List.map_congr_left fun c mem => ?_).trans t.map_id
  have range := isHostChar_iff.mp (plain c mem)
  have small : c.isUpper ≠ true := by
    rw [Ne, CodePoint.isUpper_iff]
    omega
  rw [lowerAscii, if_neg small]
  rfl

theorem hostname_plain {url : SplitResult} (plain : ∀ c ∈ url.netloc, isHostChar c = true)
    (nonempty : url.netloc ≠ []) : url.hostname lib = some url.netloc := by
  unfold SplitResult.hostname
  rw [hostinfo_plain plain, if_neg (by simpa using nonempty),
    Text.partition_absent (absent_of_hostChars plain '%' (by decide))]
  exact congrArg some (lowercase_plain plain)

/-- Without control characters and blanks there is nothing to clean. -/
theorem cleanUrl_visible {url : Text} (visible : ∀ c ∈ url, 32 < c.val) : cleanUrl url = url := by
  have start : (url.dropWhile fun c => c.val ≤ 32) = url := by
    cases url with
    | nil => rfl
    | cons c rest =>
        have large := visible c List.mem_cons_self
        rw [List.dropWhile_cons_of_neg (by simpa using large)]
  have tab : '\t'.toNat = 9 := rfl
  have ret : '\r'.toNat = 13 := rfl
  have line : '\n'.toNat = 10 := rfl
  rw [cleanUrl, start, List.filter_eq_self]
  intro c mem
  have large := visible c mem
  simp only [Bool.and_eq_true, bne_iff_ne, ne_eq, CodePoint.eq_ofChar_iff, tab, ret, line]
  omega

theorem splitScheme_https (rest : Text) :
    splitScheme (text "https://" ++ rest) = (text "https", text "//" ++ rest) := by
  have shape : text "https://" ++ rest = text "https" ++ .ofChar ':' :: (text "//" ++ rest) := by
    simp [text]
  rw [shape, splitScheme, Text.partition_append _ (by decide)]
  simp +decide

theorem splitNetloc_plain {rest : Text} (query : .ofChar '?' ∉ rest) (fragment : .ofChar '#' ∉ rest) :
    splitNetloc (text "//" ++ rest) =
      (rest.takeWhile (· != .ofChar '/'), rest.dropWhile (· != .ofChar '/')) := by
  have slashes : Text.startsWith (text "//") (text "//" ++ rest) = true :=
    List.isPrefixOf_iff_prefix.mpr (List.prefix_append _ _)
  have after : (text "//" ++ rest).drop 2 = rest := rfl
  have same : ∀ c ∈ rest, (!endsNetloc c) = (c != .ofChar '/') := by
    intro c mem
    have other : (c == .ofChar '?') = false := beq_eq_false_iff_ne.mpr fun h => query (h ▸ mem)
    have other' : (c == .ofChar '#') = false := beq_eq_false_iff_ne.mpr fun h => fragment (h ▸ mem)
    simp [endsNetloc, other, other', bne]
  simp only [splitNetloc, slashes, if_true, after, (Text.cut_congr same).1, (Text.cut_congr same).2]

/-- How an URL that is written plainly is split, if it may be fetched at all. -/
theorem urlsplit_plain {url : Text} {parsed : SplitResult} (plain : PlainlyWritten url)
    (visible : ∀ c ∈ url, 32 < c.val) (split : urlsplit lib url = some parsed) :
    url = text "https://" ++ parsed.netloc ++ parsed.path ∧
      (∀ c ∈ parsed.netloc, isHostChar c = true) ∧ .ofChar '%' ∉ parsed.path := by
  obtain ⟨scheme, authority, unescaped, query, fragment⟩ := plain
  obtain ⟨rest, rfl⟩ := List.isPrefixOf_iff_prefix.mp scheme
  rw [show (text "https://" ++ rest).drop 8 = rest from rfl] at authority
  rw [List.mem_append, not_or] at unescaped query fragment
  have noQuery : .ofChar '?' ∉ rest.dropWhile (· != .ofChar '/') := fun mem =>
    query.2 ((List.dropWhile_suffix _).subset mem)
  have noFragment : .ofChar '#' ∉ rest.dropWhile (· != .ofChar '/') := fun mem =>
    fragment.2 ((List.dropWhile_suffix _).subset mem)
  simp only [urlsplit, cleanUrl_visible visible, splitScheme_https,
    splitNetloc_plain query.2 fragment.2, Text.partition_absent noFragment,
    Text.partition_absent noQuery] at split
  split at split
  · cases split
  · split at split
    · cases split
    · split at split
      · obtain rfl := Option.some.inj split
        refine ⟨?_, authority, fun mem => unescaped.2 ((List.dropWhile_suffix _).subset mem)⟩
        rw [List.append_assoc, List.takeWhile_append_dropWhile]
      · cases split

/-! ## The canonical URL -/

theorem visible_of_allowed {url : Text} {parsed : SplitResult}
    (h : httpsAllowed lib url parsed = true) : ∀ c ∈ url, 32 < c.val := by
  simp only [httpsAllowed, Bool.and_eq_true, List.all_eq_true, Bool.not_eq_true',
    decide_eq_true_eq] at h
  intro c mem
  obtain ⟨printed, large⟩ := h.2 c mem
  have notBlank : c.val ≠ 32 := by
    intro blank
    simp [CodePoint.isSpace, blank] at printed
  omega

theorem canonical_eq (module_id version : Text) :
    canonical_public_artifact_url module_id version =
      text "https://" ++ CANONICAL_REGISTRY_HOST ++ registryPath module_id version :=
  (expectedMirror_eq module_id version).symm

theorem host_chars : ∀ c ∈ CANONICAL_REGISTRY_HOST, isHostChar c = true :=
  List.all_eq_true.mp (by decide)

theorem canonical_chars {module_id version : Text} (id : IsId module_id)
    (semver : IsSemver version) :
    ∀ c ∈ canonical_public_artifact_url module_id version, isPathChar c = true ∨ c.val = 58 := by
  have scheme : (text "https://").all (fun c => isPathChar c || c.val == 58) = true := by
    decide
  rw [canonical_eq]
  intro c mem
  rcases List.mem_append.mp mem with front | path
  · rcases List.mem_append.mp front with first | host
    · simpa using List.all_eq_true.mp scheme c first
    · have range := isHostChar_iff.mp (host_chars c host)
      rw [isPathChar_iff]
      omega
  · exact .inl (registryPath_chars id semver c path)

theorem canonical_visible {module_id version : Text} (id : IsId module_id)
    (semver : IsSemver version) :
    ∀ c ∈ canonical_public_artifact_url module_id version, 32 < c.val := by
  intro c mem
  have range := canonical_chars id semver c mem
  rw [isPathChar_iff] at range
  omega

theorem slash_of_registryPath (module_id version : Text) : ∃ rest,
    registryPath module_id version = .ofChar '/' :: rest :=
  ⟨text "modules/" ++ module_id ++ text "/" ++ version ++ text "/" ++ artifactName module_id version,
    by simp [registryPath, text]⟩

theorem canonical_authority (module_id version : Text) :
    (CANONICAL_REGISTRY_HOST ++ registryPath module_id version).takeWhile (· != .ofChar '/') =
        CANONICAL_REGISTRY_HOST ∧
      (CANONICAL_REGISTRY_HOST ++ registryPath module_id version).dropWhile (· != .ofChar '/') =
        registryPath module_id version := by
  have host : ∀ c ∈ CANONICAL_REGISTRY_HOST, (c != .ofChar '/') = true := fun c mem =>
    bne_iff_ne.mpr (ne_of_hostChar (host_chars c mem) '/' (by decide))
  obtain ⟨rest, path⟩ := slash_of_registryPath module_id version
  rw [path, List.takeWhile_append_of_pos host, List.dropWhile_append_of_pos host,
    List.takeWhile_cons_of_neg (by simp), List.dropWhile_cons_of_neg (by simp), List.append_nil]
  exact ⟨rfl, rfl⟩

/-- How the canonical URL is split. -/
theorem urlsplit_canonical {module_id version : Text} (id : IsId module_id)
    (semver : IsSemver version) :
    urlsplit lib (canonical_public_artifact_url module_id version) =
      some ⟨text "https", CANONICAL_REGISTRY_HOST, registryPath module_id version, [], []⟩ := by
  have chars := registryPath_chars id semver
  have noQuery := absent_of_pathChars chars '?' (by decide)
  have noFragment := absent_of_pathChars chars '#' (by decide)
  have within : .ofChar '?' ∉ CANONICAL_REGISTRY_HOST ++ registryPath module_id version ∧
      .ofChar '#' ∉ CANONICAL_REGISTRY_HOST ++ registryPath module_id version := by
    simp only [List.mem_append, not_or]
    exact ⟨⟨absent_of_hostChars host_chars '?' (by decide), noQuery⟩,
      absent_of_hostChars host_chars '#' (by decide), noFragment⟩
  obtain ⟨authority, below⟩ := canonical_authority module_id version
  have brackets : CANONICAL_REGISTRY_HOST.contains (.ofChar '[') = false ∧
      CANONICAL_REGISTRY_HOST.contains (.ofChar ']') = false := by decide
  have ascii : CANONICAL_REGISTRY_HOST.all CodePoint.isAscii = true := by decide
  have normal : netlocNormal lib CANONICAL_REGISTRY_HOST = true := by
    simp only [netlocNormal, ascii, Bool.true_or]
  simp only [urlsplit, cleanUrl_visible (canonical_visible id semver)]
  rw [canonical_eq, List.append_assoc]
  simp only [splitScheme_https, splitNetloc_plain within.1 within.2, authority, below, brackets.1,
    brackets.2, Text.partition_absent noFragment, Text.partition_absent noQuery, normal]
  rfl

theorem httpsUrl_canonical {module_id version : Text} (id : IsId module_id)
    (semver : IsSemver version) :
    HttpsUrl lib (canonical_public_artifact_url module_id version)
      ⟨text "https", CANONICAL_REGISTRY_HOST, registryPath module_id version, [], []⟩ := by
  set parsed : SplitResult :=
    ⟨text "https", CANONICAL_REGISTRY_HOST, registryPath module_id version, [], []⟩ with parsed_def
  have nonempty : CANONICAL_REGISTRY_HOST ≠ [] := by decide
  have hostname : parsed.hostname lib = some CANONICAL_REGISTRY_HOST :=
    @hostname_plain lib parsed host_chars nonempty
  have info : parsed.hostinfo = (CANONICAL_REGISTRY_HOST, []) :=
    @hostinfo_plain parsed host_chars
  have user : Text.rpartition (.ofChar '@') parsed.netloc = (none, parsed.netloc) :=
    Text.rpartition_absent (absent_of_hostChars host_chars '@' (by decide))
  refine ⟨by simp [canonical_eq, text], urlsplit_canonical id semver, ?_⟩
  have characters : ∀ c ∈ canonical_public_artifact_url module_id version,
      c ≠ .ofChar '\\' ∧ (c.isSpace = false ∧ 32 ≤ c.val) := by
    intro c mem
    have range := canonical_chars id semver c mem
    have backslash : '\\'.toNat = 92 := rfl
    rw [isPathChar_iff] at range
    have printed : c.isSpace = false := by
      rw [← Bool.not_eq_true]
      simp only [CodePoint.isSpace, Bool.or_eq_true, Bool.and_eq_true, decide_eq_true_eq,
        beq_iff_eq]
      omega
    rw [Ne, CodePoint.eq_ofChar_iff, backslash]
    exact ⟨by omega, printed, by omega⟩
  have backslash : (canonical_public_artifact_url module_id version).contains (.ofChar '\\') =
      false := by
    rw [Bool.eq_false_iff, Ne, List.contains_iff_mem]
    exact fun mem => (characters _ mem).1 rfl
  have printed : (canonical_public_artifact_url module_id version).all
      (fun c => !c.isSpace && decide (32 ≤ c.val)) = true :=
    List.all_eq_true.mpr fun c mem => by simp [(characters c mem).2.1, (characters c mem).2.2]
  have port : parsed.invalid_port = false := by
    simp only [SplitResult.invalid_port, info]
    rfl
  rw [httpsAllowed, backslash, hostname, port]
  simp only [SplitResult.username, SplitResult.password, user, Option.map_none, Option.bind_none,
    Option.any_some, printed, List.isEmpty_eq_false_iff.mpr nonempty]
  rfl

theorem no_slash_of_id {id : Text} (h : IsId id) : .ofChar '/' ∉ id := by
  intro mem
  rcases id_chars h.2 _ mem with lower | digit | dash
  · exact absurd lower (by decide)
  · exact absurd digit (by decide)
  · exact absurd dash (by decide)

theorem no_slash_of_semver {version : Text} (h : IsSemver version) : .ofChar '/' ∉ version := by
  intro mem
  rcases semver_chars h _ mem with inside | dot | plus
  · exact absurd inside (by decide)
  · exact absurd dot (by decide)
  · exact absurd plus (by decide)

theorem no_slash_of_artifactName {module_id version : Text} (id : IsId module_id)
    (semver : IsSemver version) : .ofChar '/' ∉ artifactName module_id version := by
  simp only [artifactName, List.mem_append, not_or]
  exact ⟨⟨⟨no_slash_of_id id, by decide⟩, no_slash_of_semver semver⟩, by decide⟩

theorem splitOn_registryPath {module_id version : Text} (id : IsId module_id)
    (semver : IsSemver version) : Text.splitOn (.ofChar '/') (registryPath module_id version) =
      [[], text "modules", module_id, version, artifactName module_id version] := by
  have shape : registryPath module_id version = .ofChar '/' :: (text "modules" ++ .ofChar '/' ::
      (module_id ++ .ofChar '/' :: (version ++ .ofChar '/' :: artifactName module_id version))) := by
    simp [registryPath, text]
  rw [shape, Text.splitOn, if_pos rfl, Text.splitOn_append (by decide),
    Text.splitOn_append (no_slash_of_id id), Text.splitOn_append (no_slash_of_semver semver),
    Text.splitOn_of_absent (no_slash_of_artifactName id semver)]

/-- The canonical path is no path of a GitHub release. -/
theorem githubRelease_registryPath {module_id version : Text} (id : IsId module_id)
    (semver : IsSemver version) : githubRelease (registryPath module_id version) = none := by
  rw [githubRelease, splitOn_registryPath id semver]

/-- Different versions have different paths. -/
theorem registryPath_injective {module_id version module_id' version' : Text}
    (id : IsId module_id) (semver : IsSemver version) (id' : IsId module_id')
    (semver' : IsSemver version')
    (same : registryPath module_id version = registryPath module_id' version') :
    module_id = module_id' ∧ version = version' := by
  have pieces := congrArg (Text.splitOn (.ofChar '/')) same
  rw [splitOn_registryPath id semver, splitOn_registryPath id' semver'] at pieces
  simp only [List.cons.injEq] at pieces
  exact ⟨pieces.2.2.1, pieces.2.2.2.1⟩

theorem unquote_plain {t : Text} (unescaped : .ofChar '%' ∉ t) : unquote t = t := by
  rw [unquote, if_neg (by simpa using unescaped)]

theorem canonical_accepted {module_id version : Text} (id : IsId module_id)
    (semver : IsSemver version) (classification : Classification) :
    AcceptsArtifactUrl lib classification module_id version
      (canonical_public_artifact_url module_id version) := by
  have passed := (@https_url_ok lib _ [] _ _).mpr ⟨rfl, httpsUrl_canonical id semver⟩
  have decoded := unquote_plain (absent_of_pathChars (registryPath_chars id semver) '%' (by decide))
  have ending : Text.endsWith (text ".ocp") (registryPath module_id version) = true := by
    rw [Text.endsWith, List.isSuffixOf_iff_suffix]
    exact ⟨text "/modules/" ++ module_id ++ text "/" ++ version ++ text "/" ++ (module_id ++
      text "-" ++ version), by simp [registryPath, artifactName]⟩
  have nonempty : CANONICAL_REGISTRY_HOST ≠ [] := by decide
  have hostname := @hostname_plain lib
    ⟨text "https", CANONICAL_REGISTRY_HOST, registryPath module_id version, [], []⟩ host_chars nonempty
  simp only [AcceptsArtifactUrl, validate_artifact_url, passed, ok_bind, decoded, ending,
    githubRelease_registryPath id semver, hostname]
  simp

/-! ## Accepted URLs -/

/-- The URL names the registry's host. -/
def OnRegistryHost (lib : Library) (url : Text) : Prop :=
  ∃ parsed, urlsplit lib url = some parsed ∧ parsed.hostname lib = some CANONICAL_REGISTRY_HOST

/-- What an accepted URL on the registry's host has been compared with. -/
theorem accepted_hosted {classification : Classification} {module_id version url : Text}
    (accepted : AcceptsArtifactUrl lib classification module_id version url)
    (hosted : OnRegistryHost lib url) :
    ∃ parsed, urlsplit lib url = some parsed ∧ httpsAllowed lib url parsed = true ∧
      parsed.hostname lib = some CANONICAL_REGISTRY_HOST ∧
      unquote parsed.path = registryPath module_id version := by
  obtain ⟨parsed, split, host⟩ := hosted
  obtain ⟨⟨_, parsed'⟩, passed, rest⟩ := bind_ok.mp accepted
  obtain ⟨same, -, split', allowed⟩ := https_url_ok.mp passed
  obtain rfl := Json.str.inj same
  obtain rfl := Option.some.inj (split.symm.trans split')
  have other : CANONICAL_REGISTRY_HOST ≠ text "github.com" := by decide
  refine ⟨parsed, split, allowed, host, ?_⟩
  simp only [host, Option.some.injEq, other, false_and, true_and, not_false_eq_true, and_true,
    guard_ok invalid_ok] at rest
  exact not_not.mp rest.2.2.1

theorem canonical_plain {module_id version : Text} (id : IsId module_id)
    (semver : IsSemver version) :
    PlainlyWritten (canonical_public_artifact_url module_id version) := by
  have absent (d : Char) (other : isPathChar (.ofChar d) = false) (colon : d.toNat ≠ 58) :
      .ofChar d ∉ canonical_public_artifact_url module_id version := by
    intro mem
    rcases canonical_chars id semver _ mem with inside | same
    · rw [other] at inside
      cases inside
    · rw [CodePoint.val_ofChar] at same
      exact colon same
  refine ⟨?_, ?_, absent '%' (by decide) (by decide), absent '?' (by decide) (by decide),
    absent '#' (by decide) (by decide)⟩
  · rw [canonical_eq, List.append_assoc]
    exact List.isPrefixOf_iff_prefix.mpr (List.prefix_append _ _)
  · have host : (canonical_public_artifact_url module_id version).drop 8 =
        CANONICAL_REGISTRY_HOST ++ registryPath module_id version := by
      rw [canonical_eq, List.append_assoc]
      rfl
    rw [host, (canonical_authority module_id version).1]
    exact host_chars

theorem canonical_of_plain {classification : Classification} {module_id version url : Text}
    (accepted : AcceptsArtifactUrl lib classification module_id version url)
    (hosted : OnRegistryHost lib url) (plain : PlainlyWritten url) :
    url = canonical_public_artifact_url module_id version := by
  obtain ⟨parsed, split, allowed, host, path⟩ := accepted_hosted accepted hosted
  obtain ⟨written, chars, unescaped⟩ := urlsplit_plain plain (visible_of_allowed allowed) split
  have nonempty : parsed.netloc ≠ [] := by
    intro empty
    have info := hostinfo_plain chars
    rw [SplitResult.hostname, info, empty] at host
    cases host
  rw [hostname_plain chars nonempty] at host
  rw [unquote_plain unescaped] at path
  rw [written, Option.some.inj host, path, canonical_eq]

/-- The canonical URL is accepted, an accepted URL of the registry's host is the canonical one
just if it is written plainly, and no two versions share one. -/
theorem hosted_urls_exact (lib : Library) (module_id version : Text) (id : IsId module_id)
    (semver : IsSemver version) :
    (∀ classification, AcceptsArtifactUrl lib classification module_id version
      (canonical_public_artifact_url module_id version)) ∧
    (∀ classification url, OnRegistryHost lib url →
      AcceptsArtifactUrl lib classification module_id version url →
        (url = canonical_public_artifact_url module_id version ↔ PlainlyWritten url)) ∧
    ∀ module_id' version' classification classification' url, IsId module_id' →
      IsSemver version' → OnRegistryHost lib url →
      AcceptsArtifactUrl lib classification module_id version url →
      AcceptsArtifactUrl lib classification' module_id' version' url →
        module_id = module_id' ∧ version = version' := by
  refine ⟨canonical_accepted id semver, ?_, ?_⟩
  · intro classification url hosted accepted
    constructor
    · rintro rfl
      exact canonical_plain id semver
    · exact canonical_of_plain accepted hosted
  · intro module_id' version' classification classification' url id' semver' hosted accepted
      accepted'
    obtain ⟨parsed, split, -, -, path⟩ := accepted_hosted accepted hosted
    obtain ⟨parsed', split', -, -, path'⟩ := accepted_hosted accepted' hosted
    obtain rfl := Option.some.inj (split.symm.trans split')
    exact registryPath_injective id semver id' semver' (path.symm.trans path')

theorem hosted_urls_exact_roads :
    IsId (text "roads") ∧ IsSemver (text "1.0.0") ∧
      AcceptsArtifactUrl plainLibrary .firstParty (text "roads") (text "1.0.0")
        (canonical_public_artifact_url (text "roads") (text "1.0.0")) := by
  have id : IsId (text "roads") := by
    unfold IsId
    decide
  have semver : IsSemver (text "1.0.0") := by
    unfold IsSemver
    decide
  exact ⟨id, semver,
    (hosted_urls_exact plainLibrary (text "roads") (text "1.0.0") id semver).1 .firstParty⟩

/-- The canonical URL with one escaped letter -/
def escapedUrl : Text :=
  text "https://" ++ CANONICAL_REGISTRY_HOST ++ text "/%6dodules/roads/1.0.0/roads-1.0.0.ocp"

theorem escaped_url_accepted :
    IsId (text "roads") ∧ IsSemver (text "1.0.0") ∧ OnRegistryHost plainLibrary escapedUrl ∧
      AcceptsArtifactUrl plainLibrary .reviewedCommunity (text "roads") (text "1.0.0")
        escapedUrl ∧
      escapedUrl ≠ canonical_public_artifact_url (text "roads") (text "1.0.0") := by
  refine ⟨?_, ?_, ?_, ?_, by decide⟩
  · unfold IsId
    decide
  · unfold IsSemver
    decide
  · have host : ((urlsplit plainLibrary escapedUrl).bind (·.hostname plainLibrary)) =
        some CANONICAL_REGISTRY_HOST := by decide
    exact Option.bind_eq_some_iff.mp host
  · unfold AcceptsArtifactUrl
    decide

end PackageRegistry
