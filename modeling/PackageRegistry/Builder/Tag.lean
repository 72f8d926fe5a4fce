import PackageRegistry.Registry.Precedence

/-! # Release tags

The tag expression of `scripts/ocp_builder.py`, the artifact expression of
`scripts/registry_candidate.py`, and what a tag must be for its version to pass all three
expressions that a version meets.
-/

namespace PackageRegistry.Builder

/-- The prerelease of a version, split at its dots -/
def prereleaseParts (version : Text) : List Text :=
  match (Text.partition (.ofChar '-') (Text.partition (.ofChar '+') version).1).2 with
  | some prerelease => Text.splitOn (.ofChar '.') prerelease
  | none => []

/-- The build metadata of a version, split at its dots -/
def buildParts (version : Text) : List Text :=
  match (Text.partition (.ofChar '+') version).2 with
  | some build => Text.splitOn (.ofChar '.') build
  | none => []

/-- The core of a version, split at its dots -/
def coreParts (version : Text) : List Text :=
  Text.splitOn (.ofChar '.')
    (Text.partition (.ofChar '-') (Text.partition (.ofChar '+') version).1).1

/-- `TAG_RE.fullmatch`. Its identifiers are those of build metadata also in the prerelease. -/
def TAG_RE : Text → Bool
  | [] => false
  | v :: version =>
      v == .ofChar 'v' && (coreParts version).length == 3 &&
        (coreParts version).all isNumericIdentifier &&
        (prereleaseParts version).all isBuildIdentifier &&
        (buildParts version).all isBuildIdentifier

/-- `COMMIT_RE` of the builder -/
def COMMIT_RE (t : Text) : Bool :=
  t.length == 40 && t.all CodePoint.isHexLower

/-- The members of `[a-z0-9.-]` -/
def isArtifactChar (c : CodePoint) : Bool :=
  c.isLower || c.isDigit || c == .ofChar '.' || c == .ofChar '-'

/-- `github-actions://run/[0-9]+/[a-z0-9.-]+` -/
def ARTIFACT_RE (t : Text) : Bool :=
  Text.startsWith (text "github-actions://run/") t &&
    match Text.partition (.ofChar '/') (t.drop 21) with
    | (run_id, some name) =>
        !run_id.isEmpty && run_id.all CodePoint.isDigit && !name.isEmpty && name.all isArtifactChar
    | (_, none) => false

/-- The digits of an identifier do not begin with a zero. -/
def noLeadingZero (part : Text) : Bool :=
  !part.all CodePoint.isDigit || part.head? != some (.ofChar '0') || part.length == 1

/-- A tag without upper case letters, build metadata and leading zeros in its prerelease -/
structure Portable (tag : Text) : Prop where
  lowercase : ∀ c ∈ tag, c.isUpper = false
  no_build : .ofChar '+' ∉ tag
  no_zeros : ∀ part ∈ prereleaseParts tag.tail, noLeadingZero part = true

/-! ## The registry's expression -/

theorem all_prereleaseParts (version : Text) (check : Text → Bool) :
    (Text.partition (.ofChar '-') (Text.partition (.ofChar '+') version).1).2.all
      (fun p => (Text.splitOn (.ofChar '.') p).all check) = (prereleaseParts version).all check := by
  rw [prereleaseParts]
  cases (Text.partition (.ofChar '-') (Text.partition (.ofChar '+') version).1).2 <;> rfl

theorem all_buildParts (version : Text) (check : Text → Bool) :
    (Text.partition (.ofChar '+') version).2.all
      (fun b => (Text.splitOn (.ofChar '.') b).all check) = (buildParts version).all check := by
  rw [buildParts]
  cases (Text.partition (.ofChar '+') version).2 <;> rfl

theorem semver_re_parts (version : Text) :
    (SEMVER_RE version).isSome =
      ((coreParts version).length == 3 && (coreParts version).all isNumericIdentifier &&
        (prereleaseParts version).all isPrereleaseIdentifier &&
        (buildParts version).all isBuildIdentifier) := by
  have core : Text.splitOn (.ofChar '.')
      (Text.partition (.ofChar '-') (Text.partition (.ofChar '+') version).1).1 =
    coreParts version := rfl
  simp only [SEMVER_RE, all_prereleaseParts, all_buildParts, core]
  split
  · rename_i major minor patch pieces
    rw [pieces, Bool.eq_iff_iff, apply_ite Option.isSome]
    simp [and_assoc]
  · rename_i other
    have short : ((coreParts version).length == 3) = false := by
      rw [beq_eq_false_iff_ne]
      intro three
      obtain ⟨major, minor, patch, pieces⟩ := List.length_eq_three.mp three
      exact other major minor patch pieces
    simp [short]

/-- An identifier of build metadata is one of the prerelease unless it is a number with a
    leading zero. -/
theorem prerelease_of_build {part : Text} (h : isBuildIdentifier part = true) :
    isPrereleaseIdentifier part = noLeadingZero part := by
  simp only [isBuildIdentifier, Bool.and_eq_true] at h
  rw [isPrereleaseIdentifier, isNumericIdentifier, noLeadingZero, h.1, h.2, ← List.not_all_eq_any_not]
  cases part.all CodePoint.isDigit <;> simp

/-! ## Versions of tags -/

theorem tag_parts {v : CodePoint} {version : Text} (h : TAG_RE (v :: version) = true) :
    v = .ofChar 'v' ∧ (coreParts version).length = 3 ∧
      (∀ part ∈ coreParts version, isNumericIdentifier part = true) ∧
      (∀ part ∈ prereleaseParts version, isBuildIdentifier part = true) ∧
      ∀ part ∈ buildParts version, isBuildIdentifier part = true := by
  simpa [TAG_RE, and_assoc] using h

/-- The version of a tag is one of the registry unless its prerelease has leading zeros. -/
theorem semver_of_tag {tag : Text} (h : TAG_RE tag = true) :
    (SEMVER_RE tag.tail).isSome = true ↔
      ∀ part ∈ prereleaseParts tag.tail, noLeadingZero part = true := by
  cases tag with
  | nil => cases h
  | cons v version =>
      obtain ⟨-, three, core, prerelease, build⟩ := tag_parts h
      have numbers : (coreParts version).all isNumericIdentifier = true := List.all_eq_true.mpr core
      have metadata : (buildParts version).all isBuildIdentifier = true :=
        List.all_eq_true.mpr build
      rw [List.tail_cons, semver_re_parts, three, numbers, metadata]
      simp only [beq_self_eq_true, Bool.true_and, Bool.and_true, List.all_eq_true]
      refine forall₂_congr fun part mem => ?_
      rw [prerelease_of_build (prerelease part mem)]

/-- The characters of a version are those of identifiers and the separators. -/
theorem chars_of_parts {version : Text}
    (core : ∀ part ∈ coreParts version, ∀ c ∈ part, c.isIdentifierChar = true)
    (prerelease : ∀ part ∈ prereleaseParts version, ∀ c ∈ part, c.isIdentifierChar = true)
    (build : ∀ part ∈ buildParts version, ∀ c ∈ part, c.isIdentifierChar = true) :
    ∀ c ∈ version, c.isIdentifierChar = true ∨ c = .ofChar '.' ∨ c = .ofChar '+' := by
  have pieces {t : Text} (h : ∀ part ∈ Text.splitOn (.ofChar '.') t, ∀ c ∈ part,
      c.isIdentifierChar = true) (c : CodePoint) (mem : c ∈ t) :
      c.isIdentifierChar = true ∨ c = .ofChar '.' ∨ c = .ofChar '+' := by
    rcases Text.mem_of_splitOn (.ofChar '.') mem with dot | ⟨part, inParts, inside⟩
    · exact .inr (.inl dot)
    · exact .inl (h part inParts c inside)
  intro c mem
  rw [@Text.partition_eq (.ofChar '+') version, List.mem_append] at mem
  rcases mem with front | back
  · rw [@Text.partition_eq (.ofChar '-') (Text.partition (.ofChar '+') version).1,
      List.mem_append] at front
    rcases front with inCore | after
    · exact pieces core c inCore
    · cases dash : (Text.partition (.ofChar '-') (Text.partition (.ofChar '+') version).1).2 with
      | none => simp [dash] at after
      | some p =>
          rw [prereleaseParts, dash] at prerelease
          rw [dash] at after
          rcases List.mem_cons.mp after with rfl | inside
          · exact .inl (by decide)
          · exact pieces prerelease c inside
  · cases plus : (Text.partition (.ofChar '+') version).2 with
    | none => simp [plus] at back
    | some b =>
        rw [buildParts, plus] at build
        rw [plus] at back
        rcases List.mem_cons.mp back with rfl | inside
        · exact .inr (.inr rfl)
        · exact pieces build c inside

theorem identifier_of_digit {c : CodePoint} (h : c.isDigit = true) : c.isIdentifierChar = true := by
  simp [CodePoint.isIdentifierChar, h]

theorem tag_chars {tag : Text} (h : TAG_RE tag = true) :
    ∀ c ∈ tag.tail, c.isIdentifierChar = true ∨ c = .ofChar '.' ∨ c = .ofChar '+' := by
  cases tag with
  | nil => cases h
  | cons v version =>
      obtain ⟨-, -, core, prerelease, build⟩ := tag_parts h
      have identifier {part : Text} (h : isBuildIdentifier part = true) :
          ∀ c ∈ part, c.isIdentifierChar = true := by
        simp only [isBuildIdentifier, Bool.and_eq_true, List.all_eq_true] at h
        exact h.2
      refine chars_of_parts (fun part mem c inside => ?_) (fun part mem => identifier (prerelease part mem))
        fun part mem => identifier (build part mem)
      have number := core part mem
      simp only [isNumericIdentifier, Bool.and_eq_true, List.all_eq_true] at number
      exact identifier_of_digit (number.1.2 c inside)

theorem artifact_char_iff {c : CodePoint}
    (h : c.isIdentifierChar = true ∨ c = .ofChar '.' ∨ c = .ofChar '+') :
    isArtifactChar c = true ↔ c.isUpper = false ∧ c ≠ .ofChar '+' := by
  have dot : '.'.toNat = 46 := rfl
  have dash : '-'.toNat = 45 := rfl
  have plus : '+'.toNat = 43 := rfl
  simp only [isArtifactChar, CodePoint.isIdentifierChar, ← Bool.not_eq_true, Bool.or_eq_true,
    beq_iff_eq, CodePoint.isLower_iff, CodePoint.isUpper_iff, CodePoint.isDigit_iff,
    CodePoint.eq_ofChar_iff, ne_eq, dot, dash, plus] at h ⊢
  omega

/-- A reference to the artifact of a run, whatever its name -/
theorem artifact_re_run {run_id name : Text} (numeric : run_id ≠ [])
    (digits : ∀ c ∈ run_id, c.isDigit = true) (named : name ≠ []) :
    ARTIFACT_RE (text "github-actions://run/" ++ run_id ++ text "/" ++ name) = true ↔
      ∀ c ∈ name, isArtifactChar c = true := by
  have slash : CodePoint.ofChar '/' ∉ run_id := fun mem => absurd (digits _ mem) (by decide)
  have shape : text "github-actions://run/" ++ run_id ++ text "/" ++ name =
      text "github-actions://run/" ++ (run_id ++ .ofChar '/' :: name) := by
    simp [text]
  have starts : Text.startsWith (text "github-actions://run/")
      (text "github-actions://run/" ++ (run_id ++ .ofChar '/' :: name)) = true :=
    List.isPrefixOf_iff_prefix.mpr (List.prefix_append _ _)
  have rest : (text "github-actions://run/" ++ (run_id ++ .ofChar '/' :: name)).drop 21 =
      run_id ++ .ofChar '/' :: name := List.drop_left' (by decide)
  have all : run_id.all CodePoint.isDigit = true := List.all_eq_true.mpr digits
  rw [shape, ARTIFACT_RE, starts, rest, Text.partition_append _ slash]
  simp [List.isEmpty_eq_false_iff.mpr numeric, List.isEmpty_eq_false_iff.mpr named, all]

end PackageRegistry.Builder
