import Mathlib.Order.WithBot
import Mathlib.Data.Prod.Lex
import Mathlib.Data.Sum.Order
import Mathlib.Data.List.Lex
import Mathlib.Order.Fin.Basic
import PackageRegistry.Lib.Text

/-! # Identifiers, versions and digests of the registry

The patterns of `scripts/registry.py` as predicates on whole strings (the code
only uses `fullmatch`), the capturing groups of `SEMVER_RE` as a structure, and
`semver_key` with the order Python gives its tuples. Numbers may have any length.
-/

namespace PackageRegistry

def CANONICAL_REGISTRY_HOST : Text := text "packages.stadtplaner.oklabflensburg.de"

/-- `<id>-<version>.ocp` -/
def artifactName (module_id version : Text) : Text :=
  module_id ++ text "-" ++ version ++ text ".ocp"

/-- `MODULE_ID_RE`: kebab-case groups, the first of which starts with a letter. -/
def MODULE_ID_RE (t : Text) : Bool :=
  (Text.splitOn (.ofChar '-') t).all (fun part =>
      !part.isEmpty && part.all fun c => c.isLower || c.isDigit) &&
    (t.head?.any CodePoint.isLower)

/-- `SHA256_RE` -/
def SHA256_RE (t : Text) : Bool :=
  t.length == 64 && t.all CodePoint.isHexLower

/-- `COMMIT_RE` -/
def COMMIT_RE (t : Text) : Bool :=
  (t.length == 40 || t.length == 64) && t.all CodePoint.isHexLower

/-- `0|[1-9][0-9]*` -/
def isNumericIdentifier (t : Text) : Bool :=
  !t.isEmpty && t.all CodePoint.isDigit && (t.head? != some (.ofChar '0') || t.length == 1)

/-- `0|[1-9][0-9]*|[0-9]*[A-Za-z-][0-9A-Za-z-]*` -/
def isPrereleaseIdentifier (t : Text) : Bool :=
  isNumericIdentifier t ||
    (t.all CodePoint.isIdentifierChar && t.any fun c => !c.isDigit)

/-- `[0-9A-Za-z-]+` -/
def isBuildIdentifier (t : Text) : Bool :=
  !t.isEmpty && t.all CodePoint.isIdentifierChar

/-- The groups of a match of `SEMVER_RE`: the three numbers, the prerelease and
    the build metadata. -/
structure SemverMatch where
  major : Text
  minor : Text
  patch : Text
  prerelease : Option Text
  build : Option Text
  deriving DecidableEq

/-- `SEMVER_RE.fullmatch`. The core holds neither `-` nor `+` and the prerelease
    no `+`, so the first of each ends the group before it. -/
def SEMVER_RE (t : Text) : Option SemverMatch :=
  let (front, build) := Text.partition (.ofChar '+') t
  let (core, prerelease) := Text.partition (.ofChar '-') front
  match Text.splitOn (.ofChar '.') core with
  | [major, minor, patch] =>
      if isNumericIdentifier major && isNumericIdentifier minor && isNumericIdentifier patch &&
          prerelease.all (fun p => (Text.splitOn (.ofChar '.') p).all isPrereleaseIdentifier) &&
          build.all (fun b => (Text.splitOn (.ofChar '.') b).all isBuildIdentifier) then
        some { major, minor, patch, prerelease, build }
      else none
  | _ => none

/-- The tuples of `semver_key`: `(1,)` is the top of `WithTop`, `(0, identifiers)`
    lies below it, and an identifier `(0, int)` below every `(1, str)`. -/
abbrev SemverKey :=
  Nat ×ₗ Nat ×ₗ Nat ×ₗ WithTop (List (Nat ⊕ₗ Text))

def prereleaseIdentifier (part : Text) : Nat ⊕ₗ Text :=
  if part.all CodePoint.isDigit then Sum.inlₗ (Text.toNat part) else Sum.inrₗ part

def SemverMatch.key (m : SemverMatch) : SemverKey :=
  toLex (Text.toNat m.major, toLex (Text.toNat m.minor, toLex (Text.toNat m.patch,
    match m.prerelease with
    | none => ⊤
    | some p => ((Text.splitOn (.ofChar '.') p).map prereleaseIdentifier : List (Nat ⊕ₗ Text)))))

/-- `semver_key`, with nothing where the code raises -/
def semver_key (version : Text) : Option SemverKey :=
  (SEMVER_RE version).map SemverMatch.key

example : (do some (decide ((← semver_key (text "1.0.0-rc.2")) < (← semver_key (text "1.0.0-rc.10"))))) =
    some true := by decide

example : (do some (decide ((← semver_key (text "1.0.0-rc.1")) < (← semver_key (text "1.0.0+build.7"))))) =
    some true := by decide

/-- A module id holds only small letters, digits and hyphens. -/
theorem id_chars {id : Text} (h : MODULE_ID_RE id = true) :
    ∀ c ∈ id, c.isLower = true ∨ c.isDigit = true ∨ c = .ofChar '-' := by
  have groups := List.all_eq_true.mp (Bool.and_eq_true_iff.mp h).1
  intro c mem
  rcases Text.mem_of_splitOn (.ofChar '-') mem with hyphen | ⟨piece, among, inside⟩
  · exact .inr (.inr hyphen)
  · have each := List.all_eq_true.mp (Bool.and_eq_true_iff.mp (groups piece among)).2 c inside
    rcases Bool.or_eq_true_iff.mp each with lower | digit
    · exact .inl lower
    · exact .inr (.inl digit)

end PackageRegistry
