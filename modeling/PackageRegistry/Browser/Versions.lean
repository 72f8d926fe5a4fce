import Mathlib.Order.Compare
import PackageRegistry.Lib.Double
import PackageRegistry.Registry.Precedence
import PackageRegistry.Registry.Ranges

/-! # How the frontend orders versions

`compareVersions` of `app/lib/api.ts` beside `semver_key`. A number of a version becomes the
nearest double, and identifiers with letters are compared by the collation of the language.
-/

namespace PackageRegistry.Browser

/-- The sign of a comparison -/
def sign {α : Type} [LinearOrder α] (a b : α) : Ordering := cmp a b

theorem sign_self {α : Type} [LinearOrder α] (a : α) : sign a a = .eq := cmp_self_eq_eq a

theorem sign_lt {α : Type} [LinearOrder α] {a b : α} : sign a b = .lt ↔ a < b := cmp_eq_lt_iff a b

theorem sign_gt {α : Type} [LinearOrder α] {a b : α} : sign a b = .gt ↔ b < a := cmp_eq_gt_iff a b

theorem sign_eq {α : Type} [LinearOrder α] {a b : α} : sign a b = .eq ↔ a = b := cmp_eq_eq_iff a b

/-- Two comparisons have the same sign if they go the same way in both directions. -/
theorem sign_congr {α β : Type} [LinearOrder α] [LinearOrder β] {a a' : α} {b b' : β}
    (less : a < a' ↔ b < b') (greater : a' < a ↔ b' < b) : sign a a' = sign b b' := by
  rcases lt_trichotomy a a' with h | h | h
  · rw [sign_lt.mpr h, sign_lt.mpr (less.mp h)]
  · have same : b = b' := by
      refine le_antisymm (not_lt.mp fun above => ?_) (not_lt.mp fun below => ?_)
      · exact absurd (greater.mpr above) (by rw [h]; exact lt_irrefl a')
      · exact absurd (less.mpr below) (by rw [h]; exact lt_irrefl a')
    rw [sign_eq.mpr h, sign_eq.mpr same]
  · rw [sign_gt.mpr h, sign_gt.mpr (greater.mp h)]

/-! ## Numbers of the language -/

/-- The number nearest to `n` with 53 significant bits, ties to even -/
def nearest (n : Nat) : Nat :=
  let unit := 2 ^ (Nat.log 2 n - 52)
  Double.roundHalfEven n unit * unit

/-- `Number` of a text of digits; the top is `Infinity`. -/
def Number (digits : Text) : WithTop Nat :=
  let value := nearest (Text.toNat digits)
  if 2 ^ 1024 ≤ value then ⊤ else .some value

/-- The sign of `x - y`, with nothing for `NaN` -/
def difference (x y : WithTop Nat) : Option Ordering :=
  if x = ⊤ ∧ y = ⊤ then none else some (sign x y)

/-! ## `compareVersions` -/

/-- What `.` does not match -/
def isLineTerminator (c : CodePoint) : Bool :=
  c.val == 10 || c.val == 13 || c.val == 0x2028 || c.val == 0x2029

/-- The split at the first hyphen that something follows, and what follows it -/
def splitPrerelease : Text → Text × Option Text
  | [] => ([], none)
  | c :: rest =>
      let captured := rest.takeWhile fun d => !isLineTerminator d
      if c = .ofChar '-' ∧ captured ≠ [] then ([], some captured)
      else
        let (before, after) := splitPrerelease rest
        (c :: before, after)

def splitVersion (version : Text) : Text × Option Text :=
  splitPrerelease (Text.partition (.ofChar '+') version).1

section

variable (localeCompare : Text → Text → Ordering)

/-- `/^\d+$/` -/
def isNumber (identifier : Text) : Bool :=
  !identifier.isEmpty && identifier.all CodePoint.isDigit

/-- The loop over the identifiers: the first two that differ decide. -/
def compareIdentifiers : List Text → List Text → Option Ordering
  | [], [] => some .eq
  | [], _ :: _ => some .lt
  | _ :: _, [] => some .gt
  | x :: xs, y :: ys =>
      if x = y then compareIdentifiers xs ys
      else if isNumber x && isNumber y then difference (Number x) (Number y)
      else if isNumber x != isNumber y then some (if isNumber x then .lt else .gt)
      else some (localeCompare x y)

def comparePrereleases : Option Text → Option Text → Option Ordering
  | some ap, some bp =>
      compareIdentifiers localeCompare (Text.splitOn (.ofChar '.') ap) (Text.splitOn (.ofChar '.') bp)
  | some _, none => some .lt
  | none, some _ => some .gt
  | none, none => some .eq

/-- `coreA[i]! - coreB[i]!`, which is `NaN` where one has no such number -/
def coreDifference (coreA coreB : List (WithTop Nat)) (i : Nat) : Option Ordering := do
  difference (← coreA[i]?) (← coreB[i]?)

/-- The sign of what `compareVersions` returns, with nothing for `NaN` -/
def compareVersions (a b : Option Text) : Option Ordering :=
  match a.filter (· ≠ []), b.filter (· ≠ []) with
  | some a, some b =>
      let (ac, ap) := splitVersion a
      let (bc, bp) := splitVersion b
      let coreA := (Text.splitOn (.ofChar '.') ac).map Number
      let coreB := (Text.splitOn (.ofChar '.') bc).map Number
      -- `NaN` and `0` are both falsy
      match [0, 1, 2].findSome? fun i => (coreDifference coreA coreB i).filter (· ≠ .eq) with
      | some d => some d
      | none => comparePrereleases localeCompare ap bp
  | some _, none => some .gt
  | none, some _ => some .lt
  | none, none => some .eq

end

/-- A text that `SEMVER_RE` accepts -/
abbrev Version := { version : Text // (SEMVER_RE version).isSome = true }

def Version.parts (v : Version) : SemverMatch := (SEMVER_RE v.1).get v.2

/-- The sign of the comparison of the keys -/
def semverCompare (a b : Version) : Ordering := sign a.parts.key b.parts.key

/-! ## When both agree -/

def coreOrder (m n : SemverMatch) : Ordering :=
  (sign (Text.toNat m.major) (Text.toNat n.major)).then
    ((sign (Text.toNat m.minor) (Text.toNat n.minor)).then
      (sign (Text.toNat m.patch) (Text.toNat n.patch)))

/-- The same for the numbers that `Number` makes of them -/
def seenOrder (m n : SemverMatch) : Ordering :=
  (sign (Number m.major) (Number n.major)).then
    ((sign (Number m.minor) (Number n.minor)).then (sign (Number m.patch) (Number n.patch)))

section

variable (localeCompare : Text → Text → Ordering)

/-- The first identifiers that differ are told apart by `Number` if they are numbers, and ordered
    by their code points if both have letters. -/
def AlikeIdentifiers : List Text → List Text → Prop
  | x :: xs, y :: ys =>
      if x = y then AlikeIdentifiers xs ys
      else if isNumber x && isNumber y then Number x ≠ Number y
      else isNumber x ≠ isNumber y ∨ localeCompare x y = sign x y
  | _, _ => True

def AlikePrereleases : Option Text → Option Text → Prop
  | some p, some q =>
      AlikeIdentifiers localeCompare (Text.splitOn (.ofChar '.') p) (Text.splitOn (.ofChar '.') q)
  | _, _ => True

/-- Numbers of the core that differ are ordered by the first that `Number` tells apart or, if it
    tells none apart, happen to be ordered as the prereleases are. Between versions with the same
    numbers the prereleases decide. -/
def Alike (m n : SemverMatch) : Prop :=
  if coreOrder m n = .eq then AlikePrereleases localeCompare m.prerelease n.prerelease
  else if seenOrder m n = .eq then
    comparePrereleases localeCompare m.prerelease n.prerelease = some (coreOrder m n)
  else seenOrder m n = coreOrder m n

end

/-! ## Rounding -/

theorem roundHalfEven_mono {n m : Nat} (le : n ≤ m) (d : Nat) :
    Double.roundHalfEven n d ≤ Double.roundHalfEven m d := by
  have quotients : n / d ≤ m / d := Nat.div_le_div_right le
  have left := Nat.div_add_mod n d
  have right := Nat.div_add_mod m d
  unfold Double.roundHalfEven
  rcases quotients.lt_or_eq with less | same
  · dsimp only
    split <;> split <;> omega
  · rw [same] at left
    dsimp only
    rw [same]
    split <;> split <;> omega

theorem roundHalfEven_mul (m d : Nat) (pos : 0 < d) : Double.roundHalfEven (m * d) d = m := by
  simp [Double.roundHalfEven, Nat.mul_div_cancel _ pos, pos]

/-- Rounding keeps a number between the powers of two around it. -/
theorem nearest_bounds {n : Nat} (ne : n ≠ 0) :
    2 ^ Nat.log 2 n ≤ nearest n ∧ nearest n ≤ 2 ^ (Nat.log 2 n + 1) := by
  have pos : 0 < 2 ^ (Nat.log 2 n - 52) := Nat.two_pow_pos _
  have exact_ {k : Nat} (above : Nat.log 2 n - 52 ≤ k) :
      2 ^ (k - (Nat.log 2 n - 52)) * 2 ^ (Nat.log 2 n - 52) = 2 ^ k := by
    rw [← Nat.pow_add, Nat.sub_add_cancel above]
  constructor
  · have low := Nat.pow_log_le_self 2 ne
    rw [← exact_ (Nat.sub_le _ 52)] at low
    have rounded := roundHalfEven_mono low (2 ^ (Nat.log 2 n - 52))
    rw [roundHalfEven_mul _ _ pos] at rounded
    calc 2 ^ Nat.log 2 n = 2 ^ (Nat.log 2 n - (Nat.log 2 n - 52)) * 2 ^ (Nat.log 2 n - 52) :=
          (exact_ (Nat.sub_le _ 52)).symm
      _ ≤ nearest n := Nat.mul_le_mul_right _ rounded
  · have above : Nat.log 2 n - 52 ≤ Nat.log 2 n + 1 := by omega
    have high := (Nat.lt_pow_succ_log_self Nat.one_lt_two n).le
    rw [Nat.succ_eq_add_one, ← exact_ above] at high
    have rounded := roundHalfEven_mono high (2 ^ (Nat.log 2 n - 52))
    rw [roundHalfEven_mul _ _ pos] at rounded
    calc nearest n ≤ 2 ^ (Nat.log 2 n + 1 - (Nat.log 2 n - 52)) * 2 ^ (Nat.log 2 n - 52) :=
          Nat.mul_le_mul_right _ rounded
      _ = 2 ^ (Nat.log 2 n + 1) := exact_ above

theorem nearest_mono {n m : Nat} (le : n ≤ m) : nearest n ≤ nearest m := by
  rcases Nat.eq_zero_or_pos n with rfl | pos
  · exact Nat.zero_le _
  have logs := Nat.log_mono_right (b := 2) le
  rcases logs.lt_or_eq with less | same
  · calc nearest n ≤ 2 ^ (Nat.log 2 n + 1) := (nearest_bounds (by omega)).2
      _ ≤ 2 ^ Nat.log 2 m := Nat.pow_le_pow_right (by decide) less
      _ ≤ nearest m := (nearest_bounds (by omega)).1
  · simp only [nearest, same]
    exact Nat.mul_le_mul_right _ (roundHalfEven_mono le _)

theorem number_mono {x y : Text} (le : Text.toNat x ≤ Text.toNat y) : Number x ≤ Number y := by
  have rounded := nearest_mono le
  unfold Number
  dsimp only
  split
  · rename_i infinite
    rw [if_pos (infinite.trans rounded)]
  · split
    · exact le_top
    · exact WithTop.coe_le_coe.mpr rounded

/-- A number of at most 53 bits is kept. -/
theorem nearest_of_small {n : Nat} (small : n ≤ 2 ^ 53) : nearest n = n := by
  rcases small.lt_or_eq with less | rfl
  · have log : Nat.log 2 n - 52 = 0 := by
      have := Nat.log_lt_of_lt_pow' (b := 2) (by decide) less
      omega
    simp [nearest, log, Double.roundHalfEven, Nat.mod_one]
  · decide

/-! ## Numbers beside their doubles -/

theorem number_lt {x y : Text} (ne : Number x ≠ Number y) :
    sign (Number x) (Number y) = sign (Text.toNat x) (Text.toNat y) := by
  rcases lt_trichotomy (Text.toNat x) (Text.toNat y) with less | same | greater
  · rw [sign_lt.mpr less]
    exact sign_lt.mpr (lt_of_le_of_ne (number_mono less.le) ne)
  · exact absurd (by rw [Number, same, Number]) ne
  · rw [sign_gt.mpr greater]
    exact sign_gt.mpr (lt_of_le_of_ne (number_mono greater.le) ne.symm)

/-- The difference has a sign if and only if `Number` tells the numbers apart. -/
theorem truthy_difference (x y : WithTop Nat) :
    (difference x y).filter (· ≠ .eq) = if x = y then none else some (sign x y) := by
  unfold difference
  by_cases same : x = y
  · subst same
    by_cases top : x = ⊤ <;> simp [top, sign_self]
  · have ordered : sign x y ≠ .eq := fun equal => same (sign_eq.mp equal)
    have finite : ¬(x = ⊤ ∧ y = ⊤) := fun both => same (both.1.trans both.2.symm)
    simp [finite, same, ordered]

/-! ## Keys from left to right -/

theorem sign_cons {α : Type} [LinearOrder α] (x y : α) (xs ys : List α) :
    sign (x :: xs) (y :: ys) = if x = y then sign xs ys else sign x y := by
  split
  · rename_i same
    exact sign_congr (by simp [same]) (by simp [same])
  · rename_i other
    have other' : y ≠ x := Ne.symm other
    exact sign_congr (by simp [List.cons_lt_cons_iff, other])
      (by simp [List.cons_lt_cons_iff, other'])

theorem sign_toLex {α β : Type} [LinearOrder α] [LinearOrder β] (a a' : α) (b b' : β) :
    sign (toLex (a, b)) (toLex (a', b')) = (sign a a').then (sign b b') := by
  rcases lt_trichotomy a a' with less | rfl | greater
  · rw [sign_lt.mpr less, sign_lt.mpr (Prod.Lex.toLex_lt_toLex.mpr (.inl less))]
    rfl
  · rw [sign_self]
    exact sign_congr (by simp [Prod.Lex.toLex_lt_toLex]) (by simp [Prod.Lex.toLex_lt_toLex])
  · rw [sign_gt.mpr greater, sign_gt.mpr (Prod.Lex.toLex_lt_toLex.mpr (.inl greater))]
    rfl

/-- The core decides, then the prereleases. -/
theorem sign_key (m n : SemverMatch) : sign m.key n.key =
    (coreOrder m n).then (sign (prereleaseKey m.prerelease) (prereleaseKey n.prerelease)) := by
  rw [coreOrder, Ordering.then_assoc, Ordering.then_assoc, ← sign_toLex, ← sign_toLex, ← sign_toLex]
  rfl

theorem isNumber_eq {x : Text} (valid : isPrereleaseIdentifier x = true) :
    isNumber x = x.all CodePoint.isDigit := by
  cases x with
  | nil => cases valid
  | cons c rest => rfl

section

variable (localeCompare : Text → Text → Ordering)

theorem identifier_alike {x y : Text} (valid : isPrereleaseIdentifier x = true)
    (valid' : isPrereleaseIdentifier y = true) (other : x ≠ y) :
    ((if isNumber x && isNumber y then difference (Number x) (Number y)
      else if isNumber x != isNumber y then some (if isNumber x then .lt else .gt)
      else some (localeCompare x y)) =
        some (sign (prereleaseIdentifier x) (prereleaseIdentifier y))) ↔
      if isNumber x && isNumber y then Number x ≠ Number y
      else isNumber x ≠ isNumber y ∨ localeCompare x y = sign x y := by
  rw [isNumber_eq valid, isNumber_eq valid', prereleaseIdentifier, prereleaseIdentifier]
  cases digits : x.all CodePoint.isDigit <;> cases digits' : y.all CodePoint.isDigit
  · have letters : sign (Sum.inrₗ x : Nat ⊕ₗ Text) (Sum.inrₗ y) = sign x y :=
      sign_congr Sum.Lex.inr_lt_inr_iff Sum.Lex.inr_lt_inr_iff
    simp [letters]
  · have after : sign (Sum.inrₗ x) (Sum.inlₗ (Text.toNat y)) = .gt := sign_gt.mpr (Sum.Lex.inl_lt_inr _ _)
    simp [after]
  · have before : sign (Sum.inlₗ (Text.toNat x)) (Sum.inrₗ y) = .lt := sign_lt.mpr (Sum.Lex.inl_lt_inr _ _)
    simp [before]
  · have numbers : sign (Sum.inlₗ (Text.toNat x) : Nat ⊕ₗ Text) (Sum.inlₗ (Text.toNat y)) =
        sign (Text.toNat x) (Text.toNat y) :=
      sign_congr Sum.Lex.inl_lt_inl_iff Sum.Lex.inl_lt_inl_iff
    have values : sign (Text.toNat x) (Text.toNat y) ≠ .eq := fun equal =>
      other (numeric_unique (numeric_of_digits valid digits) (numeric_of_digits valid' digits')
        (sign_eq.mp equal))
    simp only [Bool.and_self, if_true, numbers]
    constructor
    · intro decided same
      have truthy := truthy_difference (Number x) (Number y)
      rw [decided, if_pos same] at truthy
      simp [values] at truthy
    · intro apart
      have truthy := truthy_difference (Number x) (Number y)
      rw [if_neg apart, number_lt apart] at truthy
      exact (Option.filter_eq_some_iff.mp truthy).1

theorem compareIdentifiers_iff {as bs : List Text}
    (valid : ∀ a ∈ as, isPrereleaseIdentifier a = true)
    (valid' : ∀ b ∈ bs, isPrereleaseIdentifier b = true) :
    compareIdentifiers localeCompare as bs =
        some (sign (as.map prereleaseIdentifier) (bs.map prereleaseIdentifier)) ↔
      AlikeIdentifiers localeCompare as bs := by
  induction as generalizing bs with
  | nil =>
      cases bs with
      | nil => simp [compareIdentifiers, AlikeIdentifiers, sign_self]
      | cons b bs =>
          have shorter : sign [] (prereleaseIdentifier b :: bs.map prereleaseIdentifier) = .lt :=
            sign_lt.mpr (List.nil_lt_cons _ _)
          simp [compareIdentifiers, AlikeIdentifiers, shorter]
  | cons a as ih =>
      cases bs with
      | nil =>
          have longer : sign (prereleaseIdentifier a :: as.map prereleaseIdentifier) [] = .gt :=
            sign_gt.mpr (List.nil_lt_cons _ _)
          simp [compareIdentifiers, AlikeIdentifiers, longer]
      | cons b bs =>
          rw [List.forall_mem_cons] at valid valid'
          rw [List.map_cons, List.map_cons, sign_cons, compareIdentifiers, AlikeIdentifiers]
          by_cases same : a = b
          · rw [if_pos same, if_pos same, if_pos (congrArg _ same)]
            exact ih valid.2 valid'.2
          · have keys : prereleaseIdentifier a ≠ prereleaseIdentifier b := fun equal =>
              same (prereleaseIdentifier_inj valid.1 valid'.1 equal)
            rw [if_neg same, if_neg same, if_neg keys]
            exact identifier_alike localeCompare valid.1 valid'.1 same

theorem comparePrereleases_iff {a b : Text} {m n : SemverMatch} (h : Matched a m)
    (h' : Matched b n) :
    comparePrereleases localeCompare m.prerelease n.prerelease =
        some (sign (prereleaseKey m.prerelease) (prereleaseKey n.prerelease)) ↔
      AlikePrereleases localeCompare m.prerelease n.prerelease := by
  cases left : m.prerelease with
  | none =>
      cases right : n.prerelease with
      | none => simp [comparePrereleases, AlikePrereleases, sign_self]
      | some q =>
          have released : sign (prereleaseKey none) (prereleaseKey (some q)) = .gt :=
            sign_gt.mpr (WithTop.coe_lt_top _)
          simp [comparePrereleases, AlikePrereleases, released]
  | some p =>
      cases right : n.prerelease with
      | none =>
          have unreleased : sign (prereleaseKey (some p)) (prereleaseKey none) = .lt :=
            sign_lt.mpr (WithTop.coe_lt_top _)
          simp [comparePrereleases, AlikePrereleases, unreleased]
      | some q =>
          have identifiers : sign (prereleaseKey (some p)) (prereleaseKey (some q)) =
              sign ((Text.splitOn (.ofChar '.') p).map prereleaseIdentifier)
                ((Text.splitOn (.ofChar '.') q).map prereleaseIdentifier) :=
            sign_congr WithTop.coe_lt_coe WithTop.coe_lt_coe
          rw [comparePrereleases, AlikePrereleases, identifiers]
          exact compareIdentifiers_iff localeCompare (h.prerelease p left) (h'.prerelease q right)

end

/-! ## The parts of a version -/

theorem splitPrerelease_eq {t : Text} (plain : ∀ c ∈ t, isLineTerminator c = false)
    (after : ∀ rest, (Text.partition (.ofChar '-') t).2 = some rest → rest ≠ []) :
    splitPrerelease t = Text.partition (.ofChar '-') t := by
  induction t with
  | nil => rfl
  | cons c rest ih =>
      rw [List.forall_mem_cons] at plain
      have captured : (rest.takeWhile fun d => !isLineTerminator d) = rest := by
        have kept : (rest ++ []).takeWhile (fun d => !isLineTerminator d) = rest ++ [] :=
          List.takeWhile_append_of_pos fun d mem => by simp [plain.2 d mem]
        rwa [List.append_nil] at kept
      rw [splitPrerelease, captured]
      rw [Text.partition] at after ⊢
      by_cases hyphen : c = .ofChar '-'
      · rw [if_pos hyphen] at after ⊢
        have some_ := after rest rfl
        simp [hyphen, some_]
      · rw [if_neg hyphen] at after ⊢
        rw [ih plain.2 after]
        simp [hyphen]

namespace Version

theorem isSemver (v : Version) : IsSemver v.1 := v.2

theorem matched (v : Version) : Matched v.1 v.parts :=
  semver_re_matched (Option.some_get v.2).symm

theorem splitVersion_eq (v : Version) :
    splitVersion v.1 = ((Text.partition (.ofChar '-') (withoutBuild v.1)).1, v.parts.prerelease) := by
  have matched := v.matched
  have plain : ∀ c ∈ withoutBuild v.1, isLineTerminator c = false := by
    intro c mem
    have inside : c ∈ v.1 := by
      rw [@Text.partition_eq (.ofChar '+') v.1]
      exact List.mem_append_left _ mem
    have range := (isRangeChar_iff c).mp (range_of_semver v.isSemver c inside)
    simp only [isLineTerminator, ← Bool.not_eq_true, Bool.or_eq_true, beq_iff_eq]
    omega
  have after : ∀ rest, (Text.partition (.ofChar '-') (withoutBuild v.1)).2 = some rest →
      rest ≠ [] := by
    rintro _ known rfl
    rw [matched.after] at known
    have identifier := matched.prerelease [] known [] (by simp [Text.splitOn])
    exact absurd identifier (by decide)
  rw [splitVersion, ← withoutBuild, splitPrerelease_eq plain after, ← matched.after]

end Version

/-- The loop over the core returns where `Number` tells two numbers apart. -/
theorem core_loop (m n : SemverMatch) :
    ([0, 1, 2].findSome? fun i =>
      (coreDifference ([m.major, m.minor, m.patch].map Number) ([n.major, n.minor, n.patch].map Number)
        i).filter (· ≠ .eq)) =
      if seenOrder m n = .eq then none else some (seenOrder m n) := by
  have decided {x y : WithTop Nat} (ne : x ≠ y) (rest : Ordering) :
      (sign x y).then rest = sign x y := by
    rcases lt_or_gt_of_ne ne with less | greater
    · rw [sign_lt.mpr less]
      rfl
    · rw [sign_gt.mpr greater]
      rfl
  have some_ {x y : WithTop Nat} (ne : x ≠ y) : sign x y ≠ .eq := fun equal => ne (sign_eq.mp equal)
  simp only [List.map_cons, List.map_nil, List.findSome?_cons, List.findSome?_nil, coreDifference,
    List.getElem?_cons_zero, List.getElem?_cons_succ, Option.bind_eq_bind, Option.bind_some,
    truthy_difference, seenOrder]
  by_cases major : Number m.major = Number n.major
  · by_cases minor : Number m.minor = Number n.minor
    · by_cases patch : Number m.patch = Number n.patch
      · simp [major, minor, patch, sign_self]
      · simp [major, minor, patch, sign_self, some_ patch]
    · simp [major, minor, sign_self, decided minor, some_ minor]
  · simp [major, decided major, some_ major]

theorem seen_of_same {m n : SemverMatch} (same : coreOrder m n = .eq) : seenOrder m n = .eq := by
  rw [coreOrder, Ordering.then_eq_eq, Ordering.then_eq_eq, sign_eq, sign_eq, sign_eq] at same
  simp only [seenOrder, Number, same.1, same.2.1, same.2.2, sign_self, Ordering.then]

section

variable (localeCompare : Text → Text → Ordering)

theorem compareVersions_eq (a b : Version) :
    compareVersions localeCompare (some a.1) (some b.1) =
      if seenOrder a.parts b.parts = .eq then
        comparePrereleases localeCompare a.parts.prerelease b.parts.prerelease
      else some (seenOrder a.parts b.parts) := by
  have truthy (v : Version) : (some v.1).filter (· ≠ []) = some v.1 := by
    simp [semver_ne_nil v.isSemver]
  simp only [compareVersions, truthy, Version.splitVersion_eq, a.matched.pieces, b.matched.pieces,
    core_loop]
  by_cases seen : seenOrder a.parts b.parts = .eq
  · rw [if_pos seen, if_pos seen]
  · rw [if_neg seen, if_neg seen]

end

/-! ## The ordinary versions -/

theorem number_of_small {x : Text} (small : Text.toNat x ≤ 2 ^ 53) : Number x = .some (Text.toNat x) := by
  have finite : ¬2 ^ 1024 ≤ Text.toNat x := by
    intro huge
    have gap : 2 ^ 53 < 2 ^ 1024 := Nat.pow_lt_pow_right (by decide) (by decide)
    exact absurd (huge.trans small) (not_le.mpr gap)
  rw [Number, nearest_of_small small, if_neg finite]

theorem sign_of_small {x y : Text} (small : Text.toNat x ≤ 2 ^ 53) (small' : Text.toNat y ≤ 2 ^ 53) :
    sign (Number x) (Number y) = sign (Text.toNat x) (Text.toNat y) := by
  rw [number_of_small small, number_of_small small']
  exact sign_congr WithTop.coe_lt_coe WithTop.coe_lt_coe

def Small (m : SemverMatch) : Prop :=
  (∀ x ∈ [m.major, m.minor, m.patch], Text.toNat x ≤ 2 ^ 53) ∧
    ∀ p, m.prerelease = some p → ∀ x ∈ Text.splitOn (.ofChar '.') p, isNumber x = true →
      Text.toNat x ≤ 2 ^ 53

/-- Versions with numbers of at most 53 bits are ordered alike by a collation of code points. -/
theorem alike_of_small {a b : Text} {m n : SemverMatch} (h : Matched a m) (h' : Matched b n)
    (small : Small m) (small' : Small n) : Alike sign m n := by
  have core : seenOrder m n = coreOrder m n := by
    simp only [Small, List.forall_mem_cons] at small small'
    rw [seenOrder, coreOrder, sign_of_small small.1.1 small'.1.1,
      sign_of_small small.1.2.1 small'.1.2.1, sign_of_small small.1.2.2.1 small'.1.2.2.1]
  have identifiers {as bs : List Text} (valid : ∀ x ∈ as, isPrereleaseIdentifier x = true)
      (valid' : ∀ y ∈ bs, isPrereleaseIdentifier y = true)
      (low : ∀ x ∈ as, isNumber x = true → Text.toNat x ≤ 2 ^ 53)
      (low' : ∀ y ∈ bs, isNumber y = true → Text.toNat y ≤ 2 ^ 53) : AlikeIdentifiers sign as bs := by
    induction as generalizing bs with
    | nil => trivial
    | cons x xs ih =>
        cases bs with
        | nil => trivial
        | cons y ys =>
            rw [List.forall_mem_cons] at valid valid' low low'
            rw [AlikeIdentifiers]
            split
            · exact ih valid.2 valid'.2 low.2 low'.2
            · rename_i other
              split
              · rename_i numbers
                rw [Bool.and_eq_true] at numbers
                rw [number_of_small (low.1 numbers.1), number_of_small (low'.1 numbers.2)]
                intro equal
                rw [isNumber_eq valid.1, isNumber_eq valid'.1] at numbers
                exact other (numeric_unique (numeric_of_digits valid.1 numbers.1)
                  (numeric_of_digits valid'.1 numbers.2) (WithTop.coe_inj.mp equal))
              · exact .inr rfl
  rw [Alike, core]
  split
  · rw [AlikePrereleases.eq_def]
    split
    · rename_i p q left right
      exact identifiers (h.prerelease p left) (h'.prerelease q right) (small.2 p left)
        (small'.2 q right)
    · trivial
  · rfl

/-! ## A collation -/

/-- Letters are compared without their case, and small letters come first where that is all that
    differs. -/
def collate (x y : Text) : Ordering :=
  (sign (x.map lowerAscii) (y.map lowerAscii)).then (sign y x)

def alpha : Version := ⟨text "1.0.0-alpha", by decide⟩

def beta : Version := ⟨text "1.0.0-Beta", by decide⟩

end PackageRegistry.Browser
