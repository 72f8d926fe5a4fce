import PackageRegistry.Lib.Tuples
import PackageRegistry.Registry.Semver

/-! # `semver_key` orders versions by their precedence

The precedence of versions in the words of Semantic Versioning 2.0, section 11, and the
tuples of `semver_key` as Python compares them. On everything that `SEMVER_RE` matches
the comparison is defined, and it is the precedence.
-/

namespace PackageRegistry

/-! ## The tuples -/

def identifierTuple (part : Text) : PyValue :=
  if part.all CodePoint.isDigit then .tuple [.int 0, .int (Text.toNat part)]
  else .tuple [.int 1, .str part]

def prereleaseTuple (prerelease : Option Text) : PyValue :=
  match prerelease with
  | none => .tuple [.int 1]
  | some p => .tuple [.int 0, .tuple ((Text.splitOn (.ofChar '.') p).map identifierTuple)]

/-- What `semver_key` returns for a match -/
def SemverMatch.tuple (m : SemverMatch) : PyValue :=
  .tuple [.int (Text.toNat m.major), .int (Text.toNat m.minor), .int (Text.toNat m.patch),
    prereleaseTuple m.prerelease]

def semver_tuple (version : Text) : Option PyValue :=
  (SEMVER_RE version).map SemverMatch.tuple

/-! ## Keys as tuples -/

def identifierItems : Nat ⊕ₗ Text → List PyValue :=
  PyValue.tagged (fun n => [.int n]) fun t => [.str t]

def identifiersTuple (identifiers : List (Nat ⊕ₗ Text)) : PyValue :=
  .tuple (identifiers.map fun s => .tuple (identifierItems s))

/-- The tuple of a key -/
def keyTuple (key : SemverKey) : PyValue :=
  .tuple [.int (ofLex key).1, .int (ofLex (ofLex key).2).1, .int (ofLex (ofLex (ofLex key).2).2).1,
    .tuple (PyValue.topped identifiersTuple (ofLex (ofLex (ofLex key).2).2).2)]

theorem ordered_keyTuple : PyValue.Ordered keyTuple := by
  have identifier := (PyValue.ordered_int.one.tagged PyValue.ordered_str.one).tuple
  have prerelease := identifier.list.tuple.topped.tuple
  exact (PyValue.ordered_int.cons (PyValue.ordered_int.cons
    (PyValue.ordered_int.cons prerelease.one))).tuple

theorem identifierTuple_eq (part : Text) :
    .tuple (identifierItems (prereleaseIdentifier part)) = identifierTuple part := by
  unfold prereleaseIdentifier identifierTuple
  split <;> rfl

theorem keyTuple_key (m : SemverMatch) : keyTuple m.key = m.tuple := by
  obtain ⟨major, minor, patch, prerelease, build⟩ := m
  cases prerelease with
  | none => rfl
  | some p =>
      have identifiers : identifiersTuple ((Text.splitOn (.ofChar '.') p).map prereleaseIdentifier) =
          .tuple ((Text.splitOn (.ofChar '.') p).map identifierTuple) := by
        simp only [identifiersTuple, List.map_map, Function.comp_def, identifierTuple_eq]
      rw [SemverMatch.tuple, prereleaseTuple, ← identifiers]
      rfl

/-- `semver_key` and its tuples say the same. -/
theorem semver_tuple_eq (version : Text) :
    semver_tuple version = (semver_key version).map keyTuple := by
  rw [semver_tuple, semver_key, Option.map_map]
  congr 1
  funext m
  exact (keyTuple_key m).symm

/-! ## The grammar -/

/-- A version without its build metadata -/
def withoutBuild (version : Text) : Text := (Text.partition (.ofChar '+') version).1

/-- What `SEMVER_RE` has matched -/
structure Matched (version : Text) (m : SemverMatch) : Prop where
  pieces : Text.splitOn (.ofChar '.') (Text.partition (.ofChar '-') (withoutBuild version)).1 =
    [m.major, m.minor, m.patch]
  after : (Text.partition (.ofChar '-') (withoutBuild version)).2 = m.prerelease
  major : isNumericIdentifier m.major = true
  minor : isNumericIdentifier m.minor = true
  patch : isNumericIdentifier m.patch = true
  prerelease : ∀ p, m.prerelease = some p →
    ∀ part ∈ Text.splitOn (.ofChar '.') p, isPrereleaseIdentifier part = true

theorem semver_re_matched {version : Text} {m : SemverMatch} (h : SEMVER_RE version = some m) :
    Matched version m := by
  simp only [SEMVER_RE] at h
  split at h
  · rename_i major minor patch pieces
    split at h
    · rename_i valid
      cases h
      simp only [Bool.and_eq_true] at valid
      obtain ⟨⟨⟨⟨isMajor, isMinor⟩, isPatch⟩, identifiers⟩, -⟩ := valid
      refine ⟨pieces, rfl, isMajor, isMinor, isPatch, fun p known => ?_⟩
      have known : (Text.partition (.ofChar '-') (Text.partition (.ofChar '+') version).1).2 =
          some p := known
      rw [known] at identifiers
      exact List.all_eq_true.mp identifiers
    · cases h
  · cases h

/-- The three numbers and the prerelease make up what stands before the build metadata. -/
theorem Matched.front {version : Text} {m : SemverMatch} (h : Matched version m) :
    withoutBuild version = List.intercalate [.ofChar '.'] [m.major, m.minor, m.patch] ++
      (match m.prerelease with
      | some p => .ofChar '-' :: p
      | none => []) := by
  rw [← h.pieces, Text.intercalate_splitOn, ← h.after]
  exact Text.partition_eq _

theorem numeric_digits {part : Text} (h : isNumericIdentifier part = true) :
    Text.ofNat (Text.toNat part) = part := by
  simp only [isNumericIdentifier, Bool.and_eq_true, Bool.not_eq_true', List.isEmpty_eq_false_iff,
    List.all_eq_true, Bool.or_eq_true, bne_iff_ne, ne_eq, beq_iff_eq] at h
  obtain ⟨⟨nonempty, digits⟩, noZero⟩ := h
  exact Text.ofNat_toNat digits nonempty noZero

/-- Numbers of the grammar have one spelling each. -/
theorem numeric_unique {a b : Text} (h : isNumericIdentifier a = true)
    (h' : isNumericIdentifier b = true) (equal : Text.toNat a = Text.toNat b) : a = b := by
  rw [← numeric_digits h, ← numeric_digits h', equal]

/-- An identifier of digits alone is a number of the grammar. -/
theorem numeric_of_digits {part : Text} (h : isPrereleaseIdentifier part = true)
    (digits : part.all CodePoint.isDigit = true) : isNumericIdentifier part = true := by
  unfold isPrereleaseIdentifier at h
  rcases Bool.or_eq_true_iff.mp h with numeric | letters
  · exact numeric
  · obtain ⟨c, mem, other⟩ := List.any_eq_true.mp (Bool.and_eq_true_iff.mp letters).2
    simp [List.all_eq_true.mp digits c mem] at other

/-! ## Precedence -/

inductive IdentifierBelow : Text → Text → Prop where
  | numbers {a b : Text} (digits : a.all CodePoint.isDigit = true)
      (digits' : b.all CodePoint.isDigit = true) (less : Text.toNat a < Text.toNat b) :
      IdentifierBelow a b
  | number_first {a b : Text} (digits : a.all CodePoint.isDigit = true)
      (letters : b.all CodePoint.isDigit = false) : IdentifierBelow a b
  | ascii {a b : Text} (letters : a.all CodePoint.isDigit = false)
      (letters' : b.all CodePoint.isDigit = false) (less : a < b) : IdentifierBelow a b

/-- Lists of identifiers are compared from left to right; a longer list comes after its
    proper initial part. -/
inductive IdentifiersBelow : List Text → List Text → Prop where
  | shorter (b : Text) (rest : List Text) : IdentifiersBelow [] (b :: rest)
  | here {a b : Text} (below : IdentifierBelow a b) (as bs : List Text) :
      IdentifiersBelow (a :: as) (b :: bs)
  | later (a : Text) {as bs : List Text} (below : IdentifiersBelow as bs) :
      IdentifiersBelow (a :: as) (a :: bs)

def PrereleaseBelow : Option Text → Option Text → Prop
  | some p, some q =>
      IdentifiersBelow (Text.splitOn (.ofChar '.') p) (Text.splitOn (.ofChar '.') q)
  | some _, none => True
  | none, _ => False

/-- Section 11: the first difference of the numbers decides, then the prerelease. -/
def Precedes (m n : SemverMatch) : Prop :=
  Text.toNat m.major < Text.toNat n.major ∨ Text.toNat m.major = Text.toNat n.major ∧
    (Text.toNat m.minor < Text.toNat n.minor ∨ Text.toNat m.minor = Text.toNat n.minor ∧
      (Text.toNat m.patch < Text.toNat n.patch ∨ Text.toNat m.patch = Text.toNat n.patch ∧
        PrereleaseBelow m.prerelease n.prerelease))

theorem prereleaseIdentifier_lt {a b : Text} :
    prereleaseIdentifier a < prereleaseIdentifier b ↔ IdentifierBelow a b := by
  unfold prereleaseIdentifier
  cases digits : a.all CodePoint.isDigit <;> cases digits' : b.all CodePoint.isDigit
  · rw [if_neg (by simp), if_neg (by simp), Sum.Lex.inr_lt_inr_iff]
    constructor
    · exact .ascii digits digits'
    · intro below
      cases below <;> simp_all
  · rw [if_neg (by simp), if_pos rfl]
    constructor
    · intro less
      exact absurd less Sum.Lex.not_inr_lt_inl
    · intro below
      cases below <;> simp_all
  · rw [if_pos rfl, if_neg (by simp)]
    constructor
    · intro _
      exact .number_first digits digits'
    · intro _
      exact Sum.Lex.inl_lt_inr _ _
  · rw [if_pos rfl, if_pos rfl, Sum.Lex.inl_lt_inl_iff]
    constructor
    · exact .numbers digits digits'
    · intro below
      cases below <;> simp_all

theorem prereleaseIdentifier_inj {a b : Text} (h : isPrereleaseIdentifier a = true)
    (h' : isPrereleaseIdentifier b = true)
    (equal : prereleaseIdentifier a = prereleaseIdentifier b) : a = b := by
  unfold prereleaseIdentifier at equal
  split at equal <;> split at equal
  · rename_i digits digits'
    exact numeric_unique (numeric_of_digits h digits) (numeric_of_digits h' digits')
      (Sum.inl_injective equal)
  · cases equal
  · cases equal
  · exact Sum.inr_injective equal

theorem identifiers_inj {as bs : List Text} (valid : ∀ a ∈ as, isPrereleaseIdentifier a = true)
    (valid' : ∀ b ∈ bs, isPrereleaseIdentifier b = true)
    (equal : as.map prereleaseIdentifier = bs.map prereleaseIdentifier) : as = bs := by
  induction as generalizing bs with
  | nil => exact (List.map_eq_nil_iff.mp equal.symm).symm
  | cons a as ih =>
      cases bs with
      | nil => cases equal
      | cons b bs =>
          rw [List.forall_mem_cons] at valid valid'
          rw [List.map_cons, List.map_cons, List.cons.injEq] at equal
          rw [prereleaseIdentifier_inj valid.1 valid'.1 equal.1, ih valid.2 valid'.2 equal.2]

theorem identifiers_lt {as bs : List Text} (valid : ∀ a ∈ as, isPrereleaseIdentifier a = true)
    (valid' : ∀ b ∈ bs, isPrereleaseIdentifier b = true) :
    as.map prereleaseIdentifier < bs.map prereleaseIdentifier ↔ IdentifiersBelow as bs := by
  induction as generalizing bs with
  | nil =>
      cases bs with
      | nil =>
          simp only [List.map_nil, lt_self_iff_false, false_iff]
          intro below
          cases below
      | cons b rest => exact ⟨fun _ => .shorter b rest, fun _ => List.nil_lt_cons _ _⟩
  | cons a as ih =>
      cases bs with
      | nil =>
          simp only [List.map_cons, List.map_nil, List.not_lt_nil, false_iff]
          intro below
          cases below
      | cons b bs =>
          rw [List.forall_mem_cons] at valid valid'
          rw [List.map_cons, List.map_cons, List.cons_lt_cons_iff, ih valid.2 valid'.2,
            prereleaseIdentifier_lt]
          constructor
          · rintro (here | ⟨equal, below⟩)
            · exact .here here as bs
            · rw [prereleaseIdentifier_inj valid.1 valid'.1 equal]
              exact .later b below
          · intro below
            cases below with
            | here below => exact .inl below
            | later _ below => exact .inr ⟨rfl, below⟩

def prereleaseKey (prerelease : Option Text) : WithTop (List (Nat ⊕ₗ Text)) :=
  match prerelease with
  | none => ⊤
  | some p => ((Text.splitOn (.ofChar '.') p).map prereleaseIdentifier : List (Nat ⊕ₗ Text))

theorem prereleaseKey_lt {a b : Text} {m n : SemverMatch} (h : Matched a m) (h' : Matched b n) :
    prereleaseKey m.prerelease < prereleaseKey n.prerelease ↔
      PrereleaseBelow m.prerelease n.prerelease := by
  cases left : m.prerelease with
  | none => simp [prereleaseKey, PrereleaseBelow]
  | some p =>
      cases right : n.prerelease with
      | none => simp [prereleaseKey, PrereleaseBelow]
      | some q =>
          rw [prereleaseKey, prereleaseKey, WithTop.coe_lt_coe, PrereleaseBelow]
          exact identifiers_lt (h.prerelease p left) (h'.prerelease q right)

theorem key_lt {a b : Text} {m n : SemverMatch} (h : Matched a m) (h' : Matched b n) :
    m.key < n.key ↔ Precedes m n := by
  rw [Precedes, ← prereleaseKey_lt h h']
  simp only [SemverMatch.key, Prod.Lex.toLex_lt_toLex]
  rfl

theorem prereleaseKey_inj {a b : Text} {m n : SemverMatch} (h : Matched a m) (h' : Matched b n)
    (equal : prereleaseKey m.prerelease = prereleaseKey n.prerelease) :
    m.prerelease = n.prerelease := by
  cases left : m.prerelease with
  | none =>
      cases right : n.prerelease with
      | none => rfl
      | some q => simp [prereleaseKey, left, right] at equal
  | some p =>
      cases right : n.prerelease with
      | none => simp [prereleaseKey, left, right] at equal
      | some q =>
          rw [left, right, prereleaseKey, prereleaseKey, WithTop.coe_inj] at equal
          have pieces := identifiers_inj (h.prerelease p left) (h'.prerelease q right) equal
          rw [Text.splitOn_injective _ pieces]

/-- What stands before the build metadata decides the key, and the key decides it. -/
theorem key_eq {a b : Text} {m n : SemverMatch} (h : Matched a m) (h' : Matched b n) :
    m.key = n.key ↔ withoutBuild a = withoutBuild b := by
  constructor
  · intro equal
    have numbers := Prod.ext_iff.mp equal
    have numbers' := Prod.ext_iff.mp numbers.2
    have numbers'' := Prod.ext_iff.mp numbers'.2
    have major := numeric_unique h.major h'.major numbers.1
    have minor := numeric_unique h.minor h'.minor numbers'.1
    have patch := numeric_unique h.patch h'.patch numbers''.1
    have prerelease := prereleaseKey_inj h h' numbers''.2
    rw [h.front, h'.front, major, minor, patch, prerelease]
  · intro same
    have pieces := h.pieces
    have after := h.after
    rw [same, h'.pieces] at pieces
    rw [same, h'.after] at after
    simp only [List.cons.injEq, and_true] at pieces
    obtain ⟨major, minor, patch⟩ := pieces
    simp only [SemverMatch.key, major, minor, patch, after]

/-! ## The whole -/

/-- Not above in the order that `sorted` and `max` see -/
def AtMost (a b : Text) : Prop :=
  ∃ x y, semver_tuple a = some x ∧ semver_tuple b = some y ∧ y.lt x = some false

structure RealisesPrecedence : Prop where
  compares : ∀ a b m n, SEMVER_RE a = some m → SEMVER_RE b = some n →
    ∃ x y, semver_tuple a = some x ∧ semver_tuple b = some y ∧
      (Precedes m n ∧ x.lt y = some true ∨ ¬Precedes m n ∧ x.lt y = some false)
  total : ∀ a b, (SEMVER_RE a).isSome → (SEMVER_RE b).isSome → AtMost a b ∨ AtMost b a
  transitive : ∀ a b c, AtMost a b → AtMost b c → AtMost a c
  equal : ∀ a b, (SEMVER_RE a).isSome → (SEMVER_RE b).isSome →
    (semver_tuple a = semver_tuple b ↔ withoutBuild a = withoutBuild b)

theorem semver_tuple_of_match {version : Text} {m : SemverMatch} (h : SEMVER_RE version = some m) :
    semver_tuple version = some (keyTuple m.key) := by
  rw [semver_tuple, h, keyTuple_key]
  rfl

theorem atMost_iff {a b : Text} :
    AtMost a b ↔ ∃ m n, SEMVER_RE a = some m ∧ SEMVER_RE b = some n ∧ m.key ≤ n.key := by
  constructor
  · rintro ⟨x, y, atX, atY, above⟩
    obtain ⟨m, matched, rfl⟩ := Option.map_eq_some_iff.mp atX
    obtain ⟨n, matched', rfl⟩ := Option.map_eq_some_iff.mp atY
    refine ⟨m, n, matched, matched', not_lt.mp fun below => ?_⟩
    rw [← keyTuple_key, ← keyTuple_key, ordered_keyTuple.below _ _ below] at above
    cases above
  · rintro ⟨m, n, matched, matched', below⟩
    exact ⟨_, _, semver_tuple_of_match matched, semver_tuple_of_match matched',
      ordered_keyTuple.above _ _ below⟩

end PackageRegistry
