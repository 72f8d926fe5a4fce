import PackageRegistry.Registry.Hosted

/-! # The grammar of version ranges

A range passes `_version_range` and the pattern of the schema. Each of the two lets line breaks
pass that the other does not, and the pattern does not read versions.
-/

namespace PackageRegistry

/-- `>=|<=|==|!=|>|<` -/
def operators : List Text :=
  [text ">=", text "<=", text "==", text "!=", text ">", text "<"]

/-- An operator, immediately followed by a version -/
def IsClause (clause : Text) : Prop :=
  ∃ operator ∈ operators, ∃ version, clause = operator ++ version ∧ IsSemver version

/-- A nonempty list of clauses, with nothing but commas between them -/
def IsClauseList (s : Text) : Prop :=
  ∃ clauses, clauses ≠ [] ∧ s = List.intercalate (text ",") clauses ∧
    ∀ clause ∈ clauses, IsClause clause

/-! ## Characters -/

/-- What a range is written with, apart from commas -/
def isClauseChar (c : CodePoint) : Bool :=
  isRangeChar c || c == .ofChar '>' || c == .ofChar '<' || c == .ofChar '=' || c == .ofChar '!'

theorem range_of_semver {version : Text} (h : IsSemver version) :
    ∀ c ∈ version, isRangeChar c = true := by
  intro c mem
  rcases semver_chars h c mem with inside | rfl | rfl
  · rw [CodePoint.isIdentifierChar] at inside
    simp only [isRangeChar, Bool.or_eq_true, beq_iff_eq] at inside ⊢
    grind
  · decide
  · decide

theorem isRangeChar_iff (c : CodePoint) : isRangeChar c = true ↔
    (48 ≤ c.val ∧ c.val ≤ 57) ∨ (97 ≤ c.val ∧ c.val ≤ 122) ∨ (65 ≤ c.val ∧ c.val ≤ 90) ∨
      c.val = 46 ∨ c.val = 43 ∨ c.val = 45 := by
  have dot : '.'.toNat = 46 := rfl
  have plus : '+'.toNat = 43 := rfl
  have dash : '-'.toNat = 45 := rfl
  simp only [isRangeChar, Bool.or_eq_true, CodePoint.isDigit_iff, CodePoint.isLower_iff,
    CodePoint.isUpper_iff, beq_iff_eq, CodePoint.eq_ofChar_iff, dot, plus, dash, or_assoc]

theorem clause_char_not_space {c : CodePoint} (h : isClauseChar c = true) : c.isSpace = false := by
  have gt : '>'.toNat = 62 := rfl
  have lt : '<'.toNat = 60 := rfl
  have eq : '='.toNat = 61 := rfl
  have bang : '!'.toNat = 33 := rfl
  simp only [isClauseChar, Bool.or_eq_true, isRangeChar_iff, beq_iff_eq, CodePoint.eq_ofChar_iff,
    gt, lt, eq, bang] at h
  simp only [← Bool.not_eq_true, CodePoint.isSpace, Bool.or_eq_true, Bool.and_eq_true,
    decide_eq_true_eq, beq_iff_eq]
  omega

theorem clause_char_ne_comma {c : CodePoint} (h : isClauseChar c = true) : c ≠ .ofChar ',' := by
  rintro rfl
  exact absurd h (by decide)

theorem operator_chars {operator : Text} (among : operator ∈ operators) :
    operator ≠ [] ∧ operator.all isClauseChar = true := by
  simp only [operators, List.mem_cons, List.not_mem_nil, or_false] at among
  rcases among with rfl | rfl | rfl | rfl | rfl | rfl
  all_goals decide

theorem clause_chars {clause : Text} (h : IsClause clause) :
    clause ≠ [] ∧ ∀ c ∈ clause, isClauseChar c = true := by
  obtain ⟨operator, among, version, rfl, valid⟩ := h
  have named := operator_chars among
  constructor
  · exact List.append_ne_nil_of_left_ne_nil named.1 version
  · intro c mem
    rcases List.mem_append.mp mem with first | later
    · exact List.all_eq_true.mp named.2 c first
    · rw [isClauseChar, range_of_semver valid c later]
      rfl

/-! ## Clauses -/

theorem semver_ne_nil {version : Text} (h : IsSemver version) : version ≠ [] := by
  rintro rfl
  rw [IsSemver] at h
  exact absurd h (by decide)

theorem restOfClause_eq {t : Text} (nonempty : t ≠ []) (h : ∀ c ∈ t, isClauseChar c = true) :
    restOfClause t = some t := by
  have noNewline : CodePoint.ofChar '\n' ∉ t := by
    intro mem
    exact absurd (h _ mem) (by decide)
  have unended : Text.endsWith (text "\n") t = false := by
    rw [Text.endsWith, ← Bool.not_eq_true, List.isSuffixOf_iff_suffix]
    intro suffix
    exact noNewline (suffix.mem (by decide))
  simp [restOfClause, unended, nonempty, noNewline]

/-- The operator that is found first is the whole operator: no version starts with `=`. -/
theorem matchClause_eq {operator version : Text} (among : operator ∈ operators)
    (valid : IsSemver version) : matchClause (operator ++ version) = some version := by
  have range := range_of_semver valid
  have rest := restOfClause_eq (semver_ne_nil valid) fun c mem => by
    rw [isClauseChar, range c mem]
    rfl
  cases version with
  | nil => exact absurd rfl (semver_ne_nil valid)
  | cons c more =>
      have noEquals : CodePoint.ofChar '=' ≠ c := by
        rintro rfl
        exact absurd (range _ List.mem_cons_self) (by decide)
      simp only [operators, List.mem_cons, List.not_mem_nil, or_false] at among
      rcases among with rfl | rfl | rfl | rfl | rfl | rfl
      all_goals
        simp +decide [matchClause, Text.startsWith, text, List.cons_prefix_cons, noEquals,
          rest]

/-- A clause that both let pass is an operator and a version. -/
theorem clause_of_accepted {clause version : Text} (matched : matchClause clause = some version)
    (valid : IsSemver version) (chars : ∀ c ∈ clause, isClauseChar c = true) : IsClause clause := by
  obtain ⟨operator, among, found⟩ := List.exists_of_findSome?_eq_some matched
  split at found
  · rename_i starts
    obtain ⟨rest, rfl⟩ := List.isPrefixOf_iff_prefix.mp starts
    rw [List.drop_left] at found
    have nonempty : rest ≠ [] := by
      rintro rfl
      cases found
    rw [restOfClause_eq nonempty fun c mem => chars c (List.mem_append_right operator mem)] at found
    cases found
    exact ⟨operator, among, version, rfl, valid⟩
  · cases found

/-- The pattern of the schema keeps every character of a clause in its place. -/
theorem chars_of_pattern {s clause : Text} (pattern : isRangePattern s = true)
    (among : clause ∈ Text.splitOn (.ofChar ',') s) : ∀ c ∈ clause, isClauseChar c = true := by
  have each := List.all_eq_true.mp pattern clause among
  obtain ⟨operator, named, here⟩ := List.any_eq_true.mp each
  simp only [Bool.and_eq_true] at here
  obtain ⟨⟨starts, -⟩, rest⟩ := here
  obtain ⟨rest', rfl⟩ := List.isPrefixOf_iff_prefix.mp starts
  rw [List.drop_left] at rest
  intro c mem
  rcases List.mem_append.mp mem with first | later
  · exact List.all_eq_true.mp (operator_chars named).2 c first
  · rw [isClauseChar, List.all_eq_true.mp rest c later]
    rfl

/-! ## Both checks together -/

theorem splitOn_clauses {clauses : List Text} (some_ : clauses ≠ [])
    (each : ∀ clause ∈ clauses, IsClause clause) :
    Text.splitOn (.ofChar ',') (List.intercalate (text ",") clauses) = clauses :=
  Text.splitOn_intercalate some_ fun clause mem comma =>
    clause_char_ne_comma ((clause_chars (each clause mem)).2 _ comma) rfl

theorem no_space_in_clauses {s : Text} (h : IsClauseList s) : ∀ c ∈ s, c.isSpace = false := by
  obtain ⟨clauses, some_, rfl, each⟩ := h
  intro c mem
  rcases Text.mem_of_splitOn (.ofChar ',') mem with rfl | ⟨clause, among, inside⟩
  · decide
  · rw [splitOn_clauses some_ each] at among
    exact clause_char_not_space ((clause_chars (each clause among)).2 c inside)

theorem range_of_clauses {s : Text} (h : IsClauseList s) : IsRange s := by
  have visible := no_space_in_clauses h
  have stripped : Text.strip s = s :=
    Text.strip_of_ends (fun c first => visible c (List.mem_of_head? first))
      fun c last => visible c (List.mem_of_getLast? last)
  obtain ⟨clauses, some_, rfl, each⟩ := h
  have pieces := splitOn_clauses some_ each
  have nonempty : List.intercalate (text ",") clauses ≠ [] := by
    intro empty
    rw [empty] at pieces
    exact (clause_chars (each [] (by simp [← pieces, Text.splitOn]))).1 rfl
  refine ⟨⟨nonempty, stripped.symm, fun clause mem => ?_⟩, ?_⟩
  · rw [pieces] at mem
    obtain ⟨operator, among, version, rfl, valid⟩ := each clause mem
    exact ⟨version, matchClause_eq among valid, valid⟩
  · rw [searched, isRangePattern, pieces, Bool.or_eq_true]
    refine .inl (List.all_eq_true.mpr fun clause mem => ?_)
    obtain ⟨operator, among, version, rfl, valid⟩ := each clause mem
    refine List.any_eq_true.mpr ⟨operator, among, ?_⟩
    have long := List.length_pos_of_ne_nil (semver_ne_nil valid)
    have range := List.all_eq_true.mpr (range_of_semver valid)
    simp [Text.startsWith, range, long]

theorem clauses_of_range {s : Text} (h : IsRange s) : IsClauseList s := by
  obtain ⟨⟨nonempty, stripped, clauses⟩, pattern⟩ := h
  -- `$` lets the pattern end before a final newline, and a stripped text has none
  have exact_ : isRangePattern s = true := by
    rw [searched, Bool.or_eq_true, Bool.and_eq_true] at pattern
    rcases pattern with whole | ⟨ends, -⟩
    · exact whole
    · obtain ⟨front, rfl⟩ := List.isSuffixOf_iff_suffix.mp ends
      have newline := Text.getLast_of_strip stripped (.ofChar '\n') (by simp [text])
      exact absurd newline (by decide)
  refine ⟨Text.splitOn (.ofChar ',') s, Text.splitOn_ne_nil _ s,
    (Text.intercalate_splitOn (.ofChar ',') s).symm, fun clause mem => ?_⟩
  obtain ⟨version, matched, valid⟩ := clauses clause mem
  exact clause_of_accepted matched valid (chars_of_pattern exact_ mem)

/-- `_version_range` and the pattern of the schema together accept the lists of clauses, in which
    there is no white space. -/
theorem version_ranges_exact (s origin : Text) :
    (_version_range (.str s) origin = .ok s ∧ versionRangeSchema (.str s) = true ↔
        IsClauseList s) ∧
      (IsClauseList s → ∀ c ∈ s, c.isSpace = false) := by
  have both : _version_range (.str s) origin = .ok s ∧ versionRangeSchema (.str s) = true ↔
      IsRange s := by
    rw [version_range_ok]
    constructor
    · rintro ⟨⟨-, clauses⟩, pattern⟩
      exact ⟨clauses, pattern⟩
    · intro range
      exact ⟨⟨rfl, range.clauses⟩, range.pattern⟩
  exact ⟨both.trans ⟨clauses_of_range, range_of_clauses⟩, no_space_in_clauses⟩

/-! The check of the code lets a line break before a comma pass, the pattern one at the end. -/

example : (_version_range (.str (text ">=1.0.0\n,<2.0.0")) []).isOk = true ∧
    versionRangeSchema (.str (text ">=1.0.0\n,<2.0.0")) = false := by decide

example : (_version_range (.str (text ">=1.0.0\n")) []).isOk = false ∧
    versionRangeSchema (.str (text ">=1.0.0\n")) = true := by decide

end PackageRegistry
