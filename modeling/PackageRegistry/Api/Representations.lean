import PackageRegistry.Lib.JsonEquality
import PackageRegistry.Registry.Completeness

/-! # Which representation a client asks for

`wants_v2` of `api/representations.py`, and what an `Accept` header means however it is
written.
-/

namespace PackageRegistry.Api

/-! ## `float` of a text -/

/-- Digits, with single underscores between them -/
def digitpart (t : Text) : Option Text :=
  let groups := Text.splitOn (.ofChar '_') t
  if groups.all fun group => !group.isEmpty && group.all CodePoint.isDigit then some groups.flatten
  else none

def signed (t : Text) : Bool × Text :=
  match t with
  | c :: rest =>
      if c = .ofChar '-' then (true, rest)
      else if c = .ofChar '+' then (false, rest)
      else (false, t)
  | [] => (false, [])

/-- The part before or after the point, which may be missing -/
def optionalDigits (t : Text) : Option Text :=
  if t.isEmpty then some [] else digitpart t

def exponentOf : Option Text → Option Int
  | none => some 0
  | some t =>
      let (negative, digits) := signed t
      (digitpart digits).map fun digits =>
        if negative then -(Text.toNat digits : Int) else Text.toNat digits

def floatNumber (negative : Bool) (t : Text) : Option Double := do
  let (mantissa, exponent) := Text.partition (.ofChar 'e') t
  let (whole, fraction) := Text.partition (.ofChar '.') mantissa
  let whole ← optionalDigits whole
  let fraction ← optionalDigits (fraction.getD [])
  let power ← exponentOf exponent
  if whole.isEmpty && fraction.isEmpty then none
  else some (.ofDecimal negative (Text.toNat (whole ++ fraction)) (power - fraction.length))

/-- `float` of a text in small letters, with nothing where it raises a `ValueError` -/
def float (t : Text) : Option Double :=
  let (negative, number) := signed (Text.strip t)
  if number = text "inf" ∨ number = text "infinity" then some (.infinite negative)
  else if number = text "nan" then some .nan
  else floatNumber negative number

example : float (text " 0.5") = float (text "5_0e-2") := by decide

/-! ## Negotiation -/

def MEDIA_TYPE : Text := text "application/vnd.ocp.registry.v2+json"

def JSON_TYPE : Text := text "application/json"

/-- `quality if 0 <= quality <= 1 else 0.0` -/
def acceptable (quality : Double) : ℚ :=
  match quality.numeric with
  | .rational q => if 0 ≤ q ∧ q ≤ 1 then q else 0
  | _ => 0

def readParameter (quality : Double) (parameter : Text) : Double :=
  let parameter := Text.strip parameter
  if Text.startsWith (text "q=") parameter then
    (float (parameter.drop 2)).getD (.finite false 0 0)
  else quality

variable (lib : Library)

def readEntry (entry : Text) : Text × ℚ :=
  match Text.splitOn (.ofChar ';') (lib.lowercase (Text.strip entry)) with
  | media :: parameters => (media, acceptable (parameters.foldl readParameter .one))
  | [] => ([], 0)

/-- The items of the dictionary, as they are put in -/
def readAccept (accept : Text) : List (Text × ℚ) :=
  (Text.splitOn (.ofChar ',') accept).map (readEntry lib)

/-- `qualities.get(media, 0)`: an item replaces what was there before. -/
def quality (qualities : List (Text × ℚ)) (media : Text) : ℚ :=
  (qualities.reverse.lookup media).getD 0

def wants_v2 (accept : Option Text) : Bool :=
  let qualities := readAccept lib (accept.getD [])
  decide (0 < quality qualities MEDIA_TYPE ∧
    quality qualities JSON_TYPE ≤ quality qualities MEDIA_TYPE)

/-! ## What a header means -/

/-- `OWS` of RFC 9110 -/
def isBlank (c : CodePoint) : Bool := c == .ofChar ' ' || c == .ofChar '\t'

def separators : Text := text "\"(),/:;<=>?@[\\]\x7b\x7d"

/-- A character of a token -/
def isTokenChar (c : CodePoint) : Bool :=
  33 ≤ c.val && c.val ≤ 126 && !separators.contains c

/-- A parameter, with the white space around its semicolon -/
structure Parameter where
  before : Text
  after : Text
  name : Text
  value : Text
  before_blank : ∀ c ∈ before, isBlank c = true
  after_blank : ∀ c ∈ after, isBlank c = true
  name_token : name ≠ [] ∧ ∀ c ∈ name, isTokenChar c = true
  value_token : value ≠ [] ∧ ∀ c ∈ value, isTokenChar c = true

/-- A media range with its parameters, and with the white space around it -/
structure MediaRange where
  leading : Text
  media : Text
  parameters : List Parameter
  trailing : Text
  leading_blank : ∀ c ∈ leading, isBlank c = true
  media_token : media ≠ [] ∧ ∀ c ∈ media, isTokenChar c = true ∨ c = .ofChar '/'
  trailing_blank : ∀ c ∈ trailing, isBlank c = true

def Parameter.written (p : Parameter) : Text :=
  p.before ++ text ";" ++ (p.after ++ p.name ++ text "=" ++ p.value)

def MediaRange.written (m : MediaRange) : Text :=
  m.leading ++ (m.media ++ (m.parameters.map Parameter.written).flatten) ++ m.trailing

def header (ranges : List MediaRange) : Text :=
  List.intercalate (text ",") (ranges.map MediaRange.written)

/-- The last `q` counts, as `float` reads it; what is not a number from 0 to 1 counts as 0. -/
def qualityOf (parameters : List Parameter) : ℚ :=
  match parameters.reverse.find? fun p => p.name.map lowerAscii == text "q" with
  | some p => ((float (p.value.map lowerAscii)).map acceptable).getD 0
  | none => 1

/-- What a media range says, whatever its white space and its capitals -/
def MediaRange.meaning (m : MediaRange) : Text × ℚ :=
  (m.media.map lowerAscii, qualityOf m.parameters)

/-- The vendor type is listed with a quality that is positive and not below that of
    `application/json`. -/
def Selected (entries : List (Text × ℚ)) : Prop :=
  0 < quality entries MEDIA_TYPE ∧ quality entries MEDIA_TYPE ≤ 1 ∧
    quality entries JSON_TYPE ≤ quality entries MEDIA_TYPE

instance (entries : List (Text × ℚ)) : Decidable (Selected entries) :=
  inferInstanceAs (Decidable (_ ∧ _))

/-- The same entries, those with one media range in the same order -/
def Rearranged (entries entries' : List (Text × ℚ)) : Prop :=
  ∀ media, (entries.filter (·.1 == media)) = entries'.filter (·.1 == media)

/-- The header selects what it means, as it does when its entries are rearranged. -/
def Follows (ranges : List MediaRange) : Prop :=
  ∀ entries, Rearranged entries (ranges.map MediaRange.meaning) →
    (wants_v2 lib (some (header ranges)) = true ↔ Selected entries)

/-- Whether no white space stands before the first semicolon -/
def MediaRange.isTight (m : MediaRange) : Bool :=
  m.parameters.head?.all fun p => p.before.isEmpty

/-- Without the media ranges that have white space before their first semicolon, the header would
    mean something else. -/
def Misread (ranges : List MediaRange) : Prop :=
  ¬(Selected ((ranges.filter MediaRange.isTight).map MediaRange.meaning) ↔
    Selected (ranges.map MediaRange.meaning))

/-! ## Characters -/

theorem blank_space {c : CodePoint} (h : isBlank c = true) : c.isSpace = true := by
  rw [isBlank, Bool.or_eq_true, beq_iff_eq, beq_iff_eq] at h
  rcases h with rfl | rfl
  all_goals decide

theorem lower_blank {c : CodePoint} (h : isBlank c = true) : lowerAscii c = c := by
  rw [isBlank, Bool.or_eq_true, beq_iff_eq, beq_iff_eq] at h
  rcases h with rfl | rfl
  all_goals decide

/-- A character of a token, a slash or an equals sign -/
def isPlain (c : CodePoint) : Bool := isTokenChar c || c == .ofChar '/' || c == .ofChar '='

theorem plain_of_token {c : CodePoint} (h : isTokenChar c = true) : isPlain c = true := by
  rw [isPlain, h]
  rfl

theorem visible_of_plain {c : CodePoint} (h : isPlain c = true) : 33 ≤ c.val ∧ c.val ≤ 126 := by
  simp only [isPlain, isTokenChar, Bool.or_eq_true, Bool.and_eq_true, decide_eq_true_eq,
    beq_iff_eq] at h
  rcases h with (⟨range, -⟩ | rfl) | rfl
  · exact range
  · decide
  · decide

theorem plain_not_space {c : CodePoint} (h : isPlain c = true) : c.isSpace = false := by
  have range := visible_of_plain h
  simp only [← Bool.not_eq_true, CodePoint.isSpace, Bool.or_eq_true, Bool.and_eq_true,
    decide_eq_true_eq, beq_iff_eq]
  omega

theorem val_lowerAscii (c : CodePoint) :
    (lowerAscii c).val = if 65 ≤ c.val ∧ c.val ≤ 90 then c.val + 32 else c.val := by
  by_cases upper : c.isUpper = true
  · have range := (CodePoint.isUpper_iff c).mp upper
    rw [lowerAscii, if_pos upper, if_pos range, CodePoint.ofNat, Fin.val_ofNat]
    omega
  · rw [lowerAscii, if_neg upper, if_neg fun range => upper ((CodePoint.isUpper_iff c).mpr range)]

theorem separator_val {c : CodePoint} (mem : c ∈ separators) :
    c.val < 65 ∨ (91 ≤ c.val ∧ c.val ≤ 93) ∨ 123 ≤ c.val := by
  have each : (separators.all fun c => c.val < 65 || (91 ≤ c.val && c.val ≤ 93) || 123 ≤ c.val) =
      true := by decide
  have here := List.all_eq_true.mp each c mem
  simp only [Bool.or_eq_true, Bool.and_eq_true, decide_eq_true_eq] at here
  omega

theorem token_lower {c : CodePoint} (h : isTokenChar c = true) : isTokenChar (lowerAscii c) = true := by
  by_cases upper : 65 ≤ c.val ∧ c.val ≤ 90
  · have value := val_lowerAscii c
    rw [if_pos upper] at value
    have letter : lowerAscii c ∉ separators := by
      intro mem
      have range := separator_val mem
      omega
    simp only [isTokenChar, Bool.and_eq_true, decide_eq_true_eq, Bool.not_eq_true',
      List.contains_eq_mem, decide_eq_false_iff_not]
    exact ⟨⟨by omega, by omega⟩, letter⟩
  · have same : lowerAscii c = c := by
      have value := val_lowerAscii c
      rw [if_neg upper] at value
      exact Fin.ext value
    rwa [same]

theorem token_ne {c : CodePoint} (h : isTokenChar c = true) :
    c ≠ .ofChar ',' ∧ c ≠ .ofChar ';' ∧ c ≠ .ofChar '=' := by
  refine ⟨?_, ?_, ?_⟩
  all_goals
    rintro rfl
    exact absurd h (by decide)

/-! ## Parameters -/

def Parameter.gap (p : Parameter) : Text := p.before.map lowerAscii

/-- Name and value, in small letters -/
def Parameter.core (p : Parameter) : Text :=
  p.name.map lowerAscii ++ text "=" ++ p.value.map lowerAscii

/-- What follows the semicolon, in small letters -/
def Parameter.tail (p : Parameter) : Text := p.after.map lowerAscii ++ p.core

def gapOf : List Parameter → Text
  | [] => []
  | p :: _ => p.gap

/-- The pieces that `split` finds after the media range: each ends with the gap before the next. -/
def pieces : List Parameter → List Text
  | [] => []
  | p :: rest => (p.tail ++ gapOf rest) :: pieces rest

theorem gap_blank (p : Parameter) : ∀ c ∈ p.gap, isBlank c = true := by
  intro c mem
  obtain ⟨d, inside, rfl⟩ := List.mem_map.mp mem
  rw [lower_blank (p.before_blank d inside)]
  exact p.before_blank d inside

theorem gapOf_blank (ps : List Parameter) : ∀ c ∈ gapOf ps, isBlank c = true := by
  cases ps with
  | nil => exact fun c mem => absurd mem List.not_mem_nil
  | cons p rest => exact gap_blank p

theorem lowered_token {t : Text} (h : ∀ c ∈ t, isTokenChar c = true) :
    ∀ c ∈ t.map lowerAscii, isTokenChar c = true := by
  intro c mem
  obtain ⟨d, inside, rfl⟩ := List.mem_map.mp mem
  exact token_lower (h d inside)

theorem core_plain (p : Parameter) : ∀ c ∈ p.core, isPlain c = true ∧ c ≠ .ofChar ';' := by
  intro c mem
  simp only [Parameter.core, List.mem_append] at mem
  rcases mem with (name | equals) | value
  · have token := lowered_token p.name_token.2 c name
    exact ⟨plain_of_token token, (token_ne token).2.1⟩
  · rw [show text "=" = [.ofChar '='] from rfl, List.mem_singleton] at equals
    rw [equals]
    exact ⟨by decide, by decide⟩
  · have token := lowered_token p.value_token.2 c value
    exact ⟨plain_of_token token, (token_ne token).2.1⟩

theorem tail_no_semicolon (p : Parameter) : CodePoint.ofChar ';' ∉ p.tail := by
  rw [Parameter.tail, List.mem_append, not_or]
  constructor
  · intro mem
    obtain ⟨d, inside, same⟩ := List.mem_map.mp mem
    rw [lower_blank (p.after_blank d inside)] at same
    exact absurd (same ▸ p.after_blank d inside) (by decide)
  · exact fun mem => (core_plain p _ mem).2 rfl

theorem splitOn_parameters {x : Text} (free : CodePoint.ofChar ';' ∉ x) (ps : List Parameter) :
    Text.splitOn (.ofChar ';') (x ++ ((ps.map Parameter.written).flatten).map lowerAscii) =
      (x ++ gapOf ps) :: pieces ps := by
  induction ps generalizing x with
  | nil =>
      simp only [List.map_nil, List.flatten_nil, List.append_nil, gapOf, pieces]
      exact Text.splitOn_of_absent free
  | cons p rest ih =>
      have free' : CodePoint.ofChar ';' ∉ x ++ p.gap := by
        rw [List.mem_append, not_or]
        exact ⟨free, fun mem => absurd (gap_blank p _ mem) (by decide)⟩
      have shape : x ++ (((p :: rest).map Parameter.written).flatten).map lowerAscii =
          (x ++ p.gap) ++ .ofChar ';' ::
            (p.tail ++ ((rest.map Parameter.written).flatten).map lowerAscii) := by
        have semicolon : (text ";").map lowerAscii = [.ofChar ';'] := by decide
        have equals : (text "=").map lowerAscii = text "=" := by decide
        simp [Parameter.written, Parameter.gap, Parameter.tail, Parameter.core, semicolon, equals]
      rw [shape, Text.splitOn_append free', ih (tail_no_semicolon p)]
      rfl

/-- What a parameter makes of the quality -/
def Parameter.assign (quality : Double) (p : Parameter) : Double :=
  if p.name.map lowerAscii = text "q" then
    (float (p.value.map lowerAscii)).getD (.finite false 0 0)
  else quality

theorem strip_tail (p : Parameter) {spaces : Text} (blank : ∀ c ∈ spaces, isBlank c = true) :
    Text.strip (p.tail ++ spaces) = p.core := by
  have visible : ∀ c ∈ p.core, c.isSpace = false := fun c mem => plain_not_space (core_plain p c mem).1
  rw [Parameter.tail]
  refine Text.strip_around (fun c mem => ?_) (fun c mem => blank_space (blank c mem)) ?_
    (fun c first => visible c (List.mem_of_head? first))
    fun c last => visible c (List.mem_of_getLast? last)
  · obtain ⟨d, inside, rfl⟩ := List.mem_map.mp mem
    rw [lower_blank (p.after_blank d inside)]
    exact blank_space (p.after_blank d inside)
  · simp [Parameter.core, text]

/-- A name is `q` if and only if `q=` stands at the front: no name holds an equals sign. -/
theorem core_starts (p : Parameter) :
    Text.startsWith (text "q=") p.core = true ↔ p.name.map lowerAscii = text "q" := by
  have token := lowered_token p.name_token.2
  have nonempty : p.name.map lowerAscii ≠ [] := by simpa using p.name_token.1
  rw [Parameter.core, Text.startsWith, List.isPrefixOf_iff_prefix]
  generalize p.name.map lowerAscii = name at token nonempty
  rcases name with - | ⟨c, - | ⟨d, rest⟩⟩
  · exact absurd rfl nonempty
  · simp [text, List.cons_prefix_cons, eq_comm]
  · have equals := (token_ne (token d (by simp))).2.2
    simp [text, List.cons_prefix_cons, equals.symm]

theorem readParameter_tail (quality : Double) (p : Parameter) {spaces : Text}
    (blank : ∀ c ∈ spaces, isBlank c = true) :
    readParameter quality (p.tail ++ spaces) = p.assign quality := by
  rw [readParameter, strip_tail p blank, Parameter.assign]
  by_cases named : p.name.map lowerAscii = text "q"
  · have value : p.core.drop 2 = p.value.map lowerAscii := by
      rw [Parameter.core, named]
      rfl
    simp only [(core_starts p).mpr named, named, value, if_true]
  · rw [if_neg named, if_neg fun starts => named ((core_starts p).mp starts)]

theorem foldl_pieces (quality : Double) (ps : List Parameter) :
    (pieces ps).foldl readParameter quality = ps.foldl Parameter.assign quality := by
  induction ps generalizing quality with
  | nil => rfl
  | cons p rest ih =>
      rw [pieces, List.foldl_cons, readParameter_tail quality p (gapOf_blank rest), ih]
      rfl

theorem acceptable_one : acceptable .one = 1 := by
  have numeric : Double.one.numeric = .rational (((2 ^ 52 : Nat) : ℚ) / 2 ^ (51 + 1)) := rfl
  norm_num [acceptable, numeric]

theorem acceptable_zero : acceptable (.finite false 0 0) = 0 := by
  norm_num [acceptable, Double.numeric]

theorem qualityOf_eq (ps : List Parameter) :
    acceptable (ps.foldl Parameter.assign .one) = qualityOf ps := by
  induction ps using List.reverseRecOn with
  | nil => exact acceptable_one
  | append_singleton ps p ih =>
      rw [List.foldl_append, qualityOf, List.reverse_append]
      by_cases named : p.name.map lowerAscii = text "q"
      · have value : Parameter.assign (ps.foldl Parameter.assign .one) p =
            (float (p.value.map lowerAscii)).getD (.finite false 0 0) := if_pos named
        simp only [List.foldl_cons, List.foldl_nil, value, List.reverse_singleton,
          List.singleton_append, List.find?_cons, named, beq_self_eq_true]
        cases float (p.value.map lowerAscii) with
        | none => exact acceptable_zero
        | some d => rfl
      · have kept : Parameter.assign (ps.foldl Parameter.assign .one) p =
            ps.foldl Parameter.assign .one := if_neg named
        simp only [List.foldl_cons, List.foldl_nil, kept, List.reverse_singleton,
          List.singleton_append, List.find?_cons, beq_false_of_ne named]
        exact ih

/-! ## Entries -/

theorem acceptable_le_one (quality : Double) : acceptable quality ≤ 1 := by
  unfold acceptable
  split
  · split
    · rename_i bounds
      exact bounds.2
    · norm_num
  · norm_num

theorem qualityOf_le_one (ps : List Parameter) : qualityOf ps ≤ 1 := by
  rw [← qualityOf_eq]
  exact acceptable_le_one _

def MediaRange.body (m : MediaRange) : Text :=
  m.media ++ (m.parameters.map Parameter.written).flatten

/-- The media range as the dictionary has it -/
def MediaRange.key (m : MediaRange) : Text := m.media.map lowerAscii ++ gapOf m.parameters

/-- A text that ends visibly still does so after parameters. -/
theorem ends_visibly {x : Text} (nonempty : x ≠ []) (last : ∀ c ∈ x.getLast?, c.isSpace = false)
    (ps : List Parameter) :
    ∀ c ∈ (x ++ (ps.map Parameter.written).flatten).getLast?, c.isSpace = false := by
  induction ps generalizing x with
  | nil => simpa using last
  | cons p rest ih =>
      rw [List.map_cons, List.flatten_cons, ← List.append_assoc]
      refine ih (by simp [nonempty]) fun c ended => ?_
      rw [Parameter.written, ← List.append_assoc, ← List.append_assoc,
        List.getLast?_append_of_ne_nil _ p.value_token.1] at ended
      exact plain_not_space (plain_of_token (p.value_token.2 c (List.mem_of_getLast? ended)))

theorem strip_written (m : MediaRange) : Text.strip m.written = m.body := by
  have visible : ∀ c ∈ m.media, c.isSpace = false := by
    intro c mem
    refine plain_not_space ?_
    rcases m.media_token.2 c mem with token | rfl
    · exact plain_of_token token
    · decide
  refine Text.strip_around (fun c mem => blank_space (m.leading_blank c mem))
    (fun c mem => blank_space (m.trailing_blank c mem)) (by simp [m.media_token.1])
    (fun c first => ?_)
    (ends_visibly m.media_token.1 (fun c last => visible c (List.mem_of_getLast? last)) m.parameters)
  rw [List.head?_append_of_ne_nil _ m.media_token.1] at first
  exact visible c (List.mem_of_head? first)

theorem isAscii_iff (c : CodePoint) : c.isAscii = true ↔ c.val < 128 := decide_eq_true_iff

theorem ascii_of_blank {c : CodePoint} (h : isBlank c = true) : c.isAscii = true := by
  rw [isBlank, Bool.or_eq_true, beq_iff_eq, beq_iff_eq] at h
  rcases h with rfl | rfl
  all_goals decide

theorem ascii_of_plain {c : CodePoint} (h : isPlain c = true) : c.isAscii = true := by
  have range := visible_of_plain h
  exact (isAscii_iff c).mpr (by omega)

theorem written_chars (p : Parameter) :
    ∀ c ∈ p.written, c.isAscii = true ∧ c ≠ .ofChar ',' := by
  intro c mem
  simp only [Parameter.written, List.mem_append, show text ";" = [.ofChar ';'] from rfl,
    show text "=" = [.ofChar '='] from rfl, List.mem_singleton] at mem
  have blank {d : CodePoint} (h : isBlank d = true) : d.isAscii = true ∧ d ≠ .ofChar ',' := by
    refine ⟨ascii_of_blank h, ?_⟩
    rintro rfl
    exact absurd h (by decide)
  have token {d : CodePoint} (h : isTokenChar d = true) : d.isAscii = true ∧ d ≠ .ofChar ',' :=
    ⟨ascii_of_plain (plain_of_token h), (token_ne h).1⟩
  rcases mem with (before | rfl) | ((after | name) | rfl) | value
  · exact blank (p.before_blank c before)
  · decide
  · exact blank (p.after_blank c after)
  · exact token (p.name_token.2 c name)
  · decide
  · exact token (p.value_token.2 c value)

theorem body_chars (m : MediaRange) : ∀ c ∈ m.body, c.isAscii = true ∧ c ≠ .ofChar ',' := by
  intro c mem
  rcases List.mem_append.mp mem with media | parameters
  · rcases m.media_token.2 c media with token | rfl
    · exact ⟨ascii_of_plain (plain_of_token token), (token_ne token).1⟩
    · decide
  · obtain ⟨piece, among, inside⟩ := List.mem_flatten.mp parameters
    obtain ⟨p, -, rfl⟩ := List.mem_map.mp among
    exact written_chars p c inside

theorem media_no_semicolon (m : MediaRange) : CodePoint.ofChar ';' ∉ m.media.map lowerAscii := by
  intro mem
  obtain ⟨d, inside, same⟩ := List.mem_map.mp mem
  rcases m.media_token.2 d inside with token | rfl
  · exact (token_ne (token_lower token)).2.1 same
  · exact absurd same (by decide)

theorem readEntry_written (m : MediaRange) :
    readEntry lib m.written = (m.key, qualityOf m.parameters) := by
  have ascii : m.body.all CodePoint.isAscii = true :=
    List.all_eq_true.mpr fun c mem => (body_chars m c mem).1
  have lowered : lib.lowercase m.body =
      m.media.map lowerAscii ++ ((m.parameters.map Parameter.written).flatten).map lowerAscii := by
    rw [Library.lowercase, if_pos ascii, MediaRange.body, List.map_append]
  simp only [readEntry, strip_written, lowered, splitOn_parameters (media_no_semicolon m),
    foldl_pieces, qualityOf_eq, MediaRange.key]

theorem comma_not_written (m : MediaRange) : CodePoint.ofChar ',' ∉ m.written := by
  have blank {t : Text} (h : ∀ c ∈ t, isBlank c = true) : CodePoint.ofChar ',' ∉ t := fun mem =>
    absurd (h _ mem) (by decide)
  rw [MediaRange.written, List.mem_append, List.mem_append, not_or, not_or]
  exact ⟨⟨blank m.leading_blank, fun mem => (body_chars m _ mem).2 rfl⟩, blank m.trailing_blank⟩

/-- An empty header has one entry, which names no media range. -/
theorem readAccept_header (ranges : List MediaRange) : readAccept lib (header ranges) =
    if ranges = [] then [([], 1)]
    else ranges.map fun m => (m.key, qualityOf m.parameters) := by
  split
  · rename_i none_
    rw [none_]
    simp [readAccept, header, List.intercalate, Text.splitOn, readEntry, Library.lowercase,
      Text.strip, Text.stripLeft, acceptable_one]
  · rename_i some_
    have absent : ∀ piece ∈ ranges.map MediaRange.written, CodePoint.ofChar ',' ∉ piece := by
      intro piece mem
      obtain ⟨m, -, rfl⟩ := List.mem_map.mp mem
      exact comma_not_written m
    have split : Text.splitOn (.ofChar ',') (header ranges) = ranges.map MediaRange.written :=
      Text.splitOn_intercalate (by simpa using some_) absent
    rw [readAccept, split, List.map_map]
    exact List.map_congr_left fun m _ => readEntry_written lib m

/-! ## The dictionary -/

theorem key_of_tight {m : MediaRange} (tight : m.isTight = true) : m.key = m.media.map lowerAscii := by
  rw [MediaRange.key]
  rw [MediaRange.isTight] at tight
  cases parameters : m.parameters with
  | nil => rw [gapOf, List.append_nil]
  | cons p rest =>
      rw [parameters, List.head?_cons, Option.all_some, List.isEmpty_iff] at tight
      rw [gapOf, Parameter.gap, tight, List.map_nil, List.append_nil]

/-- The key of a media range with white space after it holds this white space. -/
theorem blank_in_key {m : MediaRange} (loose : m.isTight = false) : ∃ c ∈ m.key, isBlank c = true := by
  rw [MediaRange.key]
  rw [MediaRange.isTight] at loose
  cases parameters : m.parameters with
  | nil => simp [parameters] at loose
  | cons p rest =>
      rw [parameters, List.head?_cons, Option.all_some] at loose
      obtain ⟨c, others, gap⟩ := List.exists_cons_of_ne_nil (l := p.before) fun empty => by
        simp [empty] at loose
      have first := p.before_blank c (by simp [gap])
      exact ⟨c, by simp [gapOf, Parameter.gap, gap, lower_blank first], first⟩

theorem lookup_tight {media : Text} (visible : ∀ c ∈ media, isBlank c = false)
    (ranges : List MediaRange) :
    (ranges.map fun m => (m.key, qualityOf m.parameters)).lookup media =
      ((ranges.filter MediaRange.isTight).map MediaRange.meaning).lookup media := by
  induction ranges with
  | nil => rfl
  | cons m rest ih =>
      rw [List.map_cons, List.lookup_cons, List.filter_cons]
      cases tight : m.isTight with
      | true =>
          rw [if_pos rfl, List.map_cons, List.lookup_cons, ih, key_of_tight tight]
          rfl
      | false =>
          obtain ⟨c, inside, blank⟩ := blank_in_key tight
          have other : (media == m.key) = false := by
            refine beq_false_of_ne ?_
            rintro rfl
            rw [visible c inside] at blank
            cases blank
          rw [other, ih]
          rfl

theorem quality_readAccept {media : Text} (visible : ∀ c ∈ media, isBlank c = false)
    (named : media ≠ []) (ranges : List MediaRange) :
    quality (readAccept lib (header ranges)) media =
      quality ((ranges.filter MediaRange.isTight).map MediaRange.meaning) media := by
  rw [readAccept_header]
  split
  · rename_i none_
    have other : (media == []) = false := beq_false_of_ne named
    simp [none_, quality, List.lookup_cons, other]
  · rw [quality, quality, ← List.map_reverse, ← List.map_reverse, ← List.filter_reverse,
      lookup_tight visible]

theorem quality_le_one (ranges : List MediaRange) (media : Text) :
    quality (ranges.map MediaRange.meaning) media ≤ 1 := by
  rw [quality]
  cases found : ((ranges.map MediaRange.meaning).reverse.lookup media) with
  | none => norm_num
  | some q =>
      have mem := List.mem_reverse.mp (Json.mem_of_lookup found)
      obtain ⟨m, -, same⟩ := List.mem_map.mp mem
      have value : qualityOf m.parameters = q := (Prod.ext_iff.mp same).2
      rw [Option.getD_some, ← value]
      exact qualityOf_le_one m.parameters

theorem lookup_filter (entries : List (Text × ℚ)) (media : Text) :
    (entries.filter (·.1 == media)).lookup media = entries.lookup media := by
  induction entries with
  | nil => rfl
  | cons entry rest ih =>
      rw [List.filter_cons, List.lookup_cons, BEq.comm (a := media)]
      cases here : entry.1 == media with
      | true => rw [if_pos rfl, List.lookup_cons, BEq.comm (a := media), here]
      | false => exact ih

/-- The quality of a media range rests on its own entries. -/
theorem quality_congr {entries entries' : List (Text × ℚ)} {media : Text}
    (same : entries.filter (·.1 == media) = entries'.filter (·.1 == media)) :
    quality entries media = quality entries' media := by
  rw [quality, quality, ← lookup_filter, ← lookup_filter entries'.reverse, List.filter_reverse,
    List.filter_reverse, same]

theorem selected_rearranged {entries entries' : List (Text × ℚ)}
    (same : Rearranged entries entries') : Selected entries ↔ Selected entries' := by
  rw [Selected, Selected, quality_congr (same MEDIA_TYPE), quality_congr (same JSON_TYPE)]

theorem wants_v2_iff (ranges : List MediaRange) : wants_v2 lib (some (header ranges)) = true ↔
    Selected ((ranges.filter MediaRange.isTight).map MediaRange.meaning) := by
  have visible {media : Text} (h : (media.all fun c => !isBlank c) = true) :
      ∀ c ∈ media, isBlank c = false := by simpa using h
  have vendor : ∀ c ∈ MEDIA_TYPE, isBlank c = false := visible (by decide)
  have json : ∀ c ∈ JSON_TYPE, isBlank c = false := visible (by decide)
  simp only [wants_v2, Option.getD_some, decide_eq_true_eq, Selected,
    quality_readAccept lib vendor (by decide), quality_readAccept lib json (by decide),
    quality_le_one, true_and]

/-- Nothing is misread where the entries for the two types have no white space there. -/
theorem not_misread {ranges : List MediaRange}
    (tight : ∀ m ∈ ranges, m.meaning.1 = MEDIA_TYPE ∨ m.meaning.1 = JSON_TYPE → m.isTight = true) :
    ¬Misread ranges := by
  have kept (media : Text) (either : media = MEDIA_TYPE ∨ media = JSON_TYPE) :
      quality ((ranges.filter MediaRange.isTight).map MediaRange.meaning) media =
        quality (ranges.map MediaRange.meaning) media := by
    have same : (ranges.map MediaRange.meaning).filter (·.1 == media) =
        ((ranges.filter MediaRange.isTight).map MediaRange.meaning).filter (·.1 == media) := by
      rw [List.filter_map, List.filter_map, List.filter_filter]
      refine congrArg _ (List.filter_congr fun m mem => ?_)
      by_cases here : m.meaning.1 = media
      · rw [tight m mem (here ▸ either), Bool.and_true]
      · simp [here]
    exact (quality_congr same).symm
  rw [Misread, not_not, Selected, Selected, kept _ (.inl rfl), kept _ (.inr rfl)]

/-- `application/vnd.ocp.registry.v2+json ; q=1` -/
def spaced : MediaRange where
  leading := []
  media := MEDIA_TYPE
  parameters :=
    [{ before := text " "
       after := text " "
       name := text "q"
       value := text "1"
       before_blank := List.all_eq_true.mp (by decide)
       after_blank := List.all_eq_true.mp (by decide)
       name_token := ⟨by decide, List.all_eq_true.mp (by decide)⟩
       value_token := ⟨by decide, List.all_eq_true.mp (by decide)⟩ }]
  trailing := []
  leading_blank := by simp
  media_token := by
    have chars : (MEDIA_TYPE.all fun c => isTokenChar c || c == .ofChar '/') = true := by decide
    exact ⟨by decide, by simpa using chars⟩
  trailing_blank := by simp

end PackageRegistry.Api
