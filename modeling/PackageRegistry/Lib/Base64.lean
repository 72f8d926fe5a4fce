import PackageRegistry.Lib.Text

/-! # Base64

`base64.b64decode` without validation: characters outside the alphabet are skipped, and a
complete padding ends the text.
-/

namespace Base64

def sextet (c : CodePoint) : Option Nat :=
  if c.isUpper then some (c.val - 65)
  else if c.isLower then some (c.val - 71)
  else if c.isDigit then some (c.val + 4)
  else if c = .ofChar '+' then some 62
  else if c = .ofChar '/' then some 63
  else none

/-- The bytes that follow `quad_pos` sextets of a group, of which `leftchar` has the bits that
    are in no byte yet -/
def decodeFrom (quad_pos leftchar pads : Nat) : Text → Option (List UInt8)
  | [] => if quad_pos = 0 then some [] else none
  | c :: rest =>
      if c = .ofChar '=' then
        if 2 ≤ quad_pos ∧ 4 ≤ quad_pos + (pads + 1) then some []
        else decodeFrom quad_pos leftchar (if 2 ≤ quad_pos then pads + 1 else pads) rest
      else
        match sextet c with
        | none => decodeFrom quad_pos leftchar pads rest
        | some v =>
            match quad_pos with
            | 0 => decodeFrom 1 v 0 rest
            | 1 => (decodeFrom 2 (v % 16) 0 rest).map (.ofNat (leftchar * 4 + v / 16) :: ·)
            | 2 => (decodeFrom 3 (v % 4) 0 rest).map (.ofNat (leftchar * 16 + v / 4) :: ·)
            | _ => (decodeFrom 0 0 0 rest).map (.ofNat (leftchar * 64 + v) :: ·)

/-- A text that is not ASCII raises a `ValueError`, as wrong padding does. -/
def b64decode (t : Text) : Option ByteArray :=
  if t.all CodePoint.isAscii then (decodeFrom 0 0 0 t).map fun bytes => ⟨bytes.toArray⟩
  else none

example : b64decode (text "aGk\n=") = some ⟨#[104, 105]⟩ := by decide

/-! ## Encoding -/

def char (n : Nat) : CodePoint :=
  if n < 26 then .ofNat (n + 65)
  else if n < 52 then .ofNat (n + 71)
  else if n < 62 then .ofNat (n - 4)
  else if n = 62 then .ofChar '+'
  else .ofChar '/'

/-- The characters of the bytes without a padding -/
def unpadded : List UInt8 → Text
  | [] => []
  | [a] => [char (a.toNat / 4), char (a.toNat % 4 * 16)]
  | [a, b] =>
      [char (a.toNat / 4), char (a.toNat % 4 * 16 + b.toNat / 16), char (b.toNat % 16 * 4)]
  | a :: b :: c :: rest =>
      char (a.toNat / 4) :: char (a.toNat % 4 * 16 + b.toNat / 16) ::
        char (b.toNat % 16 * 4 + c.toNat / 64) :: char (c.toNat % 64) :: unpadded rest

/-- `"=" * (-len(t) % 4)` -/
def padding (t : Text) : Text :=
  List.replicate ((4 - t.length % 4) % 4) (.ofChar '=')

def b64encode (bytes : List UInt8) : Text :=
  unpadded bytes ++ padding (unpadded bytes)

def urlsafe (c : CodePoint) : CodePoint :=
  if c = .ofChar '+' then .ofChar '-' else if c = .ofChar '/' then .ofChar '_' else c

def standard (c : CodePoint) : CodePoint :=
  if c = .ofChar '-' then .ofChar '+' else if c = .ofChar '_' then .ofChar '/' else c

def urlsafe_b64encode (bytes : List UInt8) : Text :=
  (b64encode bytes).map urlsafe

def urlsafe_b64decode (t : Text) : Option ByteArray :=
  b64decode (t.map standard)

/-! ## What is encoded is decoded again -/

/-- A character of the alphabet -/
structure InAlphabet (c : CodePoint) : Prop where
  ascii : c.isAscii = true
  noPad : c ≠ .ofChar '='
  asciiSafe : (urlsafe c).isAscii = true
  noPadSafe : urlsafe c ≠ .ofChar '='
  back : standard (urlsafe c) = c

theorem inAlphabet_char {n : Nat} (small : n < 64) : InAlphabet (char n) := by
  have all : ∀ m : Fin 64, (char m).isAscii = true ∧ char m ≠ .ofChar '=' ∧
      (urlsafe (char m)).isAscii = true ∧ urlsafe (char m) ≠ .ofChar '=' ∧
      standard (urlsafe (char m)) = char m := by decide
  obtain ⟨ascii, noPad, asciiSafe, noPadSafe, back⟩ := all ⟨n, small⟩
  exact ⟨ascii, noPad, asciiSafe, noPadSafe, back⟩

theorem sextet_char {n : Nat} (small : n < 64) : sextet (char n) = some n := by
  have all : ∀ m : Fin 64, sextet (char m) = some m.val := by decide
  exact all ⟨n, small⟩

theorem inAlphabet_unpadded (bytes : List UInt8) : ∀ c ∈ unpadded bytes, InAlphabet c := by
  induction bytes using unpadded.induct with
  | case1 => exact nofun
  | case2 a =>
      have := a.toNat_lt
      simp only [unpadded, List.forall_mem_cons, List.not_mem_nil, false_implies, implies_true,
        and_true]
      exact ⟨inAlphabet_char (by omega), inAlphabet_char (by omega)⟩
  | case3 a b =>
      have := a.toNat_lt
      have := b.toNat_lt
      simp only [unpadded, List.forall_mem_cons, List.not_mem_nil, false_implies, implies_true,
        and_true]
      exact ⟨inAlphabet_char (by omega), inAlphabet_char (by omega), inAlphabet_char (by omega)⟩
  | case4 a b c rest ih =>
      have := a.toNat_lt
      have := b.toNat_lt
      have := c.toNat_lt
      simp only [unpadded, List.forall_mem_cons]
      exact ⟨inAlphabet_char (by omega), inAlphabet_char (by omega), inAlphabet_char (by omega),
        inAlphabet_char (by omega), ih⟩

/-! The four characters of a group -/

section

variable {leftchar pads n : Nat}

theorem decode_first (small : n < 64) (rest : Text) :
    decodeFrom 0 leftchar pads (char n :: rest) = decodeFrom 1 n 0 rest := by
  rw [decodeFrom, if_neg (inAlphabet_char small).noPad, sextet_char small]
  rfl

theorem decode_second (small : n < 64) (rest : Text) :
    decodeFrom 1 leftchar pads (char n :: rest) =
      (decodeFrom 2 (n % 16) 0 rest).map (.ofNat (leftchar * 4 + n / 16) :: ·) := by
  rw [decodeFrom, if_neg (inAlphabet_char small).noPad, sextet_char small]
  rfl

theorem decode_third (small : n < 64) (rest : Text) :
    decodeFrom 2 leftchar pads (char n :: rest) =
      (decodeFrom 3 (n % 4) 0 rest).map (.ofNat (leftchar * 16 + n / 4) :: ·) := by
  rw [decodeFrom, if_neg (inAlphabet_char small).noPad, sextet_char small]
  rfl

theorem decode_fourth (small : n < 64) (rest : Text) :
    decodeFrom 3 leftchar pads (char n :: rest) =
      (decodeFrom 0 0 0 rest).map (.ofNat (leftchar * 64 + n) :: ·) := by
  rw [decodeFrom, if_neg (inAlphabet_char small).noPad, sextet_char small]
  rfl

end

theorem ofNat_toNat {n : Nat} {a : UInt8} (same : n = a.toNat) : UInt8.ofNat n = a := by
  rw [same, UInt8.ofNat_toNat]

theorem first_byte (a : UInt8) {y : Nat} (low : y / 16 = a.toNat % 4) :
    UInt8.ofNat (a.toNat / 4 * 4 + y / 16) = a :=
  ofNat_toNat (by omega)

theorem second_byte (b : UInt8) {x y : Nat} (high : x % 16 = b.toNat / 16)
    (low : y / 4 = b.toNat % 16) : UInt8.ofNat (x % 16 * 16 + y / 4) = b :=
  ofNat_toNat (by omega)

theorem third_byte (c : UInt8) {x : Nat} (high : x % 4 = c.toNat / 64) :
    UInt8.ofNat (x % 4 * 64 + c.toNat % 64) = c :=
  ofNat_toNat (by omega)

/-- The padding does not see a complete group. -/
theorem padding_group (c d e f : CodePoint) (t : Text) :
    padding (c :: d :: e :: f :: t) = padding t := by
  have same : (t.length + 1 + 1 + 1 + 1) % 4 = t.length % 4 := by omega
  simp only [padding, List.length_cons, same]

theorem decodeFrom_unpadded (bytes : List UInt8) :
    decodeFrom 0 0 0 (unpadded bytes ++ padding (unpadded bytes)) = some bytes := by
  induction bytes using unpadded.induct with
  | case1 => rfl
  | case2 a =>
      have := a.toNat_lt
      have ended : decodeFrom 2 (a.toNat % 4 * 16 % 16) 0 [.ofChar '=', .ofChar '='] = some [] := rfl
      rw [unpadded, List.cons_append, List.cons_append, decode_first (by omega),
        decode_second (by omega)]
      refine (congrArg _ ended).trans ?_
      rw [Option.map_some, first_byte a (by omega)]
  | case3 a b =>
      have := a.toNat_lt
      have := b.toNat_lt
      have ended : decodeFrom 3 (b.toNat % 16 * 4 % 4) 0 [.ofChar '='] = some [] := rfl
      rw [unpadded, List.cons_append, List.cons_append, List.cons_append, decode_first (by omega),
        decode_second (by omega), decode_third (by omega)]
      refine (congrArg (fun t => Option.map _ (Option.map _ t)) ended).trans ?_
      rw [Option.map_some, Option.map_some, first_byte a (by omega),
        second_byte b (by omega) (by omega)]
  | case4 a b c rest ih =>
      have := a.toNat_lt
      have := b.toNat_lt
      have := c.toNat_lt
      rw [unpadded, padding_group, List.cons_append, List.cons_append, List.cons_append,
        List.cons_append, decode_first (by omega), decode_second (by omega),
        decode_third (by omega), decode_fourth (by omega), ih, Option.map_some, Option.map_some,
        Option.map_some, first_byte a (by omega), second_byte b (by omega) (by omega),
        third_byte c (by omega)]

/-! ## Without the padding -/

/-- `t.rstrip("=")` -/
def stripPadding (t : Text) : Text :=
  (t.reverse.dropWhile (· == .ofChar '=')).reverse

theorem stripPadding_append {t : Text} (noPad : ∀ c ∈ t, c ≠ .ofChar '=') (n : Nat) :
    stripPadding (t ++ List.replicate n (.ofChar '=')) = t := by
  have stops : t.reverse.dropWhile (· == .ofChar '=') = t.reverse := by
    cases back : t.reverse with
    | nil => rfl
    | cons c rest =>
        have last : c ≠ .ofChar '=' := noPad c (by
          rw [← List.mem_reverse, back]
          exact List.mem_cons_self)
        rw [List.dropWhile_cons_of_neg (by simpa using last)]
  rw [stripPadding, List.reverse_append, List.reverse_replicate, List.dropWhile_append]
  simp [stops]

/-- The text that is left when the padding of an encoding is stripped -/
theorem stripPadding_encode (bytes : List UInt8) :
    stripPadding (urlsafe_b64encode bytes) = (unpadded bytes).map urlsafe := by
  have noPad : ∀ c ∈ (unpadded bytes).map urlsafe, c ≠ .ofChar '=' := by
    intro c mem
    obtain ⟨d, here, rfl⟩ := List.mem_map.mp mem
    exact (inAlphabet_unpadded bytes d here).noPadSafe
  have pad : (padding (unpadded bytes)).map urlsafe =
      List.replicate ((4 - (unpadded bytes).length % 4) % 4) (.ofChar '=') := by
    rw [padding, List.map_replicate]
    rfl
  rw [urlsafe_b64encode, b64encode, List.map_append, pad, stripPadding_append noPad]

theorem ascii_stripped (bytes : List UInt8) :
    ∀ c ∈ stripPadding (urlsafe_b64encode bytes), c.isAscii = true := by
  rw [stripPadding_encode]
  intro c mem
  obtain ⟨d, here, rfl⟩ := List.mem_map.mp mem
  exact (inAlphabet_unpadded bytes d here).asciiSafe

/-- The stripped encoding is read once it is padded again. -/
theorem urlsafe_b64decode_stripped (bytes : List UInt8) :
    urlsafe_b64decode (stripPadding (urlsafe_b64encode bytes) ++
      padding (stripPadding (urlsafe_b64encode bytes))) = some ⟨bytes.toArray⟩ := by
  have back : ((unpadded bytes).map urlsafe).map standard = unpadded bytes := by
    rw [List.map_map]
    exact (List.map_congr_left fun c mem => (inAlphabet_unpadded bytes c mem).back).trans
      (List.map_id _)
  have pad : (padding ((unpadded bytes).map urlsafe)).map standard = padding (unpadded bytes) := by
    rw [padding, List.map_replicate, List.length_map]
    rfl
  have ascii : (unpadded bytes ++ padding (unpadded bytes)).all CodePoint.isAscii = true := by
    rw [List.all_append, Bool.and_eq_true, List.all_eq_true, List.all_eq_true]
    refine ⟨fun c mem => (inAlphabet_unpadded bytes c mem).ascii, fun c mem => ?_⟩
    rw [List.eq_of_mem_replicate mem]
    rfl
  rw [stripPadding_encode, urlsafe_b64decode, List.map_append, back, pad, b64decode, if_pos ascii,
    decodeFrom_unpadded, Option.map_some]

end Base64
