import PackageRegistry.Lib.JsonRoundTrip

/-! # Texts as UTF-8 files

A text has a UTF-8 encoding if it holds no surrogate, and then the bytes decode to the
text. The canonical text of a JSON value can be encoded if the strings of the value can:
everything that the writer adds is ASCII.
-/

namespace Text

def isSurrogate (c : CodePoint) : Bool := 0xd800 ≤ c.val && c.val ≤ 0xdfff

def Encodable (t : Text) : Prop := ∀ c ∈ t, isSurrogate c = false

instance (t : Text) : Decidable (Encodable t) := List.decidableBAll (isSurrogate · = false) t

/-- `str.encode("utf-8")`, with nothing where it raises -/
def encode (t : Text) : Option ByteArray :=
  if Encodable t then some (String.ofList (t.map fun c => Char.ofNat c.val)).toByteArray else none

/-- `bytes.decode("utf-8")` -/
def decode (bytes : ByteArray) : Option Text :=
  (String.fromUTF8? bytes).map text

theorem ofChar_ofNat {c : CodePoint} (h : isSurrogate c = false) :
    CodePoint.ofChar (Char.ofNat c.val) = c := by
  have valid : c.val.isValidChar := by
    simp only [isSurrogate, Bool.and_eq_false_iff, decide_eq_false_iff_not, not_le] at h
    have bound := c.isLt
    rcases h with low | high
    · exact .inl low
    · exact .inr ⟨high, bound⟩
  apply Fin.ext
  rw [CodePoint.val_ofChar, Char.ofNat, dif_pos valid]
  rfl

theorem decode_encode {t : Text} {bytes : ByteArray} (h : encode t = some bytes) :
    decode bytes = some t := by
  unfold encode at h
  split at h
  · rename_i encodable
    cases h
    have same : t.map (CodePoint.ofChar ∘ fun c : CodePoint => Char.ofNat c.val) = t.map id :=
      List.map_congr_left fun c mem => ofChar_ofNat (encodable c mem)
    have valid := (String.ofList (t.map fun c => Char.ofNat c.val)).isValidUTF8
    rw [decode, String.fromUTF8?, dif_pos valid, Option.map_some, Option.some.injEq]
    have read : text (String.ofList (t.map fun c => Char.ofNat c.val)) =
        t.map (CodePoint.ofChar ∘ fun c : CodePoint => Char.ofNat c.val) := by
      rw [text, String.toList_ofList, List.map_map]
    rw [same, List.map_id] at read
    exact read
  · cases h

theorem encode_isSome {t : Text} : (encode t).isSome = true ↔ Encodable t := by
  unfold encode
  split <;> simp [*]

theorem encodable_append {s t : Text} : Encodable (s ++ t) ↔ Encodable s ∧ Encodable t :=
  List.forall_mem_append

theorem encodable_cons {c : CodePoint} {t : Text} :
    Encodable (c :: t) ↔ isSurrogate c = false ∧ Encodable t :=
  List.forall_mem_cons

theorem encodable_ascii {t : Text} (h : ∀ c ∈ t, c.val < 128) : Encodable t := by
  intro c mem
  have small := h c mem
  simp only [isSurrogate, Bool.and_eq_false_iff, decide_eq_false_iff_not]
  omega

/-- The code of an ASCII character is its byte. -/
theorem encode_cons_ascii {c : CodePoint} (low : c.val < 128) {t : Text} {bytes : ByteArray}
    (encoded : encode (c :: t) = some bytes) :
    ∃ rest, encode t = some rest ∧ bytes.data.toList = UInt8.ofNat c.val :: rest.data.toList := by
  have valid : c.val.isValidChar := .inl (by omega)
  have code : (Char.ofNat c.val).val.toNat = c.val := by
    rw [Char.ofNat, dif_pos valid]
    rfl
  have one : String.utf8EncodeChar (Char.ofNat c.val) = [UInt8.ofNat c.val] := by
    simp only [String.utf8EncodeChar, code]
    rw [if_pos (by omega)]
  unfold encode at encoded ⊢
  split at encoded
  · rename_i encodable
    cases encoded
    refine ⟨_, if_pos (encodable_cons.mp encodable).2, ?_⟩
    rw [List.map_cons, String.toByteArray_ofList, String.toByteArray_ofList, List.utf8Encode_cons,
      List.utf8Encode_singleton, one, ByteArray.data_append, Array.toList_append]
    rfl
  · cases encoded

theorem ascii_digits {t : Text} (h : ∀ c ∈ t, c.isDigit = true) : ∀ c ∈ t, c.val < 128 := by
  intro c mem
  have range := (CodePoint.isDigit_iff c).mp (h c mem)
  omega

end Text

namespace Json

mutual

/-- All strings of a value, the keys among them -/
def strings : Json → List Text
  | .str s => [s]
  | .arr items => stringsOfItems items
  | .obj fields => stringsOfFields fields
  | _ => []

def stringsOfItems : List Json → List Text
  | [] => []
  | v :: rest => strings v ++ stringsOfItems rest

def stringsOfFields : List (Text × Json) → List Text
  | [] => []
  | (key, v) :: rest => key :: (strings v ++ stringsOfFields rest)

end

theorem mem_stringsOfItems {s : Text} {items : List Json} :
    s ∈ stringsOfItems items ↔ ∃ v ∈ items, s ∈ strings v := by
  induction items with
  | nil => simp [stringsOfItems]
  | cons v rest ih => simp [stringsOfItems, ih]

theorem mem_stringsOfFields {s : Text} {fields : List (Text × Json)} :
    s ∈ stringsOfFields fields ↔ ∃ f ∈ fields, s = f.1 ∨ s ∈ strings f.2 := by
  induction fields with
  | nil => simp [stringsOfFields]
  | cons f rest ih => simp [stringsOfFields, ih, or_assoc]

/-- Sorting the fields keeps the strings. -/
theorem mem_strings_sortKeys {s : Text} {v : Json} :
    s ∈ strings v.sortKeys ↔ s ∈ strings v := by
  induction v using induct with
  | null | bool | int | float | str => rfl
  | arr items ih =>
      simp only [sortKeys, sortItems_eq, strings, mem_stringsOfItems, List.mem_map]
      constructor
      · rintro ⟨_, ⟨v, mem, rfl⟩, inside⟩
        exact ⟨v, mem, (ih v mem).mp inside⟩
      · rintro ⟨v, mem, inside⟩
        exact ⟨_, ⟨v, mem, rfl⟩, (ih v mem).mpr inside⟩
  | obj fields ih =>
      simp only [sortKeys, sortFields_eq, strings, mem_stringsOfFields,
        (byKey_perm _).mem_iff, List.mem_map]
      constructor
      · rintro ⟨_, ⟨f, mem, rfl⟩, inside⟩
        exact ⟨f, mem, inside.imp_right (ih f mem).mp⟩
      · rintro ⟨f, mem, inside⟩
        exact ⟨_, ⟨f, mem, rfl⟩, inside.imp_right (ih f mem).mpr⟩

/-! ## What the writer adds -/

theorem encodable_escape (c : CodePoint) :
    Text.Encodable (escape c) ↔ Text.isSurrogate c = false := by
  have control {n : Nat} (low : c.val = n) (small : n < 128) : Text.isSurrogate c = false := by
    simp only [Text.isSurrogate, low, Bool.and_eq_false_iff, decide_eq_false_iff_not]
    omega
  unfold escape
  split_ifs with quote backslash feed return_ tab form back low
  · rw [quote]
    decide
  · rw [backslash]
    decide
  · rw [feed]
    decide
  · rw [return_]
    decide
  · rw [tab]
    decide
  · exact iff_of_true (by decide) (control form (by decide))
  · exact iff_of_true (by decide) (control back (by decide))
  · refine iff_of_true (Text.encodable_append.mpr ⟨by decide, ?_⟩) (control rfl (by omega))
    obtain ⟨n, isDigit⟩ : ∃ n, n = c.val ∧ n < 32 := ⟨c.val, rfl, low⟩
    rw [← isDigit.1]
    have all : ∀ n < 32, Text.Encodable [hexDigit (n / 16), hexDigit (n % 16)] := by decide
    exact all n isDigit.2
  · simp [Text.Encodable]

theorem encodable_quoted (s : Text) : Text.Encodable (quoted s) ↔ Text.Encodable s := by
  have characters : Text.Encodable (s.flatMap escape) ↔ Text.Encodable s := by
    induction s with
    | nil => simp
    | cons c rest ih =>
        rw [List.flatMap_cons, Text.encodable_append, encodable_escape, ih, Text.encodable_cons]
  have mark : Text.isSurrogate (.ofChar '"') = false := by decide
  rw [quoted, stringTail, Text.encodable_cons, Text.encodable_append, characters]
  simp [mark, Text.Encodable]

theorem encodable_ofNat (n : Nat) : Text.Encodable (Text.ofNat n) :=
  Text.encodable_ascii (Text.ascii_digits (Text.isDigit_ofNat n))

theorem encodable_layout {digits : Text} (h : Text.Encodable digits) (point : Int) :
    Text.Encodable (Double.layout digits point) := by
  have zeros (n : Nat) : Text.Encodable (List.replicate n (.ofChar '0')) := by
    intro c mem
    rw [(List.mem_replicate.mp mem).2]
    decide
  have front (n : Nat) : Text.Encodable (digits.take n) :=
    fun c mem => h c (List.mem_of_mem_take mem)
  have back (n : Nat) : Text.Encodable (digits.drop n) :=
    fun c mem => h c (List.mem_of_mem_drop mem)
  unfold Double.layout
  split
  · split
    · split_ifs
      · exact Text.encodable_append.mpr ⟨by decide, h⟩
      · simp only [Text.encodable_append]
        exact ⟨⟨h, zeros _⟩, by decide⟩
      · simp only [Text.encodable_append]
        exact ⟨⟨front _, by decide⟩, back _⟩
    · simp only [Text.encodable_append]
      exact ⟨⟨by decide, zeros _⟩, h⟩
  · have sign : Text.Encodable (text (if point - 1 < 0 then "-" else "+")) := by
      split_ifs <;> decide
    have mantissa :
        Text.Encodable (if digits.length = 1 then [] else text "." ++ digits.drop 1) := by
      split_ifs
      · decide
      · exact Text.encodable_append.mpr ⟨by decide, back 1⟩
    have power (shown : Text) (ascii : Text.Encodable shown) :
        Text.Encodable (if shown.length = 1 then text "0" ++ shown else shown) := by
      split_ifs
      · exact Text.encodable_append.mpr ⟨by decide, ascii⟩
      · exact ascii
    simp only [Text.encodable_append]
    exact ⟨⟨⟨⟨front 1, mantissa⟩, by decide⟩, sign⟩, power _ (encodable_ofNat _)⟩

theorem encodable_repr (d : Double) : Text.Encodable d.repr := by
  cases d with
  | nan => decide
  | infinite negative => cases negative <;> decide
  | finite negative significand exponent =>
      have sign : Text.Encodable (text (if negative then "-" else "")) := by
        cases negative <;> decide
      refine Text.encodable_append.mpr ⟨sign, ?_⟩
      split_ifs
      · decide
      · refine encodable_layout (fun c mem => ?_) _
        rw [List.mem_reverse] at mem
        exact encodable_ofNat _ c (List.mem_reverse.mp ((List.dropWhile_sublist _).subset mem))

theorem encodable_newline (level : Nat) : Text.Encodable (newline level) := by
  refine Text.encodable_cons.mpr ⟨by decide, fun c mem => ?_⟩
  rw [(List.mem_replicate.mp mem).2]
  decide

theorem encodable_comma {α : Type} (rest : List α) : Text.Encodable (comma rest) := by
  unfold comma
  split <;> decide

theorem encodable_items {level : Nat} {items : List Json}
    (h : ∀ v ∈ items,
      (Text.Encodable (render level v) ↔ ∀ s ∈ strings v, Text.Encodable s)) :
    Text.Encodable (renderItems level items) ↔ ∀ s ∈ stringsOfItems items, Text.Encodable s := by
  induction items with
  | nil => simp [renderItems, stringsOfItems, Text.Encodable]
  | cons v rest ih =>
      rw [List.forall_mem_cons] at h
      simp only [renderItems, stringsOfItems, Text.encodable_append, List.forall_mem_append, h.1,
        ih h.2, encodable_newline, encodable_comma, true_and, and_true]

theorem encodable_fields {level : Nat} {fields : List (Text × Json)}
    (h : ∀ f ∈ fields,
      (Text.Encodable (render level f.2) ↔ ∀ s ∈ strings f.2, Text.Encodable s)) :
    Text.Encodable (renderFields level fields) ↔ ∀ s ∈ stringsOfFields fields, Text.Encodable s := by
  have colon : Text.Encodable (text ": ") := by decide
  induction fields with
  | nil => simp [renderFields, stringsOfFields, Text.Encodable]
  | cons f rest ih =>
      rw [List.forall_mem_cons] at h
      simp only [renderFields, stringsOfFields, Text.encodable_append, List.forall_mem_append,
        List.forall_mem_cons, h.1, ih h.2, encodable_newline, encodable_comma, encodable_quoted,
        colon, true_and, and_true, and_assoc]

theorem encodable_render (level : Nat) (v : Json) :
    Text.Encodable (render level v) ↔ ∀ s ∈ strings v, Text.Encodable s := by
  induction v using induct generalizing level with
  | null => simp +decide [render]
  | bool value => cases value <;> simp +decide [render]
  | int value =>
      have written : Text.Encodable (ofInt value) := by
        unfold ofInt
        split_ifs
        · exact Text.encodable_cons.mpr ⟨by decide, encodable_ofNat _⟩
        · exact encodable_ofNat _
      simpa [render, strings] using written
  | float d => simpa [render, strings] using encodable_repr d
  | str s => simpa [render, strings] using encodable_quoted s
  | arr items ih =>
      have members := encodable_items fun v mem => ih v mem (level + 1)
      have start : Text.isSurrogate (.ofChar '[') = false := by decide
      have stop : Text.Encodable (text "]") := by decide
      cases items with
      | nil => simp +decide [render]
      | cons v rest =>
          simp only [render, strings, List.cons_append, Text.encodable_cons, Text.encodable_append,
            members, encodable_newline, start, stop, true_and, and_true]
  | obj fields ih =>
      have members := encodable_fields fun f mem => ih f mem (level + 1)
      have start : Text.isSurrogate (.ofChar '{') = false := by decide
      have stop : Text.Encodable (text "\x7d") := by decide
      cases fields with
      | nil => simp +decide [render]
      | cons f rest =>
          simp only [render, strings, List.cons_append, Text.encodable_cons, Text.encodable_append,
            members, encodable_newline, start, stop, true_and, and_true]

/-- The canonical text can be encoded if and only if every string of the value can. -/
theorem encodable_canonical_json (v : Json) :
    Text.Encodable (canonical_json v) ↔ ∀ s ∈ strings v, Text.Encodable s := by
  have last : Text.Encodable (text "\n") := by decide
  rw [canonical_json, Text.encodable_append, encodable_render]
  simp only [mem_strings_sortKeys, last, and_true]

end Json
