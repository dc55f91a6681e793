import Terrain.Proofs.Decode

/-!
# Hexadecimal texts

The text of bytes is read back as the bytes, and texts are ordered as their bytes are: the digits
ascend with their values, and every byte has two of them.

* `decode_encode`    what was written is read;
* `encode_lt_iff`    the order of texts is the order of bytes;
* `chars_of_decode`  what is read was written, in either case;
* `parse_text`, `parse_ok_iff`, `text_lt_iff`    the same for digests.
-/

namespace Terrain.Text.Hex

open List

def digitByte (n : Nat) : UInt8 := (hexDigit n).val.toUInt8

section
variable {m n : Nat}

theorem hexDigit_lt_iff (hm : m < 16) (hn : n < 16) : hexDigit m < hexDigit n ↔ m < n := by
  have each : ∀ m n : Fin 16, hexDigit m < hexDigit n ↔ m < n := by decide
  exact each ⟨m, hm⟩ ⟨n, hn⟩

theorem hexDigit_inj (hm : m < 16) (hn : n < 16) : hexDigit m = hexDigit n ↔ m = n := by
  have each : ∀ m n : Fin 16, hexDigit m = hexDigit n ↔ m.val = n.val := by decide
  exact each ⟨m, hm⟩ ⟨n, hn⟩

theorem digit?_digitByte (hn : n < 16) : digit? (digitByte n) = some (UInt8.ofNat n) := by
  have each : ∀ n : Fin 16, digit? (digitByte n) = some (UInt8.ofNat n) := by decide
  exact each ⟨n, hn⟩

theorem utf8EncodeChar_hexDigit (hn : n < 16) :
    String.utf8EncodeChar (hexDigit n) = [digitByte n] := by
  have each : ∀ n : Fin 16, (hexDigit n).utf8Size = 1 := by decide
  exact String.utf8EncodeChar_eq_singleton (each ⟨n, hn⟩)

end

theorem high_lt (b : UInt8) : b.toNat / 16 < 16 := Nat.div_lt_of_lt_mul b.toNat_lt

theorem low_lt (b : UInt8) : b.toNat % 16 < 16 := Nat.mod_lt _ (by decide)

theorem ofNat_digits (b : UInt8) :
    UInt8.ofNat (b.toNat / 16) * 16 + UInt8.ofNat (b.toNat % 16) = b := by
  apply UInt8.toNat_inj.1
  have small := b.toNat_lt
  simp only [UInt8.toNat_add, UInt8.toNat_mul, UInt8.toNat_ofNat']
  have sixteen : (16 : UInt8).toNat = 16 := rfl
  rw [sixteen]
  omega

/-! ## reading -/

def digitBytes (bytes : List UInt8) : List UInt8 :=
  bytes.flatMap fun b => [digitByte (b.toNat / 16), digitByte (b.toNat % 16)]

theorem utf8_encode (bytes : List UInt8) :
    (encode bytes).flatMap String.utf8EncodeChar = digitBytes bytes := by
  induction bytes with
  | nil => rfl
  | cons b bytes ih =>
    rw [encode_cons, flatMap_cons, flatMap_cons, ih, utf8EncodeChar_hexDigit (high_lt b),
      utf8EncodeChar_hexDigit (low_lt b)]
    rfl

theorem toUTF8_ofList (cs : List Char) :
    (String.ofList cs).toUTF8.toList = cs.flatMap String.utf8EncodeChar := by
  rw [Hash.Token.toUTF8_toList]
  show (String.ofList cs).toByteArray.data.toList = _
  rw [String.toByteArray_ofList, List.utf8Encode, data_toByteArray]

theorem decode_digitBytes (bytes : List UInt8) : decode (digitBytes bytes) = .ok bytes := by
  induction bytes with
  | nil => rfl
  | cons b bytes ih =>
    show decode (digitByte (b.toNat / 16) :: digitByte (b.toNat % 16) :: digitBytes bytes) = _
    unfold decode
    rw [digit?_digitByte (high_lt b), digit?_digitByte (low_lt b), ih]
    show Except.ok ((UInt8.ofNat (b.toNat / 16) * 16 + UInt8.ofNat (b.toNat % 16)) :: bytes) = _
    rw [ofNat_digits]

theorem ofText_toText (bytes : List UInt8) : ofText (toText bytes) = .ok bytes := by
  unfold ofText toText
  rw [toUTF8_ofList, utf8_encode, decode_digitBytes]

/-! ## digits of either case -/

def isDigit (c : Char) : Bool :=
  ('0' ≤ c ∧ c ≤ '9') ∨ ('a' ≤ c ∧ c ≤ 'f') ∨ ('A' ≤ c ∧ c ≤ 'F')

theorem char_of_digit? {b v : UInt8} (h : digit? b = some v) :
    ∃ c, isDigit c = true ∧ String.utf8EncodeChar c = [b] ∧ c.toLower = hexDigit v.toNat ∧
      v.toNat < 16 := by
  have each : ∀ n : Fin 256, (digit? (UInt8.ofNat n)).all fun w => isDigit (Char.ofNat n) = true ∧
      (Char.ofNat n).utf8Size = 1 ∧ (Char.ofNat n).val.toUInt8 = UInt8.ofNat n ∧
        (Char.ofNat n).toLower = hexDigit w.toNat ∧ w.toNat < 16 := by decide +kernel
  have own := each ⟨b.toNat, b.toNat_lt⟩
  rw [UInt8.ofNat_toNat, h] at own
  obtain ⟨digit, size, byte, lower, small⟩ := of_decide_eq_true own
  refine ⟨Char.ofNat b.toNat, digit, ?_, lower, small⟩
  rw [String.utf8EncodeChar_eq_singleton size, byte]

theorem digit?_char {c : Char} (h : isDigit c = true) :
    ∃ b v, String.utf8EncodeChar c = [b] ∧ digit? b = some v := by
  have each : ∀ n : Fin 128, isDigit (Char.ofNat n) = true → (Char.ofNat n).utf8Size = 1 ∧
      (digit? (Char.ofNat n).val.toUInt8).isSome = true := by decide
  have small : c.toNat < 128 := by
    have below {d : Char} (le : c ≤ d) (ascii : d.toNat < 128) : c.toNat < 128 :=
      (UInt32.le_iff_toNat_le.1 le).trans_lt ascii
    rcases of_decide_eq_true h with range | range | range <;> exact below range.2 (by decide)
  obtain ⟨size, digit⟩ := each ⟨c.toNat, small⟩ (by rw [Char.ofNat_toNat]; exact h)
  rw [Char.ofNat_toNat] at size digit
  obtain ⟨v, read⟩ := Option.isSome_iff_exists.1 digit
  exact ⟨_, v, String.utf8EncodeChar_eq_singleton size, read⟩

theorem length_encode (bytes : List UInt8) : (encode bytes).length = 2 * bytes.length := by
  induction bytes with
  | nil => rfl
  | cons b bytes ih =>
    rw [encode_cons, length_cons, length_cons, ih, length_cons]
    omega

theorem decode_pair {a b : UInt8} {rest out : List UInt8} (h : decode (a :: b :: rest) = .ok out) :
    ∃ x y more, digit? a = some x ∧ digit? b = some y ∧ decode rest = .ok more ∧
      out = (x * 16 + y) :: more := by
  unfold decode at h
  cases first : digit? a with
  | none => simp [first] at h
  | some x =>
    cases second : digit? b with
    | none => simp [first, second] at h
    | some y =>
      cases read : decode rest with
      | error e => simp [first, second, read, Except.map] at h
      | ok more =>
        simp only [first, second, read, Except.map, Except.ok.injEq] at h
        exact ⟨x, y, more, rfl, rfl, rfl, h.symm⟩

theorem chars_of_decode {bytes out : List UInt8} (h : decode bytes = .ok out) :
    ∃ cs : List Char, (∀ c ∈ cs, isDigit c = true) ∧ cs.flatMap String.utf8EncodeChar = bytes ∧
      cs.map Char.toLower = encode out := by
  induction out generalizing bytes with
  | nil =>
    rcases bytes with _ | ⟨a, _ | ⟨b, rest⟩⟩
    · exact ⟨[], nofun, rfl, rfl⟩
    · unfold decode at h
      split at h <;> cases h
    · obtain ⟨x, y, more, -, -, -, made⟩ := decode_pair h
      cases made
  | cons v out ih =>
    rcases bytes with _ | ⟨a, _ | ⟨b, rest⟩⟩
    · cases h
    · unfold decode at h
      split at h <;> cases h
    · obtain ⟨x, y, more, first, second, read, made⟩ := decode_pair h
      cases made
      obtain ⟨cs, digits, bytes, lower⟩ := ih read
      obtain ⟨c, digit, byte, low, small⟩ := char_of_digit? first
      obtain ⟨c', digit', byte', low', small'⟩ := char_of_digit? second
      have value : (x * 16 + y).toNat = x.toNat * 16 + y.toNat := by
        have sixteen : (16 : UInt8).toNat = 16 := rfl
        rw [UInt8.toNat_add, UInt8.toNat_mul, sixteen]
        omega
      have high : (x * 16 + y).toNat / 16 = x.toNat := by omega
      have rem : (x * 16 + y).toNat % 16 = y.toNat := by omega
      refine ⟨c :: c' :: cs, ?_, ?_, ?_⟩
      · exact forall_mem_cons.2 ⟨digit, forall_mem_cons.2 ⟨digit', digits⟩⟩
      · rw [flatMap_cons, flatMap_cons, byte, byte', bytes]
        rfl
      · rw [map_cons, map_cons, low, low', lower, encode_cons, high, rem]

theorem decode_chars {k : Nat} {cs : List Char} (length : cs.length = 2 * k)
    (digits : ∀ c ∈ cs, isDigit c = true) :
    ∃ out, decode (cs.flatMap String.utf8EncodeChar) = .ok out ∧ out.length = k := by
  induction k generalizing cs with
  | zero =>
    obtain rfl := eq_nil_of_length_eq_zero length
    exact ⟨[], rfl, rfl⟩
  | succ k ih =>
    rcases cs with _ | ⟨c, _ | ⟨c', cs⟩⟩
    · simp at length
    · simp only [length_cons, length_nil] at length
      omega
    · obtain ⟨digit, digits⟩ := forall_mem_cons.1 digits
      obtain ⟨digit', digits⟩ := forall_mem_cons.1 digits
      obtain ⟨b, v, byte, read⟩ := digit?_char digit
      obtain ⟨b', v', byte', read'⟩ := digit?_char digit'
      simp only [length_cons] at length
      obtain ⟨out, decoded, size⟩ := ih (by omega) digits
      refine ⟨(v * 16 + v') :: out, ?_, by rw [length_cons, size]⟩
      rw [flatMap_cons, flatMap_cons, byte, byte']
      show decode (b :: b' :: cs.flatMap String.utf8EncodeChar) = _
      unfold decode
      rw [read, read', decoded]
      rfl

/-! ## order -/

theorem digits_lt_iff (a b : UInt8) :
    a < b ↔ a.toNat / 16 < b.toNat / 16 ∨ a.toNat / 16 = b.toNat / 16 ∧
      a.toNat % 16 < b.toNat % 16 := by
  rw [UInt8.lt_iff_toNat_lt]
  omega

theorem digits_inj (a b : UInt8) :
    a = b ↔ a.toNat / 16 = b.toNat / 16 ∧ a.toNat % 16 = b.toNat % 16 := by
  rw [← UInt8.toNat_inj]
  omega

theorem encode_lt_iff (as bs : List UInt8) : encode as < encode bs ↔ as < bs := by
  induction as generalizing bs with
  | nil =>
    cases bs with
    | nil => exact ⟨fun h => absurd h (List.lt_irrefl _), fun h => absurd h (List.lt_irrefl _)⟩
    | cons b bs => exact ⟨fun _ => List.nil_lt_cons _ _, fun _ => List.nil_lt_cons _ _⟩
  | cons a as ih =>
    cases bs with
    | nil => exact ⟨fun h => absurd h (not_lt_nil _), fun h => absurd h (not_lt_nil _)⟩
    | cons b bs =>
      rw [encode_cons, encode_cons, cons_lt_cons_iff, cons_lt_cons_iff, cons_lt_cons_iff, ih,
        hexDigit_lt_iff (high_lt a) (high_lt b), hexDigit_lt_iff (low_lt a) (low_lt b),
        hexDigit_inj (high_lt a) (high_lt b), hexDigit_inj (low_lt a) (low_lt b), digits_lt_iff,
        digits_inj a b, and_or_left, ← or_assoc, and_assoc]

end Terrain.Text.Hex

namespace Terrain.Hash.Digest

open Text

variable {d : Digest} {s : String}

theorem parse_text (d : Digest) : parse d.text = .ok d := by
  unfold parse text
  rw [Hex.ofText_toText]
  exact dif_pos d.length_bytes

theorem text_inj {e : Digest} (same : d.text = e.text) : d = e := by
  have parsed := parse_text d
  rw [same, parse_text] at parsed
  exact (Except.ok.inj parsed).symm

/-- is it the text of a digest, in either case? -/
def IsText (s : String) : Prop := s.length = 64 ∧ ∀ c ∈ s.toList, Hex.isDigit c = true

theorem isText_of_parse (h : parse s = .ok d) : IsText s ∧ d.text = s.toLower := by
  unfold parse at h
  split at h
  · cases h
  next bytes read =>
    split at h
    case isFalse => cases h
    case isTrue length =>
      cases h
      obtain ⟨cs, digits, encoded, lower⟩ := Hex.chars_of_decode read
      obtain rfl : s = String.ofList cs := by
        have back := Token.fromUTF8?_toUTF8 s
        rw [← encoded, ← Hex.toUTF8_ofList, Token.fromUTF8?_toUTF8] at back
        exact (Option.some.inj back).symm
      have size : cs.length = 64 := by
        rw [← List.length_map Char.toLower, lower, Hex.length_encode, length]
      refine ⟨⟨?_, ?_⟩, ?_⟩
      · rwa [String.length_ofList]
      · rwa [String.toList_ofList]
      · apply String.toList_inj.1
        unfold String.toLower text Hex.toText
        rw [String.toList_map, String.toList_ofList, String.toList_ofList, lower]

theorem parse_of_isText (h : IsText s) : ∃ d, parse s = .ok d := by
  obtain ⟨out, decoded, size⟩ :=
    Hex.decode_chars (k := 32) (by rw [String.length_toList]; exact h.1) h.2
  have read : Hex.ofText s = .ok out := by
    unfold Hex.ofText
    rw [← s.ofList_toList, Hex.toUTF8_ofList, decoded]
  refine ⟨⟨out, size⟩, ?_⟩
  unfold parse
  rw [read]
  exact dif_pos size

theorem parse_ok_iff : parse s = .ok d ↔ IsText s ∧ d.text = s.toLower := by
  refine ⟨isText_of_parse, fun ⟨text, same⟩ => ?_⟩
  obtain ⟨e, parsed⟩ := parse_of_isText text
  rw [parsed, text_inj (same.trans (isText_of_parse parsed).2.symm)]

theorem text_lt_iff (d e : Digest) : d.text < e.text ↔ d.bytes < e.bytes := by
  rw [String.lt_iff]
  unfold text Hex.toText
  rw [String.toList_ofList, String.toList_ofList]
  exact Hex.encode_lt_iff d.bytes e.bytes

/-- **Digests and their texts.**  The text of a digest is read back; what is read is 64 digits of
either case, and the digest's text is the same in lower case; and texts are ordered as
the bytes are. -/
theorem text_faithful :
    (∀ d, parse d.text = .ok d) ∧ (∀ s, (∃ d, parse s = .ok d) ↔ IsText s) ∧
      (∀ s d, parse s = .ok d ↔ IsText s ∧ d.text = s.toLower) ∧
        ∀ d e : Digest, d.text < e.text ↔ d.bytes < e.bytes := by
  refine ⟨parse_text, fun s => ⟨fun ⟨d, parsed⟩ => ?_, parse_of_isText⟩,
    fun s d => parse_ok_iff, text_lt_iff⟩
  exact (isText_of_parse parsed).1

end Terrain.Hash.Digest
