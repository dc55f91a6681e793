import Terrain.Cbor.Item

/-!
# Canonical bytes are read back

The reader takes many forms of one item; the writer uses one.  An item without tags, whose numbers
have eight bytes, whose texts are in one piece and whose lists are not too long or too deep is the
one item that its bytes are read as.

* `readHead_head`       a head of the shortest form;
* `Canonical`           items that are written as they are;
* `decode_write`        their bytes are read back.
-/

namespace Terrain.Cbor.Item

open List

variable {depth : Nat}

/-! ## numbers and heads -/

theorem readNumber_succ (k n : Nat) (bs : List UInt8) :
    readNumber (k + 1) n bs = (readNumber k n bs).bind fun (n, bs) => readNumber 1 n bs := by
  induction k generalizing n bs with
  | zero => rfl
  | succ k ih =>
    cases bs with
    | nil => rfl
    | cons b bs => exact ih (256 * n + b.toNat) bs

theorem readNumber_bigEndian (k n m : Nat) (rest : List UInt8) :
    readNumber k n (bigEndian k m ++ rest) = some (n * 256 ^ k + m % 256 ^ k, rest) := by
  induction k generalizing m rest with
  | zero =>
    show some (n, rest) = _
    rw [Nat.pow_zero, Nat.mul_one, Nat.mod_one, Nat.add_zero]
  | succ k ih =>
    unfold bigEndian
    rw [readNumber_succ, append_assoc, ih]
    show some (256 * (n * 256 ^ k + m / 256 % 256 ^ k) + m.toUInt8.toNat, rest) = _
    have digit : m.toUInt8.toNat = m % 256 := rfl
    rw [digit, Nat.pow_succ', Nat.mod_mul, Nat.mul_add, Nat.add_assoc, Nat.add_comm (m % 256),
      Nat.mul_left_comm]

theorem toNat_first {major low : Nat} (majors : major < 8) (lows : low < 32) :
    ((32 * major + low).toUInt8).toNat / 32 = major ∧
      ((32 * major + low).toUInt8).toNat % 32 = low := by
  have byte : ((32 * major + low).toUInt8).toNat = 32 * major + low :=
    Nat.mod_eq_of_lt (by omega)
  rw [byte]
  omega

theorem readHead_wide (major low : Nat) {n : Nat} (majors : major < 8) (wide : 24 ≤ low)
    (lows : low < 28) (fits : n < 256 ^ 2 ^ (low - 24)) (rest : List UInt8) :
    readHead ((32 * major + low).toUInt8 :: (bigEndian (2 ^ (low - 24)) n ++ rest)) =
      some ((major, low, .number n), rest) := by
  obtain ⟨hi, lo⟩ := toNat_first majors (Nat.lt_trans lows (by decide : 28 < 32))
  unfold readHead
  simp only [hi, lo]
  rw [if_neg (by omega), if_pos lows, readNumber_bigEndian, Nat.zero_mul, Nat.zero_add,
    Nat.mod_eq_of_lt fits]
  rfl

theorem readHead_head (major : Nat) {n : Nat} (majors : major < 8) (fits : n < 2 ^ 64)
    (rest : List UInt8) :
    ∃ low, readHead (head major n ++ rest) = some ((major, low, .number n), rest) ∧
      (n < 24 → low = n) := by
  unfold head
  dsimp only
  split
  · next small =>
    obtain ⟨hi, lo⟩ := toNat_first majors (Nat.lt_trans small (by decide : 24 < 32))
    refine ⟨n, ?_, fun _ => rfl⟩
    show readHead ((32 * major + n).toUInt8 :: rest) = _
    unfold readHead
    simp only [hi, lo]
    rw [if_pos small]
  · next large =>
    have wide (low : Nat) (above : 24 ≤ low) (below : low < 28) (fits : n < 256 ^ 2 ^ (low - 24)) :
        ∃ low', readHead ((32 * major + low).toUInt8 :: (bigEndian (2 ^ (low - 24)) n ++ rest)) =
          some ((major, low', .number n), rest) ∧ (n < 24 → low' = n) :=
      ⟨low, readHead_wide major low majors above below fits rest, fun small => absurd small large⟩
    split
    · next byte => exact wide 24 (by decide) (by decide) byte
    · split
      · next word => exact wide 25 (by decide) (by decide) word
      · split
        · next long => exact wide 26 (by decide) (by decide) long
        · exact wide 27 (by decide) (by decide) fits

/-! ## items -/

theorem readBytes_append (b rest : List UInt8) :
    readBytes b.length (b ++ rest) = some (b, rest) := by
  unfold readBytes
  rw [if_pos (by rw [length_append]; omega), take_left, drop_left]

section
variable {inner : Option (Reader Item)} {bs rest : List UInt8} {major low n : Nat}

theorem readTagged_eq (h : readHead bs = some ((major, low, .number n), rest))
    (untagged : major ≠ 6) : readTagged inner bs = readUntagged inner bs := by
  have tags (fuel : Nat) : readTags fuel bs = some ([], bs) := by
    cases fuel with
    | zero => rfl
    | succ fuel =>
      unfold readTags
      rw [h]
      split
      · next eq =>
        cases eq
        exact absurd rfl untagged
      · rfl
  unfold readTagged
  rw [tags]
  show (readUntagged inner bs).bind _ = _
  cases readUntagged inner bs <;> rfl

theorem readTagged_unsigned (fits : n < 2 ^ 64) :
    readTagged inner (write (.unsigned n) ++ rest) = some (.unsigned n, rest) := by
  obtain ⟨low, head, -⟩ := readHead_head 0 (by decide) fits rest
  rw [write, readTagged_eq head (by decide), readUntagged, head]
  rfl

theorem readTagged_negative (fits : n < 2 ^ 64) :
    readTagged inner (write (.negative n) ++ rest) = some (.negative n, rest) := by
  obtain ⟨low, head, -⟩ := readHead_head 1 (by decide) fits rest
  rw [write, readTagged_eq head (by decide), readUntagged, head]
  rfl

theorem readTagged_bytes {b : List UInt8} (fits : b.length < 2 ^ 64) :
    readTagged inner (write (.bytes b) ++ rest) = some (.bytes b, rest) := by
  obtain ⟨low, head, -⟩ := readHead_head 2 (by decide) fits (b ++ rest)
  rw [write, append_assoc, readTagged_eq head (by decide), readUntagged, head]
  show (readBytes b.length (b ++ rest)).map _ = _
  rw [readBytes_append]
  rfl

theorem readTagged_text {b : List UInt8} (fits : b.length < 2 ^ 64) :
    readTagged inner (write (.text [b]) ++ rest) = some (.text [b], rest) := by
  obtain ⟨low, head, -⟩ := readHead_head 3 (by decide) fits (b ++ rest)
  rw [write, flatten_singleton, append_assoc, readTagged_eq head (by decide), readUntagged, head]
  show (readBytes b.length (b ++ rest)).map _ = _
  rw [readBytes_append]
  rfl

/-- an item of the last major type: the low bits tell a float from a simple value -/
theorem readUntagged_seven :
    readHead bs = some ((7, low, .number n), rest) →
      readUntagged inner bs =
        match low with
        | 24 => if n < 32 then none else some (.simple n, rest)
        | 25 => some (.float16 n.toUInt16, rest)
        | 26 => some (.float32 n.toUInt32, rest)
        | 27 => some (.float64 n.toUInt64, rest)
        | _ => some (.simple n, rest) := by
  intro head
  rw [readUntagged, head]
  rfl

theorem readTagged_simple (small : n < 24) :
    readTagged inner (write (.simple n) ++ rest) = some (.simple n, rest) := by
  obtain ⟨low, head, short⟩ :=
    readHead_head 7 (by decide) (Nat.lt_trans small (by decide : 24 < 2 ^ 64)) rest
  obtain rfl := short small
  rw [write, readTagged_eq head (by decide), readUntagged_seven head]
  split <;> first | rfl | omega

theorem readTagged_float16 (bits : UInt16) :
    readTagged inner (write (.float16 bits) ++ rest) = some (.float16 bits, rest) := by
  have head : readHead (write (.float16 bits) ++ rest) =
      some ((7, 25, .number bits.toNat), rest) := by
    rw [write]
    exact readHead_wide 7 25 (by decide) (by decide) (by decide) bits.toNat_lt rest
  rw [readTagged_eq head (by decide), readUntagged_seven head]
  show some (Item.float16 bits.toNat.toUInt16, rest) = _
  rw [Nat.toUInt16_eq, UInt16.ofNat_toNat]

theorem readTagged_float32 (bits : UInt32) :
    readTagged inner (write (.float32 bits) ++ rest) = some (.float32 bits, rest) := by
  have head : readHead (write (.float32 bits) ++ rest) =
      some ((7, 26, .number bits.toNat), rest) := by
    rw [write]
    exact readHead_wide 7 26 (by decide) (by decide) (by decide) bits.toNat_lt rest
  rw [readTagged_eq head (by decide), readUntagged_seven head]
  show some (Item.float32 bits.toNat.toUInt32, rest) = _
  rw [Nat.toUInt32_eq, UInt32.ofNat_toNat]

end

/-! ## lists -/

theorem readMany_append {α : Type} {one : Reader α} {form : α → List UInt8} {items : List α}
    (h : ∀ i ∈ items, ∀ rest, one (form i ++ rest) = some (i, rest)) (rest : List UInt8) :
    readMany one items.length ((items.flatMap form) ++ rest) = some (items, rest) := by
  induction items with
  | nil => rfl
  | cons i items ih =>
    rw [flatMap_cons, append_assoc, length_cons, readMany, h i (.head _)]
    show (readMany one items.length (items.flatMap form ++ rest)).bind _ = _
    rw [ih fun i member => h i (.tail _ member)]
    rfl

theorem writeAll_eq (items : List Item) : writeAll items = items.flatMap write := by
  induction items with
  | nil => rfl
  | cons i items ih => rw [writeAll, ih, flatMap_cons]

theorem writePairs_eq (pairs : List (Item × Item)) :
    writePairs pairs = pairs.flatMap fun p => write p.1 ++ write p.2 := by
  induction pairs with
  | nil => rfl
  | cons p pairs ih => rw [writePairs, ih, flatMap_cons]

/-- items that are written as they are, with at most `depth` arrays and maps inside one another -/
inductive Canonical : Nat → Item → Prop
  | unsigned {depth n : Nat} (fits : n < 2 ^ 64) : Canonical depth (.unsigned n)
  | negative {depth n : Nat} (fits : n < 2 ^ 64) : Canonical depth (.negative n)
  | bytes {depth : Nat} {b : List UInt8} (fits : b.length < 2 ^ 64) : Canonical depth (.bytes b)
  | text {depth : Nat} {b : List UInt8} (fits : b.length < 2 ^ 64) : Canonical depth (.text [b])
  | array {depth : Nat} {items : List Item} (short : items.length ≤ maxElements)
      (each : ∀ i ∈ items, Canonical depth i) : Canonical (depth + 1) (.array items)
  | map {depth : Nat} {pairs : List (Item × Item)} (short : pairs.length ≤ maxElements)
      (keys : ∀ p ∈ pairs, Canonical depth p.1) (values : ∀ p ∈ pairs, Canonical depth p.2) :
      Canonical (depth + 1) (.map pairs)
  | simple {depth n : Nat} (small : n < 24) : Canonical depth (.simple n)
  | float16 {depth : Nat} (bits : UInt16) : Canonical depth (.float16 bits)
  | float32 {depth : Nat} (bits : UInt32) : Canonical depth (.float32 bits)

theorem read_eq (depth : Nat) : ∃ inner, read depth = readTagged inner := by
  cases depth with
  | zero => exact ⟨none, rfl⟩
  | succ depth => exact ⟨some (read depth), rfl⟩

theorem read_array {items : List Item} (fits : items.length < 2 ^ 64) (rest : List UInt8) :
    read (depth + 1) (write (.array items) ++ rest) =
      (readSeveral (read depth) (.number items.length) (writeAll items ++ rest)).map fun p =>
        (.array p.1, p.2) := by
  obtain ⟨low, head, -⟩ := readHead_head 4 (by decide) fits (writeAll items ++ rest)
  rw [read, write, append_assoc, readTagged_eq head (by decide), readUntagged, head]
  rfl

theorem read_map {pairs : List (Item × Item)} (fits : pairs.length < 2 ^ 64) (rest : List UInt8) :
    read (depth + 1) (write (.map pairs) ++ rest) =
      (readSeveral (readPair (read depth)) (.number pairs.length)
        (writePairs pairs ++ rest)).map fun p =>
        (.map p.1, p.2) := by
  obtain ⟨low, head, -⟩ := readHead_head 5 (by decide) fits (writePairs pairs ++ rest)
  rw [read, write, append_assoc, readTagged_eq head (by decide), readUntagged, head]
  rfl

theorem readPair_append {one : Reader Item} {p : Item × Item}
    (key : ∀ rest, one (write p.1 ++ rest) = some (p.1, rest))
    (value : ∀ rest, one (write p.2 ++ rest) = some (p.2, rest)) (rest : List UInt8) :
    readPair one ((write p.1 ++ write p.2) ++ rest) = some (p, rest) := by
  rw [append_assoc, readPair, key]
  show (one (write p.2 ++ rest)).bind _ = _
  rw [value]
  rfl

theorem read_write {i : Item} (h : Canonical depth i) (rest : List UInt8) :
    read depth (write i ++ rest) = some (i, rest) := by
  induction h generalizing rest with
  | @unsigned depth n fits =>
    obtain ⟨inner, eq⟩ := read_eq depth
    rw [eq, readTagged_unsigned fits]
  | @negative depth n fits =>
    obtain ⟨inner, eq⟩ := read_eq depth
    rw [eq, readTagged_negative fits]
  | @bytes depth b fits =>
    obtain ⟨inner, eq⟩ := read_eq depth
    rw [eq, readTagged_bytes fits]
  | @text depth b fits =>
    obtain ⟨inner, eq⟩ := read_eq depth
    rw [eq, readTagged_text fits]
  | @array depth items short each ih =>
    rw [read_array (Nat.lt_of_le_of_lt short (by decide)), readSeveral, if_pos short, writeAll_eq,
      readMany_append ih]
    rfl
  | @map depth pairs short keys values ihKeys ihValues =>
    have pair (p : Item × Item) (member : p ∈ pairs) (rest : List UInt8) :
        readPair (read depth) ((write p.1 ++ write p.2) ++ rest) = some (p, rest) :=
      readPair_append (ihKeys p member) (ihValues p member) rest
    rw [read_map (Nat.lt_of_le_of_lt short (by decide)), readSeveral, if_pos short, writePairs_eq,
      readMany_append pair]
    rfl
  | @simple depth n small =>
    obtain ⟨inner, eq⟩ := read_eq depth
    rw [eq, readTagged_simple small]
  | @float16 depth bits =>
    obtain ⟨inner, eq⟩ := read_eq depth
    rw [eq, readTagged_float16]
  | @float32 depth bits =>
    obtain ⟨inner, eq⟩ := read_eq depth
    rw [eq, readTagged_float32]

theorem decode_write {i : Item} (h : Canonical maxDepth i) : decode (write i) = some i := by
  have all := read_write h []
  rw [append_nil] at all
  unfold decode
  rw [all]

end Terrain.Cbor.Item
