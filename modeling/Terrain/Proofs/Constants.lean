import Terrain.Document.Read
import Terrain.Proofs.Names
import Terrain.Proofs.References
import Terrain.Proofs.WholeNumbers

/-!
# Whole constants of documents

A node of a document may be a constant of whole numbers.  Its number is written in decimal, read as
a word of 64 bits, rounded to a single and only then looked at.

* `resolve_decimal`          a decimal is read as the number that it is written from;
* `make_ofWhole`             the constant that a whole number becomes;
* `wholeConstant_built_iff`  which constants are built, and what is stored of them;
* `wholeConstant_rounded`    the first number that is not exact.
-/

namespace Terrain

open Number List

variable {x : Char} {cs : List Char} {n : Int}

/-! ## decimals -/

theorem head?_toDigits {n : Nat} (pos : 0 < n) : (Nat.toDigits 10 n).head? ≠ some '0' := by
  induction n using Nat.strongRecOn with
  | ind n ih =>
    rw [Nat.toDigits_eq_if (by decide)]
    by_cases small : n < 10
    · have each : ∀ d : Fin 10, 0 < d.val → [d.val.digitChar].head? ≠ some '0' := by decide
      rw [if_pos small]
      exact each ⟨n, small⟩ pos
    · rw [if_neg small, head?_append_of_ne_nil _ Nat.toDigits_ne_nil]
      exact ih (n / 10) (Nat.div_lt_self pos (by decide))
        (Nat.div_pos (Nat.le_of_not_lt small) (by decide))

theorem digitValue?_of_isDigit (digit : x.isDigit = true) :
    digitValue? x = some (x.toNat - '0'.toNat) ∧ x.toNat - '0'.toNat < 10 := by
  have bounds : 48 ≤ x.toNat ∧ x.toNat ≤ 57 := by
    simpa [Char.isDigit, UInt32.le_iff_toNat_le] using digit
  refine ⟨if_pos ?_, ?_⟩
  · exact ⟨bounds.1, bounds.2⟩
  · show x.toNat - 48 < 10
    omega

theorem readDigits_eq (digits : ∀ x ∈ cs, x.isDigit = true) (high : Nat) :
    readDigits 10 high cs = some (Nat.ofDigitChars 10 cs high) := by
  induction cs generalizing high with
  | nil => rfl
  | cons x cs ih =>
    obtain ⟨value, less⟩ := digitValue?_of_isDigit (digits x (.head _))
    rw [readDigits, value, Nat.ofDigitChars_cons, mul_comm 10]
    exact (if_pos less).trans (ih (fun y member => digits y (.tail _ member)) _)

theorem readPrefixed_decimal (n : Nat) : readPrefixed (toString n).toList = some n := by
  rcases Nat.eq_zero_or_pos n with rfl | pos
  · rfl
  have lead := head?_toDigits pos
  have some_digit : Nat.toDigits 10 n ≠ [] := Nat.toDigits_ne_nil
  have read := readDigits_eq (fun _ => Kernel.isDigit_of_mem (n := n)) 0
  rw [Kernel.ofDigitChars_toString, Nat.toString_eq_repr, Nat.toList_repr] at read
  rw [Nat.toString_eq_repr, Nat.toList_repr]
  unfold readPrefixed
  split
  · next head => rw [head] at lead; exact absurd rfl lead
  · next head => rw [head] at lead; exact absurd rfl lead
  · unfold readNat
    split
    · next none => exact absurd none some_digit
    · exact read

theorem parse?_digits (digits : ∀ y ∈ cs, y.isDigit = true) :
    Text.Timestamp.parse? (x :: cs) = none := by
  have none : Text.Timestamp.year? (x :: cs) = none := by
    unfold Text.Timestamp.year?
    split
    · next same =>
      obtain ⟨-, rfl⟩ := List.cons.inj same
      have line : '-'.isDigit = true := digits '-' (by simp)
      exact absurd line (by decide)
    · rfl
  unfold Text.Timestamp.parse? Text.Timestamp.date?
  rw [none]
  rfl

namespace Yaml

/-- a digit, or a minus and a digit -/
def startsNumber : List Char → Bool
  | '-' :: x :: _ => x.isDigit
  | x :: _ => x.isDigit
  | [] => false

theorem word?_eq_none {text : String} (lead : startsNumber text.toList = true) :
    word? text = none := by
  unfold word?
  split
  case h_24 => rfl
  all_goals exact absurd lead (by decide)

theorem dropSeparators_eq (plain : '_' ∉ cs) : dropSeparators cs = cs := by
  refine filter_eq_self.2 fun x member => decide_eq_true ?_
  rintro rfl
  exact plain member

/-- the sign and the digits of a number are read as a number and as nothing else -/
theorem resolve_number {text : String} (chars : text.toList = x :: cs)
    (lead : startsNumber (x :: cs) = true) (digits : ∀ y ∈ cs, y.isDigit = true) :
    resolve true text = ((number? (x :: cs)).getD (.text text)) := by
  have first : (x == '.') = false ∧ (x.isDigit || x == '+' || x == '-') = true := by
    unfold startsNumber at lead
    split at lead
    · next same =>
      obtain ⟨rfl, -⟩ := List.cons.inj same
      decide
    · next same =>
      obtain ⟨rfl, -⟩ := List.cons.inj same
      refine ⟨beq_eq_false_iff_ne.2 ?_, by rw [lead]; rfl⟩
      rintro rfl
      exact absurd lead (by decide)
    · cases lead
  unfold resolve
  rw [word?_eq_none (chars ▸ lead), chars]
  dsimp only
  rw [if_neg (by rw [first.1]; decide), if_pos first.2, if_pos rfl, parse?_digits digits]
  rfl

theorem isDigit_toList (n : Nat) : ∀ y ∈ (toString n).toList, y.isDigit = true :=
  fun _ => Kernel.isDigit_of_mem

theorem no_separator (digits : ∀ y ∈ cs, y.isDigit = true) : '_' ∉ cs :=
  fun member => absurd (digits '_' member) (by decide)

theorem exists_toList (n : Nat) : ∃ x cs, (toString n).toList = x :: cs ∧ x.isDigit = true ∧
    ∀ y ∈ cs, y.isDigit = true := by
  cases chars : (toString n).toList with
  | nil =>
    rw [Nat.toString_eq_repr, Nat.toList_repr] at chars
    exact absurd chars Nat.toDigits_ne_nil
  | cons x cs =>
    have digits := isDigit_toList n
    rw [chars] at digits
    exact ⟨x, cs, rfl, digits x (.head _), fun y member => digits y (.tail _ member)⟩

end Yaml

/-- what a whole number of 64 bits is read as -/
def Setting.ofWhole (n : Int) : Setting := if fitsInt64 n then .integer n else .word n.toNat

namespace Yaml

theorem resolve_natural {n : Nat} (small : n < wordLimit) :
    resolve true (toString n) = .ofWhole n := by
  obtain ⟨x, cs, chars, lead, digits⟩ := exists_toList n
  have all : ∀ y ∈ x :: cs, y.isDigit = true := by
    rw [← chars]
    exact isDigit_toList n
  have starts : startsNumber (x :: cs) = true := by
    unfold startsNumber
    split
    · next same =>
      obtain ⟨rfl, -⟩ := List.cons.inj same
      exact absurd lead (by decide)
    · next same =>
      obtain ⟨rfl, -⟩ := List.cons.inj same
      exact lead
    · next same => cases same
  have read := readPrefixed_decimal n
  rw [chars] at read
  rw [resolve_number chars starts digits, number?, dropSeparators_eq (no_separator all)]
  have signed : readSigned readPrefixed (x :: cs) = (some (n : Int)).filter fitsInt64 := by
    unfold readSigned
    split
    · next same =>
      obtain ⟨rfl, -⟩ := List.cons.inj same
      exact absurd lead (by decide)
    · next same =>
      obtain ⟨rfl, -⟩ := List.cons.inj same
      exact absurd lead (by decide)
    · rw [read]
      rfl
  have word : readWord readPrefixed (x :: cs) = some n := by
    unfold readWord
    rw [read]
    exact Option.filter_some_pos (decide_eq_true small)
  unfold Setting.ofWhole
  rw [signed, word]
  cases fits : fitsInt64 n with
  | true => rw [Option.filter_some_pos fits]; rfl
  | false => rw [Option.filter_some_neg (by rw [fits])]; rfl

theorem resolve_negative {n : Nat} (fits : fitsInt64 (-(n : Int)) = true) :
    resolve true ("-" ++ toString n) = .integer (-(n : Int)) := by
  have chars : ("-" ++ toString n).toList = '-' :: (toString n).toList := by
    rw [String.toList_append]
    rfl
  obtain ⟨x, cs, digits, lead, -⟩ := exists_toList n
  have starts : startsNumber ('-' :: (toString n).toList) = true := by
    rw [digits]
    exact lead
  have plain : '_' ∉ '-' :: (toString n).toList := fun member =>
    (mem_cons.1 member).elim (by decide) (no_separator (isDigit_toList n))
  have signed : readSigned readPrefixed ('-' :: (toString n).toList) = some (-(n : Int)) := by
    show ((readPrefixed (toString n).toList).map fun n => -(n : Int)).filter fitsInt64 = _
    rw [readPrefixed_decimal]
    exact Option.filter_some_pos fits
  rw [resolve_number chars starts (isDigit_toList n), number?, dropSeparators_eq plain, signed]
  rfl

theorem resolve_decimal (low : minInt64 ≤ n) (high : n < wordLimit) :
    resolve true (toString n) = .ofWhole n := by
  cases n with
  | ofNat n => exact resolve_natural (Int.ofNat_lt.1 high)
  | negSucc n =>
    have fits : fitsInt64 (Int.negSucc n) = true := by
      unfold fitsInt64 maxInt64
      simp only [Bool.and_eq_true, decide_eq_true_eq]
      omega
    have whole : Setting.ofWhole (Int.negSucc n) = .integer (Int.negSucc n) := if_pos fits
    rw [whole]
    exact resolve_negative (n := n + 1) fits

end Yaml

namespace Document

/-! ## nodes -/

/-- a scalar as it is mostly written, with no tag and no quotes -/
def plainScalar (line : Nat) (text : String) : Yaml.Node := .scalar line none true text

/-- a constant of whole numbers as a document writes it -/
def writtenConstant (line : Nat) (number : String) : Yaml.Node :=
  .mapping line [(plainScalar line "op", plainScalar line "const"),
    (plainScalar line "value", plainScalar line number),
    (plainScalar line "shape", plainScalar line "int")]

/-- a constant of whole numbers -/
def wholeConstant (value : Setting) : NodeSpec :=
  { NodeSpec.empty with op := "const", shape := "int", value }

theorem ofNode?_writtenConstant (line : Nat) {number : String} (digits : number ≠ "<<") :
    NodeSpec.ofNode? (writtenConstant line number) =
      some (wholeConstant (Yaml.resolve true number)) := by
  have value : (plainScalar line number).setting? = some (Yaml.resolve true number) := by
    show (if (number == "<<") = true then none else some _) = _
    exact if_neg (by rwa [beq_iff_eq])
  have fields : (writtenConstant line number).fields? =
      some [("op", plainScalar line "const"), ("value", plainScalar line number),
        ("shape", plainScalar line "int")] := by
    rfl
  have op : NodeSpec.empty.setField ("op", plainScalar line "const") =
      some { NodeSpec.empty with op := "const" } := rfl
  have number (spec : NodeSpec) : spec.setField ("value", plainScalar line number) =
      some { spec with value := Yaml.resolve true number } := by
    show ((plainScalar line number).setting? >>= fun s => some { spec with value := s }) = _
    rw [value]
    rfl
  rw [NodeSpec.ofNode?, fields]
  show List.foldlM NodeSpec.setField .empty _ = _
  rw [foldlM_cons, op, Option.bind_eq_bind, Option.bind_some, foldlM_cons, number]
  rfl

theorem ofNode?_decimal (line : Nat) (low : minInt64 ≤ n) (high : n < wordLimit) :
    NodeSpec.ofNode? (writtenConstant line (toString n)) = some (wholeConstant (.ofWhole n)) := by
  have digits : toString n ≠ "<<" := by
    intro same
    have read := Yaml.resolve_decimal low high
    rw [same] at read
    unfold Setting.ofWhole at read
    split at read <;> cases read
  rw [ofNode?_writtenConstant line digits, Yaml.resolve_decimal low high]

/-! ## the operation of a node -/

theorem toIntValue_ofInt (small : n.natAbs < 2 ^ 64) :
    toIntValue (.ofInt n) =
      if Value.maxExactInt < rounded n ∨ rounded n < -Value.maxExactInt then
        .error (.outside (Single.ofInt n).toDouble)
      else .ok (.int (rounded n)) := by
  obtain ⟨m, s, datum, whole, truncated⟩ := datum_ofInt small
  rw [datum] at whole truncated
  unfold toIntValue
  rw [datum]
  dsimp only
  rw [whole, truncated]
  rfl

theorem make_integer (n : Int) :
    const.make (wholeConstant (.integer n)) = (toIntValue (.ofInt n)).map .constant := by
  have shape : shapeOf "int" = .ok .int := by rfl
  show (shapeOf "int" >>= fun s =>
    convert (.scalar (.ofInt n)) s >>= fun v => pure (Op.constant v)) = _
  rw [shape]
  show (toIntValue (.ofInt n) >>= fun v => pure (Op.constant v)) = _
  cases toIntValue (.ofInt n) <;> rfl

theorem resolve_leaf {doc : Document} {name : String} {spec : NodeSpec} {recipe : Recipe}
    (listed : doc.nodes.lookup name = some spec) (known : recipe? spec.op = some recipe)
    (bare : spec.inputs = []) (none : recipe.inputs = 0) (other : name ≠ positionName)
    {path : List String} (new : name ∉ path) {b : Builder} (unbuilt : b.built.lookup name = .none)
    (fuel : Nat) : outcome (doc.resolve (fuel + 1) path name) b =
      match recipe.make spec with
      | .ok op => (.ok b.graph.next,
          ⟨(b.graph.insert op []).2, (name, b.graph.next) :: b.built⟩)
      | .error fault => (.error (.refusedNode name fault), b) := by
  have start : outcome (doc.resolve (fuel + 1) path name) b =
      outcome (doc.buildNode (doc.resolve fuel (path ++ [name])) path name) b := by
    rw [resolve_succ, if_neg other, if_neg fun member => new (contains_iff_mem.1 member),
      outcome_bind]
    have state : outcome get b = (.ok b, b) := rfl
    rw [state]
    dsimp only
    rw [unbuilt]
  rw [start, buildNode, listed]
  dsimp only
  rw [known]
  dsimp only
  rw [bare, none, if_neg fun count => count rfl, mapM_nil, pure_bind]
  cases recipe.make spec with
  | error fault => rfl
  | ok op => rw [outcome_bind, outcome_build]; rfl

/-- what is stored of a whole number is exact up to `2 ^ 24`, and a kernel reads it so -/
theorem is_int (small : n.natAbs ≤ 2 ^ 24) :
    (Value.int n).lanes.x.datum.Is n ∧
      (toInt32 (Value.int n).lanes.x.datum.truncate?).toInt = n := by
  obtain ⟨-, -, -, exact⟩ := datum_ofInt (n := n) (by omega)
  rw [rounded_of_le small] at exact
  have lane : (Value.int n).lanes.x = .ofInt n := rfl
  rw [lane, exact.2]
  have word : toInt32 (some n) = Int32.ofInt n := if_pos (by omega)
  refine ⟨exact, ?_⟩
  rw [word, Int32.toInt_ofInt_of_le (by omega) (by omega)]

theorem make_ofWhole (low : minInt64 ≤ n) (high : n < wordLimit) :
    (n.natAbs ≤ 2 ^ 24 → const.make (wholeConstant (.ofWhole n)) = .ok (.constant (.int n))) ∧
    (n.natAbs = 2 ^ 24 + 1 →
      const.make (wholeConstant (.ofWhole n)) = .ok (.constant (.int (n.sign * 2 ^ 24)))) ∧
    (2 ^ 24 + 1 < n.natAbs → ∃ fault, const.make (wholeConstant (.ofWhole n)) = .error fault) := by
  have small : n.natAbs < 2 ^ 64 := by
    unfold minInt64 at low
    unfold wordLimit at high
    omega
  have integer (fits : fitsInt64 n = true) : const.make (wholeConstant (.ofWhole n)) =
      (toIntValue (.ofInt n)).map .constant := by
    rw [Setting.ofWhole, if_pos fits, make_integer]
  have near (most : n.natAbs ≤ 2 ^ 24 + 1) : fitsInt64 n = true := by
    unfold fitsInt64 minInt64 maxInt64
    simp only [Bool.and_eq_true, decide_eq_true_eq]
    omega
  refine ⟨fun inside => ?_, fun next => ?_, fun outside => ?_⟩
  · rw [integer (near (by omega)), toIntValue_ofInt small, rounded_of_le inside, if_neg]
    · rfl
    · unfold Value.maxExactInt
      omega
  · rw [integer (near (by omega)), toIntValue_ofInt small, rounded_of_eq next, if_neg]
    · rfl
    · unfold Value.maxExactInt
      rcases Int.lt_or_gt_of_ne (show n ≠ 0 by omega) with negative | positive
      · rw [Int.sign_eq_neg_one_of_neg negative]
        decide
      · rw [Int.sign_eq_one_of_pos positive]
        decide
  · cases fits : fitsInt64 n with
    | false => exact ⟨_, by rw [Setting.ofWhole, fits]; rfl⟩
    | true =>
      have far := lt_rounded outside
      rw [integer fits, toIntValue_ofInt small, if_pos]
      · exact ⟨_, rfl⟩
      · unfold Value.maxExactInt
        omega

/-! ## constants in any document -/

/-- what is stored of a whole number that is not refused -/
def storedWhole (n : Int) : Int := if n.natAbs ≤ 2 ^ 24 then n else n.sign * 2 ^ 24

theorem make_storedWhole (low : minInt64 ≤ n) (high : n < wordLimit)
    (small : n.natAbs ≤ 2 ^ 24 + 1) :
    const.make (wholeConstant (.ofWhole n)) = .ok (.constant (.int (storedWhole n))) := by
  obtain ⟨inside, next, -⟩ := make_ofWhole low high
  unfold storedWhole
  split
  · next exact => exact inside exact
  · next rounded => exact next (by omega)

theorem natAbs_storedWhole (small : n.natAbs ≤ 2 ^ 24 + 1) : (storedWhole n).natAbs ≤ 2 ^ 24 := by
  unfold storedWhole
  split
  · assumption
  · rw [Int.natAbs_mul, Int.natAbs_sign_of_ne_zero (by omega)]
    decide

/-- **A whole constant is exact or refused, but for one number on each side.**  A node that asks for
a constant of whole numbers is built just when its number is at most one past `2 ^ 24` in magnitude.
Up to `2 ^ 24` the lane holds exactly the number and a kernel reads it back.  The number one past
that has been rounded to `2 ^ 24` before it is looked at, and passes as that.  Any other is refused
as a fault of the configuration, and nothing is built. -/
theorem wholeConstant_built_iff {doc : Document} {name : String} {n : Int} (low : minInt64 ≤ n)
    (high : n < wordLimit) (listed : doc.nodes.lookup name = some (wholeConstant (.ofWhole n)))
    (other : name ≠ positionName) {path : List String} (new : name ∉ path) {b : Builder}
    (unbuilt : b.built.lookup name = none) (fuel : Nat) :
    (∀ line, NodeSpec.ofNode? (writtenConstant line (toString n)) =
      some (wholeConstant (.ofWhole n))) ∧
    ((∃ id b', outcome (doc.resolve (fuel + 1) path name) b = (.ok id, b')) ↔
      n.natAbs ≤ 2 ^ 24 + 1) ∧
    (∀ id b', outcome (doc.resolve (fuel + 1) path name) b = (.ok id, b') → ∃ v : Value,
      b'.graph.get? id = some ⟨id, .constant v, []⟩ ∧ v.shape = .int ∧
        v.lanes.x.datum.Is (storedWhole n) ∧
        (toInt32 v.lanes.x.datum.truncate?).toInt = storedWhole n) ∧
    (2 ^ 24 + 1 < n.natAbs → ∃ fault,
      outcome (doc.resolve (fuel + 1) path name) b = (.error (.refusedNode name fault), b) ∧
        (DocumentError.refusedNode name fault).blame = .configuration) := by
  have known : recipe? (wholeConstant (.ofWhole n)).op = some const := rfl
  have leaf := resolve_leaf listed known rfl rfl other new unbuilt fuel
  refine ⟨fun line => ofNode?_decimal line low high, ?_⟩
  rcases Nat.lt_or_ge (2 ^ 24 + 1) n.natAbs with outside | small
  · obtain ⟨fault, refused⟩ := (make_ofWhole low high).2.2 outside
    rw [refused] at leaf
    rw [leaf]
    refine ⟨⟨?_, fun small => absurd small (Nat.not_le.2 outside)⟩, ?_, fun _ => ⟨fault, rfl, rfl⟩⟩
    · rintro ⟨id, b', built⟩
      cases built
    · intro id b' built
      cases built
  · rw [make_storedWhole low high small] at leaf
    rw [leaf]
    refine ⟨⟨fun _ => small, fun _ => ⟨_, _, rfl⟩⟩, ?_,
      fun outside => absurd small (Nat.not_le.2 outside)⟩
    intro id b' built
    cases built
    refine ⟨.int (storedWhole n), ?_, rfl, is_int (natAbs_storedWhole small)⟩
    have look := get?_insert_nodes b.graph (.constant (.int (storedWhole n))) [] b.graph.next
    exact look.trans (if_pos rfl)

/-- a document of one constant -/
def soleConstant (n : Int) : Document :=
  ⟨"", [], [("d", wholeConstant (.ofWhole n))], [("density", "d")]⟩

theorem lookup_soleConstant (n : Int) :
    (soleConstant n).nodes.lookup "d" = some (wholeConstant (.ofWhole n)) := rfl

theorem wholeConstant_built_iff_limits : (∃ id b',
    outcome ((soleConstant (-16777216)).resolve 2 [] "d") ⟨.initial, []⟩ = (.ok id, b')) ∧
    ∃ fault, outcome ((soleConstant 9223372036854775808).resolve 2 [] "d") ⟨.initial, []⟩ =
      (.error (.refusedNode "d" fault), ⟨.initial, []⟩) := by
  constructor
  · exact (wholeConstant_built_iff (by decide) (by decide) (lookup_soleConstant _) (by decide)
      List.not_mem_nil rfl 1).2.1.2 (by decide)
  · obtain ⟨fault, refused, -⟩ :=
      (wholeConstant_built_iff (b := ⟨.initial, []⟩) (by decide) (by decide)
      (lookup_soleConstant 9223372036854775808) (by decide) List.not_mem_nil rfl 1).2.2.2
        (by decide)
    exact ⟨fault, refused⟩

/-- a document that asks for the number one past the exact ones -/
def nextText : String :=
  "nodes: \x7bd: \x7bop: const, value: 16777217, shape: int\x7d\x7d\noutputs: \x7bdensity: d\x7d\n"

/-- **The first number that is not exact passes as its neighbour.** -/
theorem wholeConstant_rounded :
    ((Document.parse nextText).toOption.map fun doc =>
      ((doc.roots .initial).1.toOption, (doc.roots .initial).2.get? 2)) =
      some (some [⟨"density", some 2⟩], some ⟨2, .constant (.int 16777216), []⟩) ∧
    (Value.int 16777216).lanes.x.datum.Is 16777216 ∧
    ¬ (Value.int 16777216).lanes.x.datum.Is 16777217 := by
  decide +kernel

end Document
end Terrain
