import Terrain.Proofs.Built
import Terrain.Proofs.Form

/-!
# Structure streams can be read back

The bytes that a node folds into the stream tell its operation, whatever follows them: no two
operations that generate different code are folded alike, and where the bytes of a node end is
told by the bytes themselves.

* `readStr_str`      texts, behind their length;
* `readNode`         the operation of a node, and the bytes that follow;
* `readNode_bytes`   what a node folds is read back.
-/

namespace Terrain.Hash.Token

open List

def readU16 : List UInt8 → Option (Nat × List UInt8)
  | a :: b :: rest => some (a.toNat * 256 + b.toNat, rest)
  | _ => none

def readU32 : List UInt8 → Option (Nat × List UInt8)
  | a :: b :: c :: d :: rest =>
    some (a.toNat * 16777216 + b.toNat * 65536 + c.toNat * 256 + d.toNat, rest)
  | _ => none

def readStr (bytes : List UInt8) : Option (String × List UInt8) :=
  match readU32 bytes with
  | none => none
  | some (n, rest) => (String.fromUTF8? ⟨(rest.take n).toArray⟩).map (·, rest.drop n)

theorem readU16_u16 (n : UInt16) (x : List UInt8) : readU16 (u16 n ++ x) = some (n.toNat, x) := by
  have small := n.toNat_lt
  simp only [u16, cons_append, nil_append, readU16, UInt16.toNat_toUInt8,
    UInt16.toNat_shiftRight, Nat.shiftRight_eq_div_pow]
  congr 2
  have : (8 : UInt16).toNat % 16 = 8 := rfl
  rw [this]
  omega

theorem readU32_u32 (n : UInt32) (x : List UInt8) : readU32 (u32 n ++ x) = some (n.toNat, x) := by
  have small := n.toNat_lt
  simp only [u32, Sha256.wordBytes, cons_append, nil_append, readU32,
    UInt32.toNat_toUInt8, UInt32.toNat_shiftRight, Nat.shiftRight_eq_div_pow]
  congr 2
  have h24 : (24 : UInt32).toNat % 32 = 24 := rfl
  have h16 : (16 : UInt32).toNat % 32 = 16 := rfl
  have h8 : (8 : UInt32).toNat % 32 = 8 := rfl
  rw [h24, h16, h8]
  omega

theorem toList_loop (bs : ByteArray) (i : Nat) (r : List UInt8) :
    ByteArray.toList.loop bs i r = r.reverse ++ bs.data.toList.drop i := by
  fun_induction ByteArray.toList.loop bs i r with
  | case1 i r inside ih =>
    have here : i < bs.data.toList.length := by simpa using inside
    have byte : bs.get! i = bs.data.toList[i] := getElem!_pos bs.data i inside
    rw [ih, reverse_cons, append_assoc, drop_eq_getElem_cons here, byte]
    rfl
  | case2 i r outside =>
    have : bs.data.toList.length ≤ i := by simpa using outside
    rw [drop_eq_nil_of_le this, append_nil]

theorem toUTF8_toList (s : String) : s.toUTF8.toList = s.toUTF8.data.toList := by
  unfold ByteArray.toList
  rw [toList_loop]
  rfl

theorem length_toUTF8 (s : String) : s.toUTF8.toList.length = s.utf8ByteSize := by
  rw [toUTF8_toList]
  rfl

theorem fromUTF8?_toUTF8 (s : String) : String.fromUTF8? ⟨s.toUTF8.toList.toArray⟩ = some s := by
  rw [toUTF8_toList, Array.toArray_toList]
  exact dif_pos s.isValidUTF8

theorem length_str (s : String) : (str s).length = 4 + s.utf8ByteSize := by
  unfold str
  rw [length_append, length_toUTF8]
  rfl

theorem readStr_str {s : String} (small : s.utf8ByteSize < 2 ^ 32) (x : List UInt8) :
    readStr (str s ++ x) = some (s, x) := by
  have size : s.utf8ByteSize.toUInt32.toNat = s.utf8ByteSize := Nat.mod_eq_of_lt small
  unfold readStr str
  rw [append_assoc, readU32_u32]
  dsimp only
  rw [size, take_left' (length_toUTF8 s), drop_left' (length_toUTF8 s), fromUTF8?_toUTF8]
  rfl

end Terrain.Hash.Token

namespace Terrain

open Hash Compile List

/-! ## nodes -/

/-- the operation of a node from its bytes, with the byte that a construction (how many components)
and a cache (the shape) have on top, and what follows -/
def readNode : List UInt8 → Option (Op × UInt8 × List UInt8)
  | [] => none
  | tag :: rest =>
    match tag.toNat, rest with
    | 0x01, x => some (.position, 0, x)
    | 0x02, s :: x => some (.constant ⟨.ofCode s, default⟩, 0, x)
    | 0x03, s :: x => (Token.readStr x).map fun (name, x) => (.inject name (.ofCode s) none, 0, x)
    | 0x04, s :: x => some (.ref "" (.ofCode s), 0, x)
    | 0x10, op :: _ :: x => some (.binary (.ofCode op), 0, x)
    | 0x11, op :: _ :: x => some (.unary (.ofCode op), 0, x)
    | 0x12, op :: _ :: x => some (.compare (.ofCode op), 0, x)
    | 0x13, op :: x =>
      some (.logic (if op = 0x26 then .and else if op = 0x7C then .or else .not), 0, x)
    | 0x14, x => (Token.readStr x).map fun (mask, x) => (.swizzle mask, 0, x)
    | 0x15, k :: x => some (.construct, k, x)
    | 0x16, _ :: t :: x => some (.cast (.ofCode t), 0, x)
    | 0x17, s :: x => some (.broadcast (.ofCode s), 0, x)
    | 0x18, _ :: x => some (.select, 0, x)
    | 0x19, _ :: x => some (.blend .lerp, 0, x.drop 3)
    | 0x1A, _ :: x => some (.blend .clamp, 0, x.drop 3)
    | 0x1B, _ :: x => some (.blend .smoothstep, 0, x.drop 3)
    | 0x1C, _ :: x => some (.blend .remap, 0, x.drop 5)
    | 0x1D, x => (Token.readStr x).map fun (routine, x) =>
        (.rotation (if routine = "vg_quat_euler" then .euler else .axisAngle), 0, x)
    | 0x1E, x => (Token.readStr x).map fun (_, x) => (.rotation .rotate, 0, x)
    | 0x1F, op :: _ :: x => some (if op = 0 then .dot else .cross, 0, x)
    | 0x20, kind :: _ :: x => some (.noise (.ofCode kind), 0, x)
    | 0x21, kind :: _ :: x => (Token.readU16 x).map fun (k, x) => (.fractal (.ofCode kind) k, 0, x)
    | 0x22, body :: _ :: x => (Primitive.ofCode? body).map fun body => (.primitive body, 0, x)
    | 0x23, op :: smooth :: x =>
      (CombineOp.ofCode? op).map fun op => (.combine op (smooth == 1), 0, x)
    | 0x24, metric :: _ :: x => some (.distance (.ofCode metric), 0, x)
    | 0x25, _ :: metric :: feature :: x =>
      some (.cellular (.ofCode metric) (.ofCode feature), 0, x)
    | 0x26, x =>
      match Token.readU16 x with
      | some (k, s :: x) => some (.cache k, s, x)
      | _ => none
    | _, _ => none

/-- what a node that code is generated for has -/
structure Node.Readable (n : Node) : Prop where
  supported : ∀ literal reason, n.op ≠ .unsupported literal reason
  complete : n.structureComplete = true
  takes : n.op.Takes n.inputs.length ∨ ∃ name s w, n.op = .ref name s ∧ n.inputs = [some w]
  typed : n.typing = .ok n.shape
  octaves : ∀ kind k, n.op = .fractal kind k → 1 ≤ k ∧ k ≤ maxOctaves
  reduction : ∀ k, n.op = .cache k → 0 ≤ k ∧ k ≤ maxReduction
  small : n.structureBytes.length < 2 ^ 32

def Node.topByte (n : Node) : UInt8 :=
  match n.op with
  | .construct => n.inputs.length.toUInt8
  | .cache _ => n.shape.code
  | _ => 0

section
variable {n : Node}

theorem length_operandBytes (h : n.Readable) :
    n.operandBytes.length = n.op.namedOperands n.inputs.length := by
  simpa [Node.structureComplete] using h.complete

theorem operandBytes_one (h : n.Readable) (one : n.op.namedOperands n.inputs.length = 1) :
    ∃ b, n.operandBytes = [b] := by
  have length := length_operandBytes h
  rw [one] at length
  exact length_eq_one_iff.1 length

theorem length_blend (h : n.Readable) {op : BlendOp} (blend : n.op = .blend op) :
    n.operandBytes.length = if op = .remap then 5 else 3 := by
  rw [length_operandBytes h, blend]
  rcases h.takes with takes | ⟨name, s, w, other, -⟩
  · rw [blend] at takes
    exact takes
  · rw [blend] at other
    cases other

theorem shape_of_broadcast (h : n.Readable) {target : Shape} (op : n.op = .broadcast target) :
    n.shape = target := by
  have typed := h.typed
  unfold Node.typing Op.typing at typed
  rw [op] at typed
  split at typed
  case h_2 => cases typed
  case h_1 shapes present =>
    match shapes with
    | [s] =>
      simp only [Op.typingOf] at typed
      split at typed
      · split at typed
        · exact (Except.ok.inj typed).symm
        · cases typed
      · cases typed
    | [] | _ :: _ :: _ => cases typed

theorem toNat_ofInt {k : Int} (low : 0 ≤ k) (high : k < 65536) :
    ((UInt16.ofInt k).toNat : Int) = k := by
  show ((k % 2 ^ 16).toNat % 2 ^ 16 : Nat) = k
  omega

theorem readNode_rotation (op : RotationOp) (x : List UInt8)
    (tag : Op.rotationTag op = Tag.rotation) :
    readNode (Op.rotationTag op :: x) = (Token.readStr x).map fun (routine, x) =>
      (.rotation (if routine = "vg_quat_euler" then .euler else .axisAngle), 0, x) := by
  rw [tag]
  rfl

theorem readNode_rotate (x : List UInt8) :
    readNode (Op.rotationTag .rotate :: x) =
      (Token.readStr x).map fun (_, x) => (.rotation .rotate, 0, x) := rfl

theorem readNode_bytes (h : n.Readable) (x : List UInt8) :
    readNode (n.structureBytes ++ x) = some (n.op.strip, n.topByte, x) := by
  have small := h.small
  unfold Node.structureBytes Node.topByte at *
  cases op : n.op with
  | unsupported literal reason => exact absurd op (h.supported literal reason)
  | position => rfl
  | constant v =>
    show some (Op.constant ⟨.ofCode v.shape.code, default⟩, (0 : UInt8), x) = _
    rw [Shape.ofCode_code]
    rfl
  | inject name s fallback =>
    rw [op] at small
    simp only [length_append, Token.length_str] at small
    show ((Token.readStr (Token.str name ++ x)).map fun (name, x) =>
      (Op.inject name (.ofCode s.code) none, (0 : UInt8), x)) = _
    rw [Token.readStr_str (by omega), Shape.ofCode_code]
    rfl
  | ref name s =>
    show some (Op.ref "" (.ofCode s.code), (0 : UInt8), x) = _
    rw [Shape.ofCode_code]
    rfl
  | binary b =>
    show some (Op.binary (.ofCode b.code), (0 : UInt8), x) = _
    rw [BinaryOp.ofCode_code]
    rfl
  | unary u =>
    show some (Op.unary (.ofCode u.code), (0 : UInt8), x) = _
    rw [UnaryOp.ofCode_code]
    rfl
  | dot | cross =>
    obtain ⟨b, bytes⟩ := operandBytes_one h (by rw [op]; rfl)
    rw [bytes]
    rfl
  | compare k =>
    obtain ⟨b, bytes⟩ := operandBytes_one h (by rw [op]; rfl)
    rw [bytes]
    show some (Op.compare (.ofCode k.code), (0 : UInt8), x) = _
    rw [CompareOp.ofCode_code]
    rfl
  | logic k => cases k <;> rfl
  | swizzle mask =>
    rw [op] at small
    simp only [length_append, Token.length_str] at small
    show ((Token.readStr (Token.str mask ++ x)).map fun (mask, x) =>
      (Op.swizzle mask, (0 : UInt8), x)) = _
    rw [Token.readStr_str (by omega)]
    rfl
  | construct => rfl
  | cast target =>
    obtain ⟨b, bytes⟩ := operandBytes_one h (by rw [op]; rfl)
    rw [bytes]
    show some (Op.cast (.ofCode target.code), (0 : UInt8), x) = _
    rw [Shape.ofCode_code]
    rfl
  | broadcast target =>
    show some (Op.broadcast (.ofCode n.shape.code), (0 : UInt8), x) = _
    rw [Shape.ofCode_code, shape_of_broadcast h op]
    rfl
  | select => rfl
  | blend b =>
    cases b with
    | lerp | clamp | smoothstep =>
      have length : n.operandBytes.length = 3 := length_blend h op
      show some (_, (0 : UInt8), (n.operandBytes ++ x).drop 3) = _
      rw [drop_left' length]
      rfl
    | remap =>
      have length : n.operandBytes.length = 5 := length_blend h op
      show some (_, (0 : UInt8), (n.operandBytes ++ x).drop 5) = _
      rw [drop_left' length]
      rfl
  | rotation r =>
    dsimp only
    rw [append_assoc, singleton_append]
    cases r with
    | euler | axisAngle =>
      rw [readNode_rotation _ _ rfl, Token.readStr_str (by decide)]
      rfl
    | rotate =>
      rw [readNode_rotate, Token.readStr_str (by decide)]
      rfl
  | noise kind =>
    show some (Op.noise (.ofCode kind.code), (0 : UInt8), x) = _
    rw [NoiseKind.ofCode_code]
    rfl
  | fractal kind k =>
    obtain ⟨low, high⟩ := h.octaves kind k op
    unfold maxOctaves at high
    show ((Token.readU16 (Token.u16 (UInt16.ofInt k) ++ x)).map fun (k, x) =>
      (Op.fractal (.ofCode kind.code) k, (0 : UInt8), x)) = _
    rw [Token.readU16_u16, NoiseKind.ofCode_code]
    show some (Op.fractal kind ((UInt16.ofInt k).toNat : Int), (0 : UInt8), x) = _
    rw [toNat_ofInt (by omega) (by omega)]
    rfl
  | primitive body =>
    obtain ⟨b, bytes⟩ := operandBytes_one h (by rw [op]; rfl)
    rw [bytes]
    cases body <;> rfl
  | combine k smooth => cases k <;> cases smooth <;> rfl
  | distance metric =>
    obtain ⟨b, bytes⟩ := operandBytes_one h (by rw [op]; rfl)
    rw [bytes]
    show some (Op.distance (.ofCode metric.code), (0 : UInt8), x) = _
    rw [Metric.ofCode_code]
    rfl
  | cellular metric feature =>
    show some (Op.cellular (.ofCode metric.code) (.ofCode feature.code), (0 : UInt8), x) = _
    rw [Metric.ofCode_code, CellFeature.ofCode_code]
    rfl
  | cache k =>
    obtain ⟨low, high⟩ := h.reduction k op
    unfold maxReduction at high
    show (match Token.readU16 ((Token.u16 (UInt16.ofInt k) ++ [n.shape.code]) ++ x) with
      | some (k, s :: x) => some (Op.cache k, s, x)
      | _ => none) = _
    rw [append_assoc, Token.readU16_u16]
    show some (Op.cache ((UInt16.ofInt k).toNat : Int), n.shape.code, x) = _
    rw [toNat_ofInt low (by omega)]
    rfl

end

end Terrain
