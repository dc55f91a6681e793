import Terrain.Number.Single

/-!
# CBOR data items

A data item as a tree, its canonical bytes, and the reader of bytes.  Writing uses the shortest
head for every length and the shortest exact float; reading takes any head, lengths left open and
closed by a break, and tags.

* `Item.bytes`   the canonical bytes of an item;
* `Item.read`    the item at the front of a list of bytes, with the bytes behind it;
* `Item.decode`  the one item that a list of bytes is.
-/

namespace Terrain.Cbor

open Number

inductive Item where
  | unsigned (n : Nat)
  /-- the number `-1 - n` -/
  | negative (n : Nat)
  | bytes (b : List UInt8)
  /-- a text in the pieces it was sent in -/
  | text (pieces : List (List UInt8))
  | array (items : List Item)
  | map (pairs : List (Item × Item))
  | tag (number : Nat) (content : Item)
  | simple (n : Nat)
  | float16 (bits : UInt16)
  | float32 (bits : UInt32)
  | float64 (bits : UInt64)
deriving Inhabited, Repr

namespace Item

def null : Item := simple 22
def undefined : Item := simple 23
def ofBool (b : Bool) : Item := simple (if b then 21 else 20)
def ofText (s : String) : Item := text [s.toUTF8.toList]
def ofInt : Int → Item
  | .ofNat n => unsigned n
  | .negSucc n => negative n

def ofSingle (x : Single) : Item :=
  if x.isNaN then float16 0x7e00
  else
    let half := Format.convert .binary32 .binary16 x.bits.toNat
    if Format.convert .binary16 .binary32 half = x.bits.toNat then float16 half.toUInt16
    else float32 x.bits

/-! ## writing -/

def bigEndian : Nat → Nat → List UInt8
  | 0, _ => []
  | k + 1, n => bigEndian k (n / 256) ++ [n.toUInt8]

def head (major n : Nat) : List UInt8 :=
  let first (low : Nat) : UInt8 := (32 * major + low).toUInt8
  if n < 24 then [first n]
  else if n < 0x100 then first 24 :: bigEndian 1 n
  else if n < 0x10000 then first 25 :: bigEndian 2 n
  else if n < 0x100000000 then first 26 :: bigEndian 4 n
  else first 27 :: bigEndian 8 n

mutual

@[simp]
def write : Item → List UInt8
  | unsigned n => head 0 n
  | negative n => head 1 n
  | bytes b => head 2 b.length ++ b
  | text pieces => head 3 pieces.flatten.length ++ pieces.flatten
  | array items => head 4 items.length ++ writeAll items
  | map pairs => head 5 pairs.length ++ writePairs pairs
  | tag number content => head 6 number ++ write content
  | simple n => head 7 n
  | float16 bits => 0xf9 :: bigEndian 2 bits.toNat
  | float32 bits => 0xfa :: bigEndian 4 bits.toNat
  | float64 bits => 0xfb :: bigEndian 8 bits.toNat

def writeAll : List Item → List UInt8
  | [] => []
  | i :: rest => write i ++ writeAll rest

def writePairs : List (Item × Item) → List UInt8
  | [] => []
  | (k, v) :: rest => write k ++ write v ++ writePairs rest

end

/-! ## reading -/

abbrev Reader (α : Type) := List UInt8 → Option (α × List UInt8)

/-- the number in the next `k` bytes, on top of `n` -/
def readNumber : Nat → Nat → Reader Nat
  | 0, n, bs => some (n, bs)
  | _ + 1, _, [] => none
  | k + 1, n, b :: bs => readNumber k (256 * n + b.toNat) bs

def readBytes (n : Nat) : Reader (List UInt8) := fun bs =>
  if n ≤ bs.length then some (bs.take n, bs.drop n) else none

/-- the argument of a head: a number, or none where the length is left open -/
inductive Argument where
  | number (n : Nat)
  | openEnded
deriving DecidableEq, Repr

def readHead : Reader (Nat × Nat × Argument)
  | [] => none
  | b :: bs =>
    let major := b.toNat / 32
    let low := b.toNat % 32
    if low < 24 then some ((major, low, .number low), bs)
    else if low < 28 then
      (readNumber (2 ^ (low - 24)) 0 bs).map fun (n, bs) => ((major, low, .number n), bs)
    else if low = 31 then some ((major, low, .openEnded), bs)
    else none

/-- the most elements of an array, and pairs of a map -/
def maxElements : Nat := 131072

/-- the most arrays and maps around an item -/
def maxDepth : Nat := 32

def readMany {α : Type} (one : Reader α) : Nat → Reader (List α)
  | 0, bs => some ([], bs)
  | n + 1, bs => do
    let (a, bs) ← one bs
    let (rest, bs) ← readMany one n bs
    return (a :: rest, bs)

/-- items up to a break, at most `limit` of them -/
def readUntilBreak {α : Type} (one : Reader α) : Nat → Reader (List α)
  | _, 0xff :: bs => some ([], bs)
  | 0, _ => none
  | limit + 1, bs => do
    let (a, bs) ← one bs
    let (rest, bs) ← readUntilBreak one limit bs
    return (a :: rest, bs)

def readSeveral {α : Type} (one : Reader α) : Argument → Reader (List α)
  | .number n, bs => if n ≤ maxElements then readMany one n bs else none
  | .openEnded, bs => readUntilBreak one maxElements bs

def readPiece (major : Nat) : Reader (List UInt8) := fun bs =>
  match readHead bs with
  | some ((m, _, .number n), bs) => if m = major then readBytes n bs else none
  | _ => none

def readPair (one : Reader Item) : Reader (Item × Item) := fun bs => do
  let (k, bs) ← one bs
  let (v, bs) ← one bs
  return ((k, v), bs)

/-- the leading tags, outermost first; each takes at least one of the bytes that `fuel` counts -/
def readTags : Nat → Reader (List Nat)
  | 0, bs => some ([], bs)
  | fuel + 1, bs =>
    match readHead bs with
    | some ((6, _, .number n), rest) => do
      let (more, rest) ← readTags fuel rest
      return (n :: more, rest)
    | _ => some ([], bs)

/-- an untagged item; `inner` reads what arrays and maps hold, and is missing where they may not
be nested deeper -/
def readUntagged (inner : Option (Reader Item)) : Reader Item := fun bs => do
  let ((major, low, argument), rest) ← readHead bs
  match major, argument with
  | 0, .number n => return (.unsigned n, rest)
  | 1, .number n => return (.negative n, rest)
  | 2, .number n => (readBytes n rest).map fun (b, rest) => (.bytes b, rest)
  | 2, .openEnded =>
    (readUntilBreak (readPiece 2) rest.length rest).map fun (ps, rest) => (.bytes ps.flatten, rest)
  | 3, .number n => (readBytes n rest).map fun (b, rest) => (.text [b], rest)
  | 3, .openEnded =>
    (readUntilBreak (readPiece 3) rest.length rest).map fun (ps, rest) => (.text ps, rest)
  | 4, argument => (readSeveral (← inner) argument rest).map fun (is, rest) => (.array is, rest)
  | 5, argument =>
    (readSeveral (readPair (← inner)) argument rest).map fun (ps, rest) => (.map ps, rest)
  | 7, .number n =>
    match low with
    | 24 => if n < 32 then none else return (.simple n, rest)
    | 25 => return (.float16 n.toUInt16, rest)
    | 26 => return (.float32 n.toUInt32, rest)
    | 27 => return (.float64 n.toUInt64, rest)
    | _ => return (.simple n, rest)
  | _, _ => none

def readTagged (inner : Option (Reader Item)) : Reader Item := fun bs => do
  let (tags, rest) ← readTags bs.length bs
  let (i, rest) ← readUntagged inner rest
  return (tags.foldr Item.tag i, rest)

/-- the item at the front, with at most `depth` arrays and maps inside one another -/
def read : Nat → Reader Item
  | 0 => readTagged none
  | depth + 1 => readTagged (some (read depth))

def decode (bs : List UInt8) : Option Item :=
  match read maxDepth bs with
  | some (i, []) => some i
  | _ => none

end Item
end Terrain.Cbor
