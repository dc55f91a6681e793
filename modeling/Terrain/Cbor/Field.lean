import Terrain.Cbor.Item
import Terrain.Value

/-!
# Typed fields of records

A record is a map from small numbers to fields.  Reading a field is lenient about how a number was
sent and strict about its kind and range: null and undefined leave a field at its zero, a number
must fit, text must be valid UTF-8.  A key is an integer or its decimal text; unknown keys are
skipped, and of a repeated key the first stands.
-/

namespace Terrain.Cbor

open Number

/-- may a tag stand in front of this content? -/
def tagAdmits (number : Nat) : Item → Bool
  | .text _ => number != 1 && number != 2 && number != 3
  | .unsigned _ | .negative _ | .float16 _ | .float32 _ | .float64 _ =>
    number != 0 && number != 2 && number != 3
  | .bytes _ => number != 0 && number != 1
  | _ => 3 < number

/-- the content behind tags; a big number keeps its tag -/
def Item.untagged : Item → Option Item
  | .tag number content =>
    if tagAdmits number content then
      if number = 2 ∨ number = 3 then some (.tag number content) else content.untagged
    else none
  | i => some i

def bigNumber (bytes : List UInt8) : Nat := bytes.foldl (fun n b => 256 * n + b.toNat) 0

def isNull : Item → Bool
  | .simple n => n == 22 || n == 23
  | _ => false

/-! ## scalars -/

/-- a whole number in a field that holds `low … high`; null is zero -/
def Item.toInt (low high : Int) (i : Item) : Option Int := do
  let n : Int ← match ← i.untagged with
    | .unsigned n => some (n : Int)
    | .negative n => some (-1 - (n : Int))
    | .tag 2 (.bytes b) => some (bigNumber b : Int)
    | .tag 3 (.bytes b) => some (-1 - (bigNumber b : Int))
    | .simple n => if n = 22 ∨ n = 23 then some 0 else if n = 20 ∨ n = 21 then none else some (n : Int)
    | _ => none
  if low ≤ n ∧ n ≤ high then some n else none

def Item.toWord (i : Item) : Option Int := i.toInt (-2 ^ 63) (2 ^ 63 - 1)

def Item.toByte (i : Item) : Option UInt8 := (i.toInt 0 255).map UInt8.ofInt

def Item.toBool (i : Item) : Option Bool := do
  match ← i.untagged with
  | .simple 20 => some false
  | .simple 21 => some true
  | .simple 22 | .simple 23 => some false
  | _ => none

def Item.toText (i : Item) : Option String := do
  match ← i.untagged with
  | .text pieces =>
    let parts ← pieces.mapM fun p => String.fromUTF8? (ByteArray.mk p.toArray)
    some (String.join parts)
  | .simple 22 | .simple 23 => some ""
  | _ => none

def singleOf (d : Datum) : Option Single :=
  if d.overflowsSingle then none else some (.ofDatum d)

/-- a whole number goes through the wider float -/
def singleOfInt (n : Int) : Single := .ofDouble (.ofInt n)

def Item.toSingle (i : Item) : Option Single := do
  match ← i.untagged with
  | .float16 b => singleOf (Format.binary16.unpack b.toNat)
  | .float32 b => singleOf (Format.binary32.unpack b.toNat)
  | .float64 b => singleOf (Format.binary64.unpack b.toNat)
  | .simple 22 | .simple 23 => some .zero
  | .simple 20 | .simple 21 => none
  | .simple n => some (singleOfInt n)
  | .unsigned n => some (singleOfInt n)
  | .negative n => if n < 2 ^ 63 then some (singleOfInt (-1 - (n : Int))) else none
  | .tag 2 (.bytes b) => if bigNumber b < 2 ^ 64 then some (singleOfInt (bigNumber b)) else none
  | .tag 3 (.bytes b) =>
    if bigNumber b < 2 ^ 63 then some (singleOfInt (-1 - (bigNumber b : Int))) else none
  | _ => none

/-! ## lists and records -/

/-- a list field, absent where it is null -/
def Item.toList {α : Type} (one : Item → Option α) (i : Item) : Option (Option (List α)) := do
  match ← i.untagged with
  | .array items => (items.mapM one).map some
  | .simple 22 | .simple 23 => some none
  | _ => none

/-- a field of fixed length: the elements that fit in it, what is beyond them not looked at -/
def Item.toFixed {α : Type} (length : Nat) (one : Item → Option α) (i : Item) : Option (List α) := do
  match ← i.untagged with
  | .array items => (items.take length).mapM one
  | .simple 22 | .simple 23 => some []
  | _ => none

def Item.toByteField (length : Nat) (i : Item) : Option (List UInt8) := do
  match ← i.untagged with
  | .bytes b => some (b.take length)
  | .tag _ (.bytes b) => some (b.take length)
  | i => i.toFixed length Item.toByte

def Item.toBytes (i : Item) : Option (List UInt8) := do
  match ← i.untagged with
  | .bytes b => some b
  | .simple 22 | .simple 23 => some []
  | _ => none

/-- a table with texts as keys; null is empty -/
def Item.toTable {α : Type} (one : Item → Option α) (i : Item) : Option (List (String × α)) := do
  match ← i.untagged with
  | .map pairs => pairs.mapM fun (k, v) => return (← k.toText, ← one v)
  | .simple 22 | .simple 23 => some []
  | _ => none

def keyLe (a b : String) : Bool :=
  a.utf8ByteSize < b.utf8ByteSize || (a.utf8ByteSize == b.utf8ByteSize && a ≤ b)

def Item.ofTable {α : Type} (one : α → Item) (rows : List (String × α)) : Item :=
  .map ((rows.mergeSort fun a b => keyLe a.1 b.1).map fun (k, v) => (.ofText k, one v))

/-- the number of the field that a key names, none for a field that no record has -/
def keyNumber : Item → Option (Option Nat)
  | .unsigned n => some (some n)
  | .negative n => if n < 2 ^ 63 then some none else none
  | .text pieces => do
    let s ← (Item.text pieces).toText
    -- the decimal text of a field number names the field
    some ((List.range 16).find? fun n => toString n == s)
  | _ => none

abbrev Fields := List (Nat × Item)

def readFields : List (Item × Item) → Option Fields
  | [] => some []
  | (k, v) :: rest => do
    let key ← keyNumber k
    let more ← readFields rest
    return match key with
      | some n => (n, v) :: more
      | none => more

/-- the fields of a record; null has none -/
def Item.toFields (i : Item) : Option Fields := do
  match ← i.untagged with
  | .map pairs => readFields pairs
  | .simple 22 | .simple 23 => some []
  | _ => none

/-- a field read by `one`, null where the record has none -/
def Fields.get {α : Type} (fs : Fields) (n : Nat) (one : Item → Option α) : Option α :=
  one ((fs.lookup n).getD Item.null)

end Terrain.Cbor
