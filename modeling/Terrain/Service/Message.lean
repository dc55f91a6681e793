import Terrain.Artifact.Wire
import Terrain.Compile.Parse

/-!
# Messages of the compile service

The records that client and service exchange, and their bytes.  A field that says nothing is not
sent: no parameters, no required outputs, a workgroup of zero.  So an empty list of required
outputs arrives as none given.
-/

namespace Terrain

open Cbor

namespace Service

structure CompileRequest where
  document : String
  parameters : Bindings
  required : Option (List String)
  workgroup : Int
deriving DecidableEq

namespace CompileRequest

def options (r : CompileRequest) : Compile.Options := ⟨r.parameters, r.required, r.workgroup⟩

def toItem (r : CompileRequest) : Item :=
  .map ([(.unsigned 1, .bytes r.document.toUTF8.toList)] ++
    (if r.parameters.isEmpty then [] else [(.unsigned 2, .ofTable Value.toItem r.parameters)]) ++
    listField 3 ((r.required.getD []).map Item.ofText) ++
    (if r.workgroup = 0 then [] else [(.unsigned 4, .ofInt r.workgroup)]))

def ofItem (i : Item) : Option CompileRequest := do
  let fs ← i.toFields
  return { document := ← String.fromUTF8? (ByteArray.mk (← fs.get 1 Item.toBytes).toArray)
           parameters := ← fs.get 2 (Item.toTable Value.ofItem)
           required := ← fs.get 3 (Item.toList Item.toText)
           workgroup := ← fs.get 4 Item.toWord }

def encode (r : CompileRequest) : List UInt8 := r.toItem.write
def decode (bytes : List UInt8) : Option CompileRequest := (Item.decode bytes).bind ofItem

end CompileRequest

structure CompileResponse where
  artifact : Program
  /-- was a program of the same structure stored before? -/
  known : Bool

namespace CompileResponse

def toItem (r : CompileResponse) : Item :=
  .map ((.unsigned 1, r.artifact.toItem) ::
    if r.known then [(.unsigned 2, .ofBool true)] else [])

def ofItem (i : Item) : Option CompileResponse := do
  let fs ← i.toFields
  return ⟨← fs.get 1 Program.ofItem, ← fs.get 2 Item.toBool⟩

def encode (r : CompileResponse) : List UInt8 := r.toItem.write
def decode (bytes : List UInt8) : Option CompileResponse := (Item.decode bytes).bind ofItem

end CompileResponse

def encodeFetch (text : String) : List UInt8 := (Item.map [(.unsigned 1, .ofText text)]).write

def decodeFetch (bytes : List UInt8) : Option String := do
  (← (← Item.decode bytes).toFields).get 1 Item.toText

end Service
end Terrain
