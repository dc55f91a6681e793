import Terrain.Cbor.Field
import Terrain.Program

/-!
# Artifacts

A program on the wire.  Every record is a map from field numbers, in ascending order; an absent or
empty list of buffers or parameters is left out, an absent list of a dispatch is null.  What is read is
only an artifact if it has a digest and something to dispatch.
-/

namespace Terrain

open Cbor Hash

namespace Value

def toItem (v : Value) : Item :=
  .map [(.unsigned 1, .unsigned v.shape.code.toNat),
    (.unsigned 2, .array (v.lanes.toList.map Item.ofSingle))]

def ofItem (i : Item) : Option Value := do
  let fs ← i.toFields
  let shape ← fs.get 1 Item.toByte
  let lanes ← fs.get 2 (Item.toFixed 4 Item.toSingle)
  return ⟨.ofCode shape, .ofList lanes⟩

end Value

/-- a list of names, null where it is absent -/
def namesItem : Option (List String) → Item
  | some names => .array (names.map Item.ofText)
  | none => .null

namespace Dispatch

def toItem (d : Dispatch) : Item :=
  .map [(.unsigned 1, .ofText d.name), (.unsigned 2, .ofInt d.depth),
    (.unsigned 3, .unsigned d.dims.count.toNat), (.unsigned 4, .ofInt d.reduction),
    (.unsigned 5, namesItem d.outputs), (.unsigned 6, namesItem d.buffers)]

def ofItem (i : Item) : Option Dispatch := do
  let fs ← i.toFields
  return { name := ← fs.get 1 Item.toText
           depth := ← fs.get 2 Item.toWord
           dims := ⟨← fs.get 3 Item.toByte⟩
           reduction := ← fs.get 4 Item.toWord
           outputs := ← fs.get 5 (Item.toList Item.toText)
           buffers := ← fs.get 6 (Item.toList Item.toText) }

end Dispatch

namespace Buffer

def toItem (b : Buffer) : Item :=
  .map [(.unsigned 1, .ofText b.name), (.unsigned 2, .ofText b.symbol),
    (.unsigned 3, .ofInt b.group), (.unsigned 4, .ofInt b.binding),
    (.unsigned 5, .unsigned b.shape.code.toNat), (.unsigned 6, .unsigned b.dims.count.toNat),
    (.unsigned 7, .ofInt b.reduction), (.unsigned 8, .ofText b.dispatch)]

def ofItem (i : Item) : Option Buffer := do
  let fs ← i.toFields
  return { name := ← fs.get 1 Item.toText
           symbol := ← fs.get 2 Item.toText
           group := ← fs.get 3 Item.toWord
           binding := ← fs.get 4 Item.toWord
           shape := .ofCode (← fs.get 5 Item.toByte)
           dims := ⟨← fs.get 6 Item.toByte⟩
           reduction := ← fs.get 7 Item.toWord
           dispatch := ← fs.get 8 Item.toText }

end Buffer

namespace Parameter

def toItem (p : Parameter) : Item :=
  .map ([(.unsigned 1, .ofInt p.slot)] ++
    (if p.name.isEmpty then [] else [(.unsigned 2, .ofText p.name)]) ++
    [(.unsigned 3, .unsigned p.shape.code.toNat), (.unsigned 4, p.value.toItem)] ++
    (if p.injected then [(.unsigned 5, .ofBool true)] else []))

def ofItem (i : Item) : Option Parameter := do
  let fs ← i.toFields
  return { slot := ← fs.get 1 Item.toWord
           name := ← fs.get 2 Item.toText
           shape := .ofCode (← fs.get 3 Item.toByte)
           value := ← fs.get 4 Value.ofItem
           injected := ← fs.get 5 Item.toBool }

end Parameter

inductive ArtifactError where
  | missing
  | zeroDigest
  | noDispatches (short : String)
  | undecodable
  | wrongRow (row holds : String)
  | notFound
  | badRow (text : String) (reason : Digest.Error)
  /-- the store is closed; the method that met it -/
  | closed (method : String)
deriving DecidableEq, Repr

def ArtifactError.message : ArtifactError → String
  | missing => "artifact: nil artifact"
  | zeroDigest => "artifact: zero hash"
  | noDispatches short => s!"artifact {short}: no dispatches"
  | undecodable => "artifact: unmarshal"
  | wrongRow row holds => s!"artifact: row {row} holds {holds}"
  | notFound => "artifact not found"
  | badRow text reason => s!"artifact row {Text.quoted text}: {reason.message}"
  | closed method => method ++ ": sql: database is closed"

/-- an optional list that is never sent empty -/
def listField (n : Nat) (items : List Item) : List (Item × Item) :=
  if items.isEmpty then [] else [(.unsigned n, .array items)]

/-- a program as it is sent; a list that is absent is not an empty one -/
structure Artifact where
  digest : Digest
  source : String
  workgroup : Int
  dispatches : List Dispatch
  buffers : Option (List Buffer)
  parameters : Option (List Parameter)
deriving DecidableEq

namespace Artifact

def ofProgram (p : Program) : Artifact :=
  ⟨p.digest, p.source, p.workgroup, p.dispatches, some p.buffers, some p.parameters⟩

def program (a : Artifact) : Program where
  source := a.source
  digest := a.digest
  workgroup := a.workgroup
  dispatches := a.dispatches
  buffers := a.buffers.getD []
  parameters := a.parameters.getD []

def toItem (a : Artifact) : Item :=
  .map ([(.unsigned 1, .bytes a.digest.bytes), (.unsigned 2, .ofText a.source),
    (.unsigned 3, .ofInt a.workgroup), (.unsigned 4, .array (a.dispatches.map Dispatch.toItem))] ++
    listField 5 ((a.buffers.getD []).map Buffer.toItem) ++
    listField 6 ((a.parameters.getD []).map Parameter.toItem))

def ofItem (i : Item) : Option Artifact := do
  let fs ← i.toFields
  return { digest := .ofBytes (← fs.get 1 (Item.toByteField 32))
           source := ← fs.get 2 Item.toText
           workgroup := ← fs.get 3 Item.toWord
           dispatches := (← fs.get 4 (Item.toList Dispatch.ofItem)).getD []
           buffers := ← fs.get 5 (Item.toList Buffer.ofItem)
           parameters := ← fs.get 6 (Item.toList Parameter.ofItem) }

def check (a : Artifact) : Except ArtifactError Unit :=
  if a.digest.isZero then .error .zeroDigest
  else if a.dispatches.isEmpty then .error (.noDispatches a.digest.short)
  else .ok ()

def marshal (a : Artifact) : Except ArtifactError (List UInt8) :=
  (a.check).map fun _ => a.toItem.write

def unmarshal (bytes : List UInt8) : Except ArtifactError Artifact :=
  match (Item.decode bytes).bind Artifact.ofItem with
  | none => .error .undecodable
  | some a => (a.check).map fun _ => a

def text (a : Artifact) : String :=
  s!"artifact {a.digest.short} ({a.source.utf8ByteSize} bytes of source, " ++
    s!"{a.dispatches.length} dispatches)"

end Artifact

namespace Program

def toItem (p : Program) : Item := (Artifact.ofProgram p).toItem
def ofItem (i : Item) : Option Program := (Artifact.ofItem i).map Artifact.program

def marshal (p : Program) : Except ArtifactError (List UInt8) := (Artifact.ofProgram p).marshal

def marshal? : Option Program → Except ArtifactError (List UInt8)
  | some p => p.marshal
  | none => .error .missing

def unmarshal (bytes : List UInt8) : Except ArtifactError Program :=
  (Artifact.unmarshal bytes).map Artifact.program

def artifactText (p : Program) : String := (Artifact.ofProgram p).text

end Program
end Terrain
