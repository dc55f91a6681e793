import Terrain.Artifact.Wire

/-!
# Stores of artifacts

Artifacts by digest.  A `MemoryStore` keeps the artifacts themselves; a `TableStore` keeps rows of
a text key and the artifact's bytes, as a database table would, and can be closed.  Both list
digests in ascending order.
-/

namespace Terrain

open Hash

structure StoreOps (σ : Type) where
  put : σ → Option Artifact → Except ArtifactError σ
  get : σ → Digest → Except ArtifactError Artifact
  has : σ → Digest → Except ArtifactError Bool
  digests : σ → Except ArtifactError (List Digest)

/-! ## association lists in key order -/

def insertSorted {κ α : Type} [BEq κ] (le : κ → κ → Bool) (k : κ) (a : α) :
    List (κ × α) → List (κ × α)
  | [] => [(k, a)]
  | (k', a') :: rest =>
    if k == k' then (k, a) :: rest
    else if le k k' then (k, a) :: (k', a') :: rest
    else (k', a') :: insertSorted le k a rest

def bytesLe : List UInt8 → List UInt8 → Bool
  | [], _ => true
  | _ :: _, [] => false
  | a :: as, b :: bs => if a < b then true else if b < a then false else bytesLe as bs

def Hash.Digest.le (a b : Digest) : Bool := bytesLe a.bytes b.bytes

/-! ## in memory -/

structure MemoryStore where
  rows : List (Digest × Artifact)

namespace MemoryStore

def empty : MemoryStore := ⟨[]⟩

def get (s : MemoryStore) (d : Digest) : Except ArtifactError Artifact :=
  match s.rows.lookup d with
  | some a => .ok a
  | none => .error .notFound

def put (s : MemoryStore) : Option Artifact → Except ArtifactError MemoryStore
  | none => .error .missing
  | some a => (a.check).map fun _ => ⟨insertSorted Digest.le a.digest a s.rows⟩

def has (s : MemoryStore) (d : Digest) : Bool := (s.rows.lookup d).isSome

def digests (s : MemoryStore) : List Digest := s.rows.map Prod.fst

def size (s : MemoryStore) : Nat := s.rows.length

def ops : StoreOps MemoryStore where
  put := put
  get := get
  has := fun s d => .ok (s.has d)
  digests := fun s => .ok s.digests

end MemoryStore

/-! ## in a table -/

structure TableStore where
  path : String
  rows : List (String × List UInt8)
  closed : Bool

namespace TableStore

def empty (path : String) : TableStore := ⟨path, [], false⟩

def write (s : TableStore) (key : String) (data : List UInt8) : TableStore :=
  { s with rows := insertSorted (fun a b => a ≤ b) key data s.rows }

def close (s : TableStore) : TableStore := { s with closed := true }
def reopen (s : TableStore) : TableStore := { s with closed := false }

def put (s : TableStore) : Option Artifact → Except ArtifactError TableStore
  | none => .error .missing
  | some a =>
    match a.marshal with
    | .error e => .error e
    | .ok data =>
      if s.closed then .error (.closed "saving artifact") else .ok (s.write a.digest.text data)

def get (s : TableStore) (d : Digest) : Except ArtifactError Artifact :=
  if s.closed then .error (.closed "querying artifact")
  else match s.rows.lookup d.text with
    | none => .error .notFound
    | some data =>
      match Artifact.unmarshal data with
      | .error e => .error e
      | .ok a => if a.digest = d then .ok a else .error (.wrongRow d.short a.digest.short)

def has (s : TableStore) (d : Digest) : Except ArtifactError Bool :=
  if s.closed then .error (.closed "querying artifact")
  else .ok (s.rows.lookup d.text).isSome

def readKeys : List String → Except ArtifactError (List Digest)
  | [] => .ok []
  | key :: rest =>
    match Digest.parse key with
    | .error e => .error (.badRow key e)
    | .ok d => (readKeys rest).map (d :: ·)

def digests (s : TableStore) : Except ArtifactError (List Digest) :=
  if s.closed then .error (.closed "listing artifacts") else readKeys (s.rows.map Prod.fst)

def toBytes (s : TableStore) : List UInt8 := (Cbor.Item.ofTable Cbor.Item.bytes s.rows).write

/-- the table that a file holds; an empty file holds an empty one -/
def ofBytes (path : String) (bytes : List UInt8) : Option TableStore :=
  if bytes.isEmpty then some (empty path)
  else do
    let rows ← (← Cbor.Item.decode bytes).toTable Cbor.Item.toBytes
    return rows.foldl (fun s (key, data) => s.write key data) (empty path)

def ops : StoreOps TableStore where
  put := put
  get := get
  has := has
  digests := digests

end TableStore
end Terrain
