import Terrain.Artifact.Store
import Terrain.Document.Compile
import Terrain.Service.Message
import Terrain.Service.Worker

/-!
# The compile service

A service compiles documents on a worker and keeps every program in a store, from which it can be
fetched by digest.  Documents are built on one graph, so a node number is never used twice.

A refusal has a code that says who can do something about it: the caller, with another document or
other options, or nobody.
-/

namespace Terrain.Service

open Hash (Digest)
open Text

inductive Code where
  | invalidArgument
  | failedPrecondition
  | notFound
  | resourceExhausted
  | unavailable
  | internal
deriving DecidableEq, Repr

namespace Code

def name : Code → String
  | invalidArgument => "invalid_argument"
  | failedPrecondition => "failed_precondition"
  | notFound => "not_found"
  | resourceExhausted => "resource_exhausted"
  | unavailable => "unavailable"
  | internal => "internal"

def statusName : Code → String
  | invalidArgument => "InvalidArgument"
  | failedPrecondition => "FailedPrecondition"
  | notFound => "NotFound"
  | resourceExhausted => "ResourceExhausted"
  | unavailable => "Unavailable"
  | internal => "Internal"

end Code

inductive ServiceError where
  | noDocument
  | document (e : DocumentError)
  | work (e : WorkError DocumentError)
  | store (e : ArtifactError)
  | badDigest (text : String) (reason : Digest.Error)
  | notFound (digest : Digest)
  | tooLarge (size limit : Nat)
  | undecodable

namespace ServiceError

/-- a document or graph that can never compile is the caller's; one that lacks a parameter may
compile later -/
def codeOf : Blame → Code
  | .graph | .shape => .invalidArgument
  | .configuration => .failedPrecondition
  | .other => .internal

def code : ServiceError → Code
  | noDocument | document _ | badDigest _ _ | undecodable => .invalidArgument
  | work (.job e) => codeOf e.blame
  | work (.crashed _) => .internal
  | work .stopped => .unavailable
  | store _ => .internal
  | notFound _ => .notFound
  | tooLarge _ _ => .resourceExhausted

def message : ServiceError → String
  | noDocument => "document is required"
  | document e => e.message
  | work e => e.message DocumentError.message
  | store e => e.message
  | badDigest text reason => s!"hash {quoted text}: {reason.message}"
  | notFound digest => s!"artifact {digest.short} not found"
  | tooLarge size limit => s!"message size {size} is larger than configured max {limit}"
  | undecodable => "unmarshal message"

def text (e : ServiceError) : String := s!"{e.code.name}: {e.message}"

def statusText (e : ServiceError) : String :=
  s!"rpc error: code = {e.code.statusName} desc = {e.message}"

end ServiceError

structure Server where
  worker : Worker
  store : MemoryStore
  graph : Graph
  limit : Nat

namespace Server

def defaultLimit : Nat := 4 * 1024 * 1024

def start (limit : Nat) : Server := ⟨.running, .empty, .initial, limit⟩

def stop (s : Server) : Server := { s with worker := s.worker.stop }

def compileJob (doc : Document) (options : Compile.Options) (g : Graph) :
    Outcome DocumentError Program × Graph :=
  match doc.compile g options with
  | (.ok p, g) => (.done p, g)
  | (.error (.compile (.fault f)), g) => (.crashed f.message, g)
  | (.error e, g) => (.failed e, g)

def keep (s : Server) (p : Program) : Except ServiceError CompileResponse × Server :=
  match s.store.put (some (.ofProgram p)) with
  | .ok store => (.ok ⟨p, s.store.has p.digest⟩, { s with store })
  | .error e => (.error (.store e), s)

def compile (s : Server) (r : CompileRequest) :
    Except ServiceError CompileResponse × Server :=
  if r.document.isEmpty then (.error .noDocument, s)
  else match Document.parse r.document with
    | .error e => (.error (.document e), s)
    | .ok doc =>
      match s.worker.perform (compileJob doc r.options) s.graph with
      | (.error e, graph) => (.error (.work e), { s with graph })
      | (.ok p, graph) => { s with graph }.keep p

def fetch (s : Server) (text : String) : Except ServiceError Program :=
  match Digest.parse text with
  | .error reason => .error (.badDigest text reason)
  | .ok digest =>
    match s.store.get digest with
    | .ok a => .ok a.program
    | .error .notFound => .error (.notFound digest)
    | .error e => .error (.store e)

def list (s : Server) : List Digest := s.store.digests

/-! ## over the wire -/

def checkLength (s : Server) (bytes : List UInt8) : Except ServiceError Unit :=
  if s.limit < bytes.length then .error (.tooLarge bytes.length s.limit) else .ok ()

def serveCompile (s : Server) (bytes : List UInt8) :
    Except ServiceError (List UInt8) × Server :=
  match s.checkLength bytes, CompileRequest.decode bytes with
  | .error e, _ => (.error e, s)
  | .ok (), none => (.error .undecodable, s)
  | .ok (), some r =>
    let (response, s) := s.compile r
    (response.map CompileResponse.encode, s)

def callCompile (s : Server) (r : CompileRequest) :
    Except ServiceError CompileResponse × Server :=
  let (bytes, s) := s.serveCompile r.encode
  (bytes.bind fun bytes =>
    match CompileResponse.decode bytes with
    | some response => .ok response
    | none => .error .undecodable, s)

def received (p : Program) : Except ServiceError Program :=
  match (Cbor.Item.decode p.toItem.write).bind Program.ofItem with
  | some p => .ok p
  | none => .error .undecodable

def callFetch (s : Server) (text : String) : Except ServiceError Program := do
  let bytes := encodeFetch text
  s.checkLength bytes
  match decodeFetch bytes with
  | none => .error .undecodable
  | some text => received (← s.fetch text)

end Server
end Terrain.Service
