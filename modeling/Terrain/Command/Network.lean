import Terrain.Service.Handler

/-!
# Other hosts

What a command asks of the network: a compile service to compile a document or to look an artifact
up.  Answers that do not come have a text.  An address to listen at is a host and a port with a
colon between them.
-/

namespace Terrain.Command

open Hash (Digest)
open Service (CompileRequest CompileResponse)

structure Network (m : Type → Type) where
  compile : (url : String) → CompileRequest → m (Except String CompileResponse)
  fetch : (host : String) → Digest → m (Except String Program)

def withoutScheme (address : String) : String :=
  let stripped := (address.dropPrefix "http://").toString
  (stripped.dropPrefix "https://").toString

def hostOf (address : String) : String :=
  String.ofList ((withoutScheme address).toList.takeWhile (· != '/'))

namespace Network

variable {m : Type → Type} [Monad m]

def dialError (host : String) : String := s!"dial tcp {host}: connect: network is unreachable"

def trimSlashes (url : String) : String :=
  String.ofList (url.toList.reverse.dropWhile (· == '/')).reverse

def isSchemeChar (c : Char) : Bool := c.isAlphanum || c == '+' || c == '-' || c == '.'

def scheme? (url : String) : Option String :=
  let word := url.toList.takeWhile isSchemeChar
  if (word.head?.map Char.isAlpha).getD false && url.toList[word.length]? == some ':' then
    some (String.ofList (word.map Char.toLower))
  else none

def compileError (url : String) : String :=
  let target := trimSlashes url ++ "/voxgraph.v1.CompileService/Compile"
  match scheme? target with
  | some scheme =>
    if scheme == "http" || scheme == "https" then "unavailable: " ++ dialError (hostOf url)
    else "unavailable: unsupported protocol scheme " ++ Text.quoted scheme
  | none =>
    s!"unavailable: URL {Text.quoted target} missing scheme: " ++
      "use http:// or https:// (unlike grpc-go)"

def fetchError (host : String) : String :=
  "rpc error: code = Unavailable desc = connection error: desc = " ++
    Text.quoted ("transport: Error while dialing: " ++ dialError host)

def unreachable : Network m where
  compile url _ := return .error (compileError url)
  fetch host _ := return .error (fetchError host)

end Network

/-! ## addresses to listen at -/

inductive AddressFault where
  | missingPort
  | tooManyColons
  | missingBracket
  | unexpectedBracket (c : Char)
deriving DecidableEq, Repr

def AddressFault.message : AddressFault → String
  | missingPort => "missing port in address"
  | tooManyColons => "too many colons in address"
  | missingBracket => "missing ']' in address"
  | unexpectedBracket c => s!"unexpected '{c}' in address"

def lastColon? (cs : List Char) : Option (List Char × List Char) :=
  match cs.reverse.dropWhile (· != ':') with
  | _ :: host => some (host.reverse, (cs.reverse.takeWhile (· != ':')).reverse)
  | [] => none

def checkBrackets (opening closing : List Char) : Except AddressFault Unit :=
  if opening.contains '[' then .error (.unexpectedBracket '[')
  else if closing.contains ']' then .error (.unexpectedBracket ']')
  else .ok ()

/-- host and port of an address; colons in a host need brackets around it -/
def splitAddress (address : String) : Except AddressFault (String × String) :=
  let cs := address.toList
  match lastColon? cs with
  | none => .error .missingPort
  | some (host, port) =>
    match cs with
    | '[' :: inner =>
      if !inner.contains ']' then .error .missingBracket
      else
        let name := inner.takeWhile (· != ']')
        match inner.dropWhile (· != ']') with
        | [_] => .error .missingPort
        | _ :: rest =>
          if rest == ':' :: port then
            (checkBrackets inner rest).map fun _ => (String.ofList name, String.ofList port)
          else if rest.head? == some ':' then .error .tooManyColons
          else .error .missingPort
        | [] => .error .missingBracket
    | _ =>
      if host.contains ':' then .error .tooManyColons
      else (checkBrackets cs cs).map fun _ => (String.ofList host, String.ofList port)

end Terrain.Command
