import Terrain.Compile.Parse
import Terrain.Document.Read
import Terrain.Document.Resolve

/-!
# Compiling documents

The parameters of a document are used where the caller binds none.
-/

namespace Terrain.Document

def values (doc : Document) : Except DocumentError Bindings :=
  doc.parameters.mapM fun (name, s) =>
    match s.toValue with
    | .ok v => .ok (name, v)
    | .error e => .error (.parameter name e)

def compile (doc : Document) (g : Graph) (options : Compile.Options) :
    Except DocumentError Program × Graph :=
  let (roots?, g) := doc.roots g
  let result := do
    let roots ← roots?
    let values ← doc.values
    let options := { options with bindings := options.bindings ++ values }
    (g.compile roots options).mapError .compile
  (result, g)

end Terrain.Document
