/-!
# The definition of the artifact service

The service that reads stored artifacts, in the text of the interface definition language that its
clients are generated from.
-/

namespace Terrain.Service

structure Method where
  name : String
  comment : String
  request : String
  response : String

structure Definition where
  package : String
  imports : List String
  name : String
  comment : String
  methods : List Method

def Method.lines (m : Method) : List String :=
  ["  // " ++ m.comment, s!"  rpc {m.name} ( {m.request} ) returns ( {m.response} );"]

def Definition.text (d : Definition) : String :=
  let lines := ["syntax = \"proto3\";", s!"package {d.package};"] ++
    (d.imports.map fun file => s!"import \"{file}\";") ++
    ["// " ++ d.comment, "service " ++ d.name ++ " \x7b"] ++
    d.methods.flatMap Method.lines ++ ["\x7d"]
  String.join (lines.map (· ++ "\n"))

def artifactDefinition : Definition where
  package := "voxgraph.v1"
  imports := ["google/protobuf/empty.proto", "google/protobuf/struct.proto",
    "google/protobuf/wrappers.proto"]
  name := "ArtifactService"
  comment := "Read access to compiled voxel graph artifacts."
  methods := [
    ⟨"GetArtifact", "Canonical CBOR artifact for a hex structural hash.",
      "google.protobuf.StringValue", "google.protobuf.BytesValue"⟩,
    ⟨"GetSource", "WGSL source for a hex structural hash.",
      "google.protobuf.StringValue", "google.protobuf.StringValue"⟩,
    ⟨"ListHashes", "Stored hashes in ascending order.",
      "google.protobuf.Empty", "google.protobuf.ListValue"⟩]

end Terrain.Service
