import FlutterLayout.Json.Value

/-!
# The schema of configuration files

A JSON schema, for editors that complete and check configuration files.
-/

namespace FlutterLayout.Config
namespace Schema

def basic (name : Text) : Json :=
  .object [("type", .string name)]

def reference (name : Text) : Json :=
  .object [("$ref", .string ("#/$defs/" ++ name))]

def listOf (items : Json) : Json :=
  .object [("items", items), ("type", .string "array")]

def textMap : Json :=
  .object [("additionalProperties", basic "string"), ("type", .string "object")]

def record (properties : List (Text × Json)) (required : List Text) : Json :=
  let demands :=
    if required.isEmpty then [] else [Json.member "required" (.array (required.map .string))]
  .object ([Json.member "properties" (.object properties), Json.member "additionalProperties" (.bool false),
    Json.member "type" (.string "object")] ++ demands)

def config : Json :=
  record [("pipeProvider", basic "string"), ("indent", basic "string"), ("fragment", basic "boolean"),
    ("arrayTypes", listOf (basic "string")), ("contentProperties", textMap), ("unnamedProperties", textMap),
    ("controllerTypes", textMap), ("parser", reference "ParserConfig"),
    ("wrappers", listOf (reference "WrapperSpec"))] []

def markup : Json :=
  record [("preserveComments", basic "boolean"), ("ignoreUnknownEntities", basic "boolean")] []

def wrapper : Json :=
  record [("attribute", basic "string"), ("widget", basic "string"), ("property", basic "string"),
    ("child", basic "boolean"), ("priority", basic "integer"), ("related", textMap), ("defaults", textMap)]
    ["attribute", "widget"]

def identity : Text :=
  "https://github.com/waseemdev/vscode-flutter.xml-layout-sub000/cmd/flutterxml/internal/config/config"

def document : Json :=
  .object [("$schema", .string "https://json-schema.org/draft/2020-12/schema"), ("$id", .string identity),
    ("$ref", .string "#/$defs/Config"),
    ("$defs", .object [("Config", config), ("ParserConfig", markup), ("WrapperSpec", wrapper)])]

def text : Text :=
  document.indented

end Schema
end FlutterLayout.Config
