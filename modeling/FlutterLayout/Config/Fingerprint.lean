import FlutterLayout.Config.Basic
import FlutterLayout.Json.Value

/-!
# Fingerprints of configurations

The JSON text of a configuration tells configurations apart, so outputs made under one are not used under
another.
-/

namespace FlutterLayout.Config

def entriesJson (entries : List (Text × Text)) : Json :=
  .object ((byKey entries).map fun e => (e.1, .string e.2))

def textMember (name value : Text) : List (Text × Json) :=
  if value.isEmpty then [] else [(name, .string value)]

def boolMember (name : Text) (value : Bool) : List (Text × Json) :=
  if value then [(name, .bool true)] else []

def entriesMember (name : Text) (entries : List (Text × Text)) : List (Text × Json) :=
  if entries.isEmpty then [] else [(name, entriesJson entries)]

def listMember (name : Text) (items : List Json) : List (Text × Json) :=
  if items.isEmpty then [] else [(name, .array items)]

def wrapperJson (w : Directive.WrapperSpec) : Json :=
  .object ([Json.member "attribute" (.string w.name), Json.member "widget" (.string w.widget)]
    ++ textMember "property" w.property ++ boolMember "child" w.child
    ++ (if w.priority = 0 then [] else [Json.member "priority" (Json.ofInt w.priority.toInt)])
    ++ entriesMember "related" w.related ++ entriesMember "defaults" w.defaults)

def toJson (c : Config) : Json :=
  .object (textMember "pipeProvider" c.provider ++ textMember "indent" c.indent
    ++ boolMember "fragment" c.fragment ++ listMember "arrayTypes" (c.arrayTypes.map .string)
    ++ entriesMember "contentProperties" c.contentProperties
    ++ entriesMember "unnamedProperties" c.unnamedProperties
    ++ entriesMember "controllerTypes" c.controllerTypes
    ++ [Json.member "parser" (.object (boolMember "preserveComments" c.keepComments
      ++ boolMember "ignoreUnknownEntities" c.ignoreUnknownEntities))]
    ++ listMember "wrappers" (c.wrappers.map wrapperJson))

def fingerprint (c : Config) : Text :=
  c.toJson.compact

end FlutterLayout.Config
