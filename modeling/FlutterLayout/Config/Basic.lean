import FlutterLayout.Compiler
import FlutterLayout.Config.Wrapper
import FlutterLayout.Yaml.Shape

/-!
# Configuration

A `Config` is what a configuration file says, with defaults for what it leaves out.  `Config.read` reads
one; `Config.compiler` is the compiler it describes.
-/

namespace FlutterLayout

structure Config where
  provider : Text := Pipe.defaultProvider
  indent : Text := Dart.defaultIndent
  fragment : Bool := false
  arrayTypes : List Text := Layout.standardArrayTypes
  contentProperties : List (Text × Text) := Layout.standardContentProperties
  unnamedProperties : List (Text × Text) := Layout.standardUnnamedProperties
  controllerTypes : List (Text × Text) := Directive.standardControllerTypes
  keepComments : Bool := false
  ignoreUnknownEntities : Bool := false
  wrappers : List Directive.WrapperSpec := []
  deriving DecidableEq, Repr

namespace Config

open Yaml (Document Shape Value)

inductive ReadError where
  | unreadable
  | wrapper (index : Nat) (errors : List WrapperError)
  | incomplete (index : Nat)

def ReadError.message : ReadError → Text
  | unreadable => "failed to parse config"
  | wrapper index errors => "wrappers[" ++ Text.ofNat index ++ "]: " ++ decodingReport errors
  | incomplete index => "wrappers[" ++ Text.ofNat index ++ "]: attribute and widget are required"

/-! ## Shapes -/

def shape : Shape :=
  .record
    [("pipeProvider", .text), ("indent", .text), ("fragment", .truth), ("arrayTypes", .list .text),
      ("contentProperties", .map .text), ("unnamedProperties", .map .text), ("controllerTypes", .map .text),
      ("parser", .record [("preserveComments", .truth), ("ignoreUnknownEntities", .truth)])]

def wrappersShape : Shape :=
  .record [("wrappers", .list (.map .anything))]

/-! ## Fields -/

/-- The entries of a mapping with texts as keys; there are none where nothing stands. -/
def entries (v? : Option Value) : List (Text × Value) :=
  match v? with
  | some (.map _ es) =>
    es.filterMap fun (k, v) =>
      match k with
      | .string key => some (key, v)
      | _ => none
  | _ => []

def member? (v? : Option Value) (name : Text) : Option Value :=
  (entries v?).lookup name

def text? (v? : Option Value) : Option Text :=
  match v? with
  | some (.string t) => some t
  | _ => none

/-- A truth value; where nothing stands it is falsehood. -/
def truth (v? : Option Value) : Bool :=
  match v? with
  | some (.bool b) => b
  | _ => false

def items (v? : Option Value) : List Value :=
  match v? with
  | some (.list vs) => vs
  | _ => []

def texts (v? : Option Value) : List Text :=
  (items v?).filterMap fun v => text? (some v)

def pairs (v? : Option Value) : List (Text × Text) :=
  (entries v?).filterMap fun (key, v) => (text? (some v)).map fun t => (key, t)

def merge (base changes : List (Text × Text)) : List (Text × Text) :=
  changes.foldl (fun base (key, value) => putEntry base key value) base

/-! ## Wrappers -/

def readWrappers (index : Nat) :
    List (List (Text × Value)) → Except ReadError (List Directive.WrapperSpec)
  | [] => .ok []
  | es :: rest =>
    let (spec, errors) := decodeWrapper es
    if !errors.isEmpty then .error (.wrapper index errors)
    else if spec.name.isEmpty || spec.widget.isEmpty then .error (.incomplete index)
    else (readWrappers (index + 1) rest).map (spec :: ·)

/-! ## Files -/

def textOr (t? : Option Text) (default : Text) : Text :=
  match t? with
  | some t => if t.isEmpty then default else t
  | none => default

def ofValue (v? : Option Value) : Config :=
  let base : Config := {}
  let arrayTypes := texts (member? v? "arrayTypes")
  let parser := member? v? "parser"
  { provider := textOr (text? (member? v? "pipeProvider")) base.provider
    indent := textOr (text? (member? v? "indent")) base.indent
    fragment := truth (member? v? "fragment")
    arrayTypes := if arrayTypes.isEmpty then base.arrayTypes else arrayTypes
    contentProperties := merge base.contentProperties (pairs (member? v? "contentProperties"))
    unnamedProperties := merge base.unnamedProperties (pairs (member? v? "unnamedProperties"))
    controllerTypes := merge base.controllerTypes (pairs (member? v? "controllerTypes"))
    keepComments := truth (member? parser "preserveComments")
    ignoreUnknownEntities := truth (member? parser "ignoreUnknownEntities") }

/-- The value of a document of a shape; no document is as good as one that says nothing. -/
def fit (d? : Option Document) (s : Shape) : Except ReadError (Option Value) :=
  match d? with
  | none => .ok none
  | some d => (d.fit s).mapError fun _ => .unreadable

def read (source : Text) : Except ReadError Config :=
  match Document.read source with
  | .error _ => .error .unreadable
  | .ok d? => do
    let v? ← fit d? shape
    let raw? ← fit d? wrappersShape
    let wrappers ← readWrappers 0 ((items (member? raw? "wrappers")).map fun v => entries (some v))
    pure { ofValue v? with wrappers := wrappers }

/-! ## Compilers -/

def byKey (entries : List (Text × Text)) : List (Text × Text) :=
  entries.mergeSort fun a b => Text.le a.1 b.1

def wrapperByKey (w : Directive.WrapperSpec) : Directive.WrapperSpec :=
  { w with related := byKey w.related, defaults := byKey w.defaults }

/-- The standard directives and the configured wrappers, which replace those of the same name. -/
def handlers (c : Config) : Directive.Handlers :=
  c.wrappers.foldl (fun hs spec => hs.insert spec.name ⟨.wrapper (wrapperByKey spec), none⟩) Directive.standard

def compiler (c : Config) : Compiler where
  markup := { keepComments := c.keepComments, ignoreUnknownEntities := c.ignoreUnknownEntities }
  layout :=
    { handlers := c.handlers
      literals := Literal.standard
      provider := c.provider
      arrayTypes := c.arrayTypes
      contentProperties := byKey c.contentProperties
      unnamedProperties := byKey c.unnamedProperties
      controllerTypes := byKey c.controllerTypes
      fragment := c.fragment }
  indent := c.indent

end Config

end FlutterLayout
