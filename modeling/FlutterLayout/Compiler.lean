import FlutterLayout.Markup.Document
import FlutterLayout.Layout.Resolution
import FlutterLayout.Dart.Emission

/-!
# The compiler

A `Compiler` holds everything that is configured: how markup is read, how layouts are resolved and how
code is indented.  `compile` takes one source to the Dart expression of its widget, and to what the widget
declares for the enclosing class.
-/

namespace FlutterLayout

structure Compiler where
  markup : Markup.ReadOptions := {}
  layout : Layout.Options := .standard
  /-- One level of indentation; empty for the default one. -/
  indent : Text := []

/-- The result of compiling one source. -/
structure Output where
  /-- The expression of the widget; empty when the source has none. -/
  code : Text
  info : Layout.ClassInfo
  declarations : Tree.Declarations
  deriving DecidableEq, Repr

/-- Why a source cannot be compiled. -/
inductive CompileError where
  | malformed (e : Markup.SyntaxError)
  | invalid (e : Layout.LayoutError)
  | unreadable (e : Text.UnreadableName)

namespace CompileError

def malformedLead : Text := "parse layout: "

def invalidLead : Text := "resolve layout: "

def message : CompileError → Text
  | malformed e => malformedLead ++ e.message
  | invalid e => invalidLead ++ e.message
  | unreadable e => invalidLead ++ e.message

end CompileError

namespace Compiler

def readingBy (c : Compiler) (reading : Pipe.Reading) : Compiler :=
  { c with layout := { c.layout with reading := reading } }

def resolve (c : Compiler) (filename source : Text) : Except CompileError Layout.Resolution :=
  match Markup.Document.read c.markup filename source with
  | .error e => .error (.malformed e)
  | .ok d =>
    match Layout.resolve { c.layout with filename := filename } d with
    | .ok r => .ok r
    | .error (.invalid e) => .error (.invalid e)
    | .error (.unreadable e) => .error (.unreadable e)

def output (c : Compiler) (r : Layout.Resolution) : Output :=
  ⟨Dart.emit c.layout.handlers c.indent r.tree r.root 0, r.info, r.tree.declarations r.root⟩

/-- Compiles a source; the file name appears in errors only. -/
def compile (c : Compiler) (filename source : Text) : Except CompileError Output :=
  (c.resolve filename source).map c.output

end Compiler

end FlutterLayout
