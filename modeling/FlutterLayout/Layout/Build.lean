import FlutterLayout.Markup.Node
import FlutterLayout.Pipe.Sharing
import FlutterLayout.Widget.Traversal
import FlutterLayout.Directive.Standard

/-!
# Building a tree

The options of a layout, and the steps every directive is built from: adding and changing widgets,
resolving a value and setting a property.
-/

namespace FlutterLayout.Layout

/-! ## Errors of layouts

A document that is well-formed may still be no layout.  `Cause` lists what can be wrong with it. -/

inductive Cause where
  | severalRoots (count : Nat)
  | reactiveCondition (condition : Text)
  | ruleFailed (failure value : Text)
  deriving DecidableEq, Repr

def Cause.message : Cause → Text
  | severalRoots count => "only one widget root is allowed, found " ++ Text.ofNat count
  | reactiveCondition condition =>
    "reactive pipe in condition " ++ Text.quoted condition ++ " of a conditional with more than one child"
  | ruleFailed failure value => failure ++ " " ++ value

/-- A cause and the element it was found at. -/
structure LayoutError where
  filename : Text
  position : Markup.Position
  element : Text
  cause : Cause
  deriving DecidableEq, Repr

namespace LayoutError

def atElement (filename : Text) (e : Markup.Element) (cause : Cause) : LayoutError :=
  ⟨filename, e.position, e.name, cause⟩

def message (e : LayoutError) : Text :=
  let place := Text.ofNat e.position.line ++ ":" ++ Text.ofNat e.position.column
  let place := if e.filename.isEmpty then place else e.filename ++ ":" ++ place
  place ++ ": <" ++ e.element ++ ">: " ++ e.cause.message

end LayoutError

/-! ## Options -/

open Directive (Handlers)

structure Options where
  filename : Text := []
  handlers : Handlers := .empty
  literals : Literal.Rules := .empty
  /-- The receiver of transform calls; empty for the default one. -/
  provider : Text := []
  arrayTypes : List Text := []
  contentProperties : List (Text × Text) := []
  unnamedProperties : List (Text × Text) := []
  controllerTypes : List (Text × Text) := []
  fragment : Bool := false
  reading : Pipe.Reading := {}

def standardArrayTypes : List Text :=
  ["Column", "Row", "Stack", "Wrap", "Flex", "ListView", "GridView", "GridView.count", "CustomScrollView",
    "IndexedStack", "ListBody", "Table", "TableRow", "Flow"]

def standardContentProperties : List (Text × Text) :=
  [("Text", "text"), ("SelectableText", "text"), ("Tooltip", "message"), ("Tab", "text")]

def standardUnnamedProperties : List (Text × Text) :=
  [("Text", "text"), ("SelectableText", "text"), ("Icon", "icon"), ("Image.asset", "name"),
    ("Image.network", "src")]

def Options.standard : Options where
  handlers := Directive.standard
  literals := Literal.standard
  arrayTypes := standardArrayTypes
  contentProperties := standardContentProperties
  unnamedProperties := standardUnnamedProperties
  controllerTypes := Directive.standardControllerTypes

/-- What waits until the tree is complete. -/
inductive Deferral where
  /-- The first event callback of the widgets from `outer` down becomes null while the condition holds. -/
  | disable (outer : WidgetId) (condition : Pipe.Expression)
  deriving DecidableEq, Repr

/-- A tree under construction. -/
structure Build where
  tree : Tree Deferral := .empty
  placeholders : Nat := 0

abbrev BuildM := StateT Build (Except LayoutError)

/-- The widget an element became, and the outermost wrapper put around it so far. -/
structure Target where
  inner : WidgetId
  current : WidgetId
  deriving DecidableEq, Repr

def Target.bare (id : WidgetId) : Target := ⟨id, id⟩

namespace Build

def add (w : Widget) : BuildM WidgetId :=
  modifyGet fun b =>
    let (id, tree) := b.tree.add w
    (id, { b with tree := tree })

def modifyTree (f : Tree Deferral → Tree Deferral) : BuildM Unit :=
  modify fun b => { b with tree := f b.tree }

def change (id : WidgetId) (f : Widget → Widget) : BuildM Unit :=
  modifyTree fun t => t.modify id f

def find? (id : WidgetId) : BuildM (Option Widget) :=
  return (← get).tree.get? id

/-- The type of a widget; empty when there is none. -/
def typeOf (id : WidgetId) : BuildM Text :=
  return ((← find? id).map Widget.type).getD []

def property? (id : WidgetId) (name : Text) : BuildM (Option Property) :=
  return (← find? id).bind fun w => w.property? name

def isSequence (id : WidgetId) : BuildM Bool :=
  return (← get).tree.isSequence id

def put (id : WidgetId) (p : Property) : BuildM Unit :=
  change id fun w => w.set p

/-- Reads a piped expression and stacks the builders of its subscriptions around `target`. -/
def readPipes (o : Options) (value : Text) (target : WidgetId) (skipNullCheck : Bool) :
    BuildM (Pipe.Expression × WidgetId) :=
  modifyGet fun b =>
    let provider := if o.provider.isEmpty then Pipe.defaultProvider else o.provider
    let (e, placeholders) := (o.reading.read provider value).run b.placeholders
    let (id, tree) := Pipe.stackBuilders skipNullCheck e.subscriptions target b.tree
    ((e, id), ⟨tree, placeholders⟩)

/-- Resolves the value of a property; without a name no literal rule applies.  Gives the plain expression
and the outermost widget. -/
def resolveValue (o : Options) (name value : Text) (target : Target) (skipNullCheck : Bool := false) :
    BuildM (Pipe.Expression × WidgetId) := do
  let type ← typeOf target.inner
  let literal? := if name.isEmpty then none else o.literals.apply? name value type
  match literal? with
  | some v => pure (⟨v, []⟩, target.current)
  | none => readPipes o value target.current skipNullCheck

def argumentName (o : Options) (widgetType name : Text) : Text :=
  if (o.unnamedProperties.lookup widgetType).getD [] = name then [] else name

/-- Resolves a value and sets it on the widget itself.  Gives the outermost widget. -/
def setProperty (o : Options) (name value : Text) (target : Target) : BuildM WidgetId := do
  let (e, current) ← resolveValue o name value target
  let type ← typeOf target.inner
  put target.inner (.ofExpression (argumentName o type name) e)
  pure current

end Build

end FlutterLayout.Layout
