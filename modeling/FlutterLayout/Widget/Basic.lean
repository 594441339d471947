import FlutterLayout.Pipe.Expression
import FlutterLayout.Directive.LoopHeader

/-!
# Widgets and their properties

A widget is one constructor call of the generated code, or a fragment of one.  Widgets refer to each
other by id; `WidgetId` is any integer, and only the ids a tree has given out name a widget.  The id
zero names none.
-/

namespace FlutterLayout

abbrev WidgetId := Int

def WidgetId.none : WidgetId := 0

structure FunctionLiteral where
  params : List Text
  statements : List Text
  body : List WidgetId
  binds : List Text
  deriving DecidableEq, Repr

inductive PropertyValue where
  | text (t : Text)
  | widget (id : WidgetId)
  | widgets (ids : List WidgetId)
  | function (f : Option FunctionLiteral)
  | fragment (id : WidgetId)
  | unknown
  deriving DecidableEq, Repr

def PropertyValue.isNested : PropertyValue → Bool
  | text _ => false
  | _ => true

/-- A named argument; without a name it is positional. -/
structure Property where
  name : Text
  value : PropertyValue
  condition : Text := []
  hidden : Bool := false
  lead? : Option Text := none
  needs : List Pipe.Subscription := []
  deriving DecidableEq, Repr

namespace Property

def ofText (name t : Text) : Property := { name := name, value := .text t }

def ofExpression (name : Text) (e : Pipe.Expression) : Property :=
  { name := name, value := .text e.value, needs := e.subscriptions }

def ofWidget (name : Text) (id : WidgetId) : Property := { name := name, value := .widget id }

def ofWidgets (name : Text) (ids : List WidgetId) : Property := { name := name, value := .widgets ids }

/-- An argument that is a function literal, whose statements use the variables of `needs`. -/
def ofFunction (name : Text) (f : FunctionLiteral) (needs : List Pipe.Subscription) : Property :=
  { name := name, value := .function (some f), needs := needs }

end Property

/-- A controller object the enclosing class declares. -/
structure Controller where
  name : Text
  type : Text
  initializer : Text
  deriving DecidableEq, Repr

structure ClassField where
  name : Text
  type : Text
  value : Text
  param : Bool := false
  required : Bool := false
  deriving DecidableEq, Repr

/-- A form binding the enclosing class creates. -/
structure FormControl where
  name : Text
  type : Text
  deriving DecidableEq, Repr

/-- A constructor call, or a fragment of one. -/
structure Widget where
  type : Text := []
  tag : Text := []
  properties : List Property := []
  wrapped : WidgetId := WidgetId.none
  controllers : List Controller := []
  fields : List ClassField := []
  formControls : List FormControl := []
  isFragment : Bool := false
  isCustom : Bool := false
  isSequence : Bool := false
  /-- The directive that emits it; empty for a plain constructor call. -/
  generator : Text := []
  binds : List Text := []
  comments : List Text := []
  listens : Option Pipe.Subscription := none
  loop : Option Directive.LoopHeader := none
  condition : Option Text := none
  needs : List Pipe.Subscription := []
  deriving DecidableEq, Repr

def childProperty : Text := "child"

def childrenProperty : Text := "children"

def findProperty? (name : Text) (properties : List Property) : Option Property :=
  properties.find? fun p => p.name = name

def putProperty (p : Property) : List Property → List Property
  | [] => [p]
  | q :: properties => if q.name = p.name then p :: properties else q :: putProperty p properties

def dropProperty (name : Text) : List Property → List Property
  | [] => []
  | q :: properties => if q.name = name then properties else q :: dropProperty name properties

namespace Widget

def reactiveGenerator : Text := "|reactive"

def property? (w : Widget) (name : Text) : Option Property :=
  findProperty? name w.properties

def set (w : Widget) (p : Property) : Widget :=
  { w with properties := putProperty p w.properties }

def remove (w : Widget) (name : Text) : Widget :=
  { w with properties := dropProperty name w.properties }

def content? (w : Widget) : Option Property :=
  (w.property? childProperty).orElse fun _ => w.property? childrenProperty

def subscription? (w : Widget) : Option Pipe.Subscription :=
  if w.generator = reactiveGenerator then w.listens else none

end Widget

end FlutterLayout
