import FlutterLayout.Literal.Rule
import FlutterLayout.Widget.Basic

/-!
# Directives

A directive gives an attribute or an element a meaning beyond that of a constructor argument.  A
`Handler` is one of the directives this library knows, a wrapper declared as data, or a rule that only
changes the value of its attribute.  What a handler does is defined elsewhere; this file says what it
is: its family, its place in the order of application, and the attributes it claims besides its own.
-/

namespace FlutterLayout.Directive

inductive Family where
  | ancestor
  | child
  | directive
  | custom
  | other
  deriving DecidableEq, Repr

def Family.name : Family → Text
  | ancestor => "ancestor"
  | child => "child"
  | directive => "directive"
  | custom => "custom"
  | other => "unknown"

/-! ## Priorities

Lower priorities are applied first; the wrapper applied last is the outermost. -/

namespace Priority

def builder : Int64 := -1000
def formControl : Int64 := 50
def standard : Int64 := 100
def gesture : Int64 := 120
def disable : Int64 := 130
def decorator : Int64 := 150
def margin : Int64 := 200
def align : Int64 := 300
def flex : Int64 := 400
def condition : Int64 := 100000
def «repeat» : Int64 := 200000

end Priority

/-! ## Handlers -/

/-- A wrapper declared as data. -/
structure WrapperSpec where
  name : Text := []
  widget : Text := []
  /-- The property that receives the value; the value is dropped when it is empty. -/
  property : Text := []
  child : Bool := false
  priority : Int64 := 0
  related : List (Text × Text) := []
  defaults : List (Text × Text) := []
  deriving DecidableEq, Repr

/-- A rule that changes a value: what it puts in front, and the claimed attributes it appends. -/
structure ValueRule where
  priority : Int64 := 0
  family : Family := .ancestor
  related : List Text := []
  refuses : Bool := false
  consumes : Bool := false
  lead : Text := []
  failure : Text := []
  deriving DecidableEq, Repr

inductive Handler where
  | wrapper (spec : WrapperSpec)
  | rule (spec : ValueRule)
  | animation
  | disable
  | formControl
  | controller
  | condition
  | «repeat»
  | childBuilder
  | itemBuilder
  | conditional
  | builder
  | reactive
  deriving DecidableEq, Repr

namespace Handler

def family : Handler → Family
  | wrapper spec => if spec.child then .child else .ancestor
  | rule spec => spec.family
  | animation => .ancestor
  | disable => .custom
  | formControl => .custom
  | controller => .custom
  | reactive => .custom
  | _ => .directive

def priority : Handler → Int64
  | wrapper spec => if spec.priority = 0 then Priority.standard else spec.priority
  | rule spec => spec.priority
  | animation => Priority.decorator
  | disable => Priority.disable
  | formControl => Priority.formControl
  | controller => Priority.standard
  | condition => Priority.condition
  | «repeat» => Priority.repeat
  | childBuilder => Priority.builder
  | itemBuilder => Priority.builder
  | conditional => Priority.condition
  | builder => Priority.builder
  | reactive => Priority.standard

def related : Handler → List Text
  | wrapper spec => Text.sorted (spec.related.map Prod.fst)
  | rule spec => spec.related
  | _ => []

def resolves : Handler → Bool
  | rule spec => !spec.refuses
  | reactive => false
  | _ => true

end Handler

/-- A handler under a name, and the value that replaces what the author wrote. -/
structure Registration where
  handler : Handler
  value? : Option Text := none
  deriving DecidableEq, Repr

abbrev Handlers := Registry Registration

end FlutterLayout.Directive
