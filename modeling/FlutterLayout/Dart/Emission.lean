import FlutterLayout.Directive.Standard
import FlutterLayout.Widget.Tree

/-!
# Emission of Dart code

A widget is emitted as a constructor call, one argument a line.  Positional arguments come first, then
plain values by name, then nested content by name; a wrapped child is the argument `child`.  The first
line carries no indentation; what follows is indented from the level of the call.
-/

namespace FlutterLayout.Dart

open Directive (Handler Handlers)

def emptyWidget : Text := "Container(width: 0, height: 0)"

def defaultIndent : Text := "  "

/-- What emission needs besides a widget. -/
structure Emitter (α : Type) where
  tree : Tree α
  handlers : Handlers
  unit : Text

namespace Emitter

variable {α : Type} (g : Emitter α)

def indent (level : Nat) : Text :=
  Text.repeated level g.unit

def line (level : Nat) (code : Text) : Text :=
  g.indent level ++ code ++ "\n"

/-! ## Values -/

variable (emit : WidgetId → Nat → Text)

def items (level : Nat) (ids : List WidgetId) : Text :=
  "[\n" ++ (ids.map fun id => g.line (level + 1) (emit id (level + 1) ++ ",")).flatten
    ++ g.indent level ++ "]"

def list (level : Nat) (ids : List WidgetId) : Text :=
  if ids.isEmpty then "[]" else g.items emit level ids

def typedList (level : Nat) (ids : List WidgetId) : Text :=
  "<Widget>" ++ g.list emit level ids

def returned (level : Nat) (body : List WidgetId) : Text :=
  match body with
  | [] => emptyWidget
  | [id] => if g.tree.isSequence id then g.typedList emit level body else emit id level
  | _ => g.typedList emit level body

def function (level : Nat) (f : Option FunctionLiteral) : Text :=
  match f with
  | none => "null"
  | some f =>
    "(" ++ Text.join ", " f.params ++ ") \x7b\n"
      ++ (f.statements.map (g.line (level + 1))).flatten
      ++ g.line (level + 1) ("return " ++ g.returned emit (level + 1) f.body ++ ";")
      ++ g.indent level ++ "\x7d"

def value (level : Nat) (v : PropertyValue) : Text :=
  match v with
  | .text t => t
  | .widget id => emit id level
  | .fragment id => emit id level
  | .widgets ids => g.list emit level ids
  | .function f => g.function emit level f
  | .unknown => []

def argument (level : Nat) (p : Property) : Text :=
  let v := g.value emit level p.value
  match p.lead? with
  | some lead => lead ++ v
  | none => if p.name.isEmpty then v else p.name ++ ": " ++ v

/-! ## Plain widgets -/

def rank (p : Property) : Nat :=
  if p.name.isEmpty then 0 else if p.value.isNested then 2 else 1

def precedes (p q : Property) : Bool :=
  rank p < rank q || (rank p = rank q && Text.le p.name q.name)

def properties (w : Widget) : List Property :=
  let shown := w.properties.filter fun p => !p.hidden
  let wrapped :=
    if w.wrapped ≠ WidgetId.none && (w.property? childProperty).isNone then
      [Property.ofWidget childProperty w.wrapped]
    else []
  (shown ++ wrapped).mergeSort precedes

def construction (level : Nat) (w : Widget) : Text :=
  match properties w with
  | [] => w.type ++ "()"
  | ps =>
    w.type ++ "(\n" ++ (ps.map fun p => g.line (level + 1) (g.argument emit (level + 1) p ++ ",")).flatten
      ++ g.indent level ++ ")"

def fragment (level : Nat) (w : Widget) : Text :=
  let arguments := (properties w).map (g.argument emit level)
  match properties w with
  | [p] =>
    if p.name = childProperty || p.name = childrenProperty then g.value emit level p.value
    else Text.join (",\n" ++ g.indent level) arguments
  | _ => Text.join (",\n" ++ g.indent level) arguments

/-! ## Widgets of directives -/

def listed (p : Property) : List WidgetId :=
  match p.value with
  | .widgets ids => ids
  | _ => []

def generation (level : Nat) (l : Directive.LoopHeader) (body : List WidgetId) : Text :=
  let single :=
    match body with
    | [id] => if g.tree.isSequence id then none else some id
    | _ => none
  let call (type value : Text) : Text :=
    type ++ ".generate(" ++ l.source ++ ".length, (int " ++ l.index ++ ") \x7b\n"
      ++ g.indent (level + 1) ++ l.declaration ++ "\n"
      ++ g.indent (level + 1) ++ "return " ++ value ++ ";\n"
      ++ g.indent level ++ "\x7d)"
  match single with
  | some id => call "List<Widget>" (emit id (level + 1))
  | none => call "List<List<Widget>>" (g.typedList emit (level + 1) body) ++ ".expand((e) => e).toList()"

def bodyProperty : Text := "body"

def loop (level : Nat) (l : Directive.LoopHeader) (w : Widget) : Text :=
  let body := ((w.property? bodyProperty).map listed).getD []
  let code := g.generation emit level l body
  if w.isSequence then "..." ++ code else code

def branchProperty : Text := "if"

def fallbackProperty : Text := "else"

/-- What a branch returns; a list when the node is a sequence. -/
def branchValue (level : Nat) (sequence : Bool) (ids : List WidgetId) : Text :=
  if sequence then g.typedList emit level ids
  else
    match ids with
    | [] => emptyWidget
    | id :: _ => emit id level

def branch (level : Nat) (sequence : Bool) (p : Property) : Text :=
  "if (" ++ p.condition ++ ") \x7b\n"
    ++ g.indent (level + 1) ++ "return " ++ g.branchValue emit (level + 1) sequence (listed p) ++ ";\n"
    ++ g.indent level ++ "\x7d"

def branches (level : Nat) (w : Widget) : Text :=
  match w.properties.filter fun p => p.name = branchProperty with
  | [] => []
  | ps => g.indent level ++ Text.join " else " (ps.map (g.branch emit level w.isSequence)) ++ "\n"

def fallback (level : Nat) (w : Widget) : Text :=
  match w.property? fallbackProperty with
  | some p => g.branchValue emit level w.isSequence (listed p)
  | none => if w.isSequence then "<Widget>[]" else emptyWidget

def conditional (level : Nat) (w : Widget) : Text :=
  if w.isSequence then
    "...(() \x7b\n" ++ g.branches emit (level + 1) w
      ++ g.indent (level + 1) ++ "return " ++ g.fallback emit (level + 1) w ++ ";\n"
      ++ g.indent level ++ "\x7d)()"
  else
    "Builder(\n" ++ g.indent (level + 1) ++ "builder: (BuildContext context) \x7b\n"
      ++ g.branches emit (level + 2) w
      ++ g.indent (level + 2) ++ "return " ++ g.fallback emit (level + 2) w ++ ";\n"
      ++ g.indent (level + 1) ++ "\x7d,\n" ++ g.indent level ++ ")"

def reactive (level : Nat) (s : Pipe.Subscription) (w : Widget) : Text :=
  let in1 := g.indent (level + 1)
  let in2 := g.indent (level + 2)
  let initial : Text := if s.initial.isEmpty then [] else in1 ++ "initialData: " ++ s.initial ++ ",\n"
  let slot : Text := if s.kind = .future then "future" else "stream"
  let check : Text :=
    if s.skipNullCheck then []
    else
      in2 ++ "if (" ++ s.valueName ++ " == null) \x7b\n"
        ++ g.indent (level + 3) ++ "return " ++ emptyWidget ++ ";\n"
        ++ in2 ++ "\x7d\n"
  w.type ++ "(\n" ++ initial ++ in1 ++ slot ++ ": " ++ s.source ++ ",\n"
    ++ in1 ++ "builder: (BuildContext context, " ++ s.snapshotName ++ ") \x7b\n"
    ++ in2 ++ "final " ++ s.valueName ++ " = " ++ s.snapshotName ++ ".data;\n"
    ++ check
    ++ in2 ++ "return " ++ emit w.wrapped (level + 2) ++ ";\n"
    ++ in1 ++ "\x7d,\n" ++ g.indent level ++ ")"

/-- A widget as a directive emits it; none when the directive does not emit this widget. -/
def directed? (level : Nat) (h : Handler) (w : Widget) : Option Text :=
  match h with
  | .reactive => w.subscription?.map fun s => g.reactive emit level s w
  | .repeat => w.loop.map fun l => g.loop emit level l w
  | .conditional =>
    if w.generator = Directive.conditionalName then some (g.conditional emit level w) else none
  | .condition =>
    if w.generator = Directive.conditionName then
      some (w.condition.getD [] ++ " ? " ++ emit w.wrapped level ++ " : " ++ emptyWidget)
    else none
  | _ => none

/-! ## Widgets -/

def comment (level : Nat) (c : Text) : Text :=
  ((Text.splitOn Text.lineFeed c).map fun line : Text =>
    "// " ++ Text.trim line ++ "\n" ++ g.indent level).flatten

def body (level : Nat) (w : Widget) : Text :=
  if w.generator.isEmpty then
    if w.isFragment then g.fragment emit level w else g.construction emit level w
  else
    match g.handlers.get? w.generator with
    | some registration => (g.directed? emit level registration.handler w).getD []
    | none => []

def emitWithin : (fuel : Nat) → WidgetId → Nat → Text
  | 0, _, _ => []
  | fuel + 1, id, level =>
    match g.tree.get? id with
    | none => []
    | some w => w.comments.flatMap (g.comment level) ++ g.body (emitWithin fuel) level w

def emitWidget (id : WidgetId) (level : Nat) : Text :=
  g.emitWithin (g.tree.size + 1) id level

/-! ## Widgets without lines of their own -/

variable (isInline : WidgetId → Bool)

def isInlineValue : PropertyValue → Bool
  | .text _ | .unknown => true
  | .widget id | .fragment id => isInline id
  | .widgets ids => ids.isEmpty
  | .function f => f.isNone

def isInlineBody (w : Widget) : Bool :=
  if w.generator.isEmpty then
    match properties w with
    | [] => !w.isFragment
    | [p] =>
      w.isFragment && (p.name = childProperty || p.name = childrenProperty) && isInlineValue isInline p.value
    | _ => false
  else
    match g.handlers.get? w.generator with
    | some registration =>
      (g.directed? (fun _ _ => []) 0 registration.handler w).isNone
        || (registration.handler = .condition && isInline w.wrapped)
    | none => true

/-- The widget of an id with at most `fuel` levels of nesting is written without a line of its own. -/
def isInlineWithin : (fuel : Nat) → WidgetId → Bool
  | 0, _ => true
  | fuel + 1, id =>
    match g.tree.get? id with
    | none => true
    | some w => w.comments.isEmpty && g.isInlineBody (isInlineWithin fuel) w

def isInlineWidget (id : WidgetId) : Bool :=
  g.isInlineWithin (g.tree.size + 1) id

end Emitter

def emitter {α : Type} (handlers : Handlers) (indent : Text) (t : Tree α) : Emitter α :=
  ⟨t, handlers, if indent.isEmpty then defaultIndent else indent⟩

def emit {α : Type} (handlers : Handlers) (indent : Text) (t : Tree α) (root : WidgetId) (level : Nat) :
    Text :=
  (emitter handlers indent t).emitWidget root level

/-- The code of a tree from its root at a level that may be negative.  Only code without lines of its own
can stand at a negative level. -/
def emit? {α : Type} (handlers : Handlers) (indent : Text) (t : Tree α) (root : WidgetId) (level : Int) :
    Option Text :=
  if 0 ≤ level || (emitter handlers indent t).isInlineWidget root then
    some (emit handlers indent t root level.toNat)
  else none

end FlutterLayout.Dart
