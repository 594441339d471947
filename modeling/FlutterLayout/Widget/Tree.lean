import FlutterLayout.Widget.Basic

/-!
# The tree of one document

A `Tree` holds every widget of one document, whether or not it is referred to.  Ids are given out from
one upwards.  Besides the widgets it holds actions that wait until the tree is complete; what an action
is, the user of the tree decides.
-/

namespace FlutterLayout

/-- The widgets of one document and the actions that wait for its completion. -/
structure Tree (α : Type) where
  widgets : List Widget := []
  deferred : List (WidgetId × α) := []

namespace Tree

variable {α : Type}

def empty : Tree α := {}

def size (t : Tree α) : Nat :=
  t.widgets.length

/-- The index of an id in the list of widgets; none for an id that names no widget of any tree. -/
def index? (id : WidgetId) : Option Nat :=
  if id ≤ 0 then none else some (id.toNat - 1)

def get? (t : Tree α) (id : WidgetId) : Option Widget :=
  match index? id with
  | some i => t.widgets[i]?
  | none => none

def add (t : Tree α) (w : Widget) : WidgetId × Tree α :=
  (Int.ofNat t.widgets.length + 1, { t with widgets := t.widgets ++ [w] })

def modify (t : Tree α) (id : WidgetId) (f : Widget → Widget) : Tree α :=
  match index? id with
  | some i => { t with widgets := t.widgets.modify i f }
  | none => t

def setProperty (t : Tree α) (id : WidgetId) (p : Property) : Tree α :=
  t.modify id fun w => w.set p

def isSequence (t : Tree α) (id : WidgetId) : Bool :=
  match t.get? id with
  | some w => w.isSequence
  | none => false

def defer (t : Tree α) (id : WidgetId) (action : α) : Tree α :=
  { t with deferred := t.deferred ++ [(id, action)] }

end Tree

/-! ## References -/

/-- A place in a widget that holds a reference. -/
inductive Slot where
  | wrapped
  | property (index : Nat)
  | item (index position : Nat)
  deriving DecidableEq, Repr

/-- A slot, the id in it, and the names that come into scope on the way down. -/
structure Reference where
  slot : Slot
  id : WidgetId
  binds : List Text
  deriving DecidableEq, Repr

def itemReferences (index : Nat) (binds : List Text) (ids : List WidgetId) : List Reference :=
  ids.zipIdx.map fun (id, position) => ⟨.item index position, id, binds⟩

def Property.references (binds : List Text) (index : Nat) (p : Property) : List Reference :=
  match p.value with
  | .widget id => if id = WidgetId.none then [] else [⟨.property index, id, binds⟩]
  | .fragment id => if id = WidgetId.none then [] else [⟨.property index, id, binds⟩]
  | .widgets ids => itemReferences index binds ids
  | .function (some f) => itemReferences index (binds ++ f.binds) f.body
  | _ => []

def PropertyValue.put (position : Nat) (id : WidgetId) : PropertyValue → PropertyValue
  | widget _ => widget id
  | fragment _ => fragment id
  | widgets ids => widgets (ids.set position id)
  | function (some f) => function (some { f with body := f.body.set position id })
  | value => value

namespace Widget

/-- The references of a widget: its wrapped child, then those of its properties in order. -/
def references (w : Widget) : List Reference :=
  (if w.wrapped = WidgetId.none then [] else [⟨.wrapped, w.wrapped, w.binds⟩])
    ++ w.properties.zipIdx.flatMap fun (p, index) => p.references w.binds index

def put (w : Widget) (slot : Slot) (id : WidgetId) : Widget :=
  let within (index position : Nat) : Widget :=
    { w with properties := w.properties.modify index fun p => { p with value := p.value.put position id } }
  match slot with
  | .wrapped => { w with wrapped := id }
  | .property index => within index 0
  | .item index position => within index position

end Widget

namespace Tree

variable {α : Type}

def children (t : Tree α) (id : WidgetId) : List WidgetId :=
  match t.get? id with
  | some w => w.references.map Reference.id
  | none => []

end Tree

end FlutterLayout
