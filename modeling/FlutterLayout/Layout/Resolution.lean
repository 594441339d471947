import FlutterLayout.Layout.Widgets

/-!
# Resolution of a document

`resolve` turns a parsed document into a tree of widgets.  It does so in two stages: `assemble` builds the
tree and performs the waiting actions, and then redundant reactive builders are removed.
-/

namespace FlutterLayout.Layout

/-! ## The enclosing class

The root element of a document describes the class that encloses the widget: its attributes are options
and imports, and some of its children are declarations.  The other children are the widget. -/

open Markup (Element Node)

/-- An import with the short name it is used under; empty for none. -/
structure Import where
  shortName : Text
  path : Text
  deriving DecidableEq, Repr

/-- A provider the class is created under. -/
structure Provider where
  name : Text
  type : Text
  deriving DecidableEq, Repr

/-- What the root element declares. -/
structure ClassInfo where
  name : Text := []
  isStateful : Bool := false
  controller : Text := []
  isRouteAware : Bool := false
  imports : List Import := []
  fields : List ClassField := []
  params : List ClassField := []
  providers : List Provider := []
  mixins : List Text := []
  deriving DecidableEq, Repr

namespace ClassInfo

def isSet (value : Text) : Bool :=
  value.isEmpty || value = Text.ofString "true"

def addAttribute (info : ClassInfo) (a : Markup.Attribute) : ClassInfo :=
  let (name, value) := a
  if name = Text.ofString "stateful" then { info with isStateful := isSet value }
  else if name = Text.ofString "controller" then { info with controller := value }
  else if name = Text.ofString "routeAware" then { info with isRouteAware := isSet value }
  else if name = Text.ofString "xmlns" then { info with imports := info.imports ++ [⟨[], value⟩] }
  else
    match Text.after? "xmlns:" name with
    | some shortName => { info with imports := info.imports ++ [⟨shortName, value⟩] }
    | none => info

/-- A child of the root that declares something. -/
inductive Declaration where
  | field (f : ClassField)
  | param (f : ClassField)
  | provider (p : Provider)
  | mixed (name : Text)
  deriving DecidableEq, Repr

/-- What a child of the root declares; none for a widget. -/
def declaration? (e : Element) : Option Declaration :=
  let value (name fallback : Text) : Text := e.attributeOr name fallback
  let field : ClassField := { name := value "name" [], type := value "type" "dynamic", value := value "value" [] }
  if e.name = Text.ofString "var" then some (.field field)
  else if e.name = Text.ofString "param" then
    some (.param { field with param := true, required := isSet (value "required" "false") })
  else if e.name = Text.ofString "provider" then some (.provider ⟨value "name" [], value "type" []⟩)
  else if e.name = Text.ofString "with" then some (.mixed (value "mixin" (value "name" [])))
  else none

def addDeclaration (info : ClassInfo) : Declaration → ClassInfo
  | .field f => { info with fields := info.fields ++ [f] }
  | .param f => { info with params := info.params ++ [f] }
  | .provider p => { info with providers := info.providers ++ [p] }
  | .mixed name => { info with mixins := info.mixins ++ [name] }

def ofRoot (root : Element) : ClassInfo :=
  let info := root.attributes.foldl addAttribute { name := root.name }
  (root.elements.filterMap declaration?).foldl addDeclaration info

end ClassInfo

def commented (comments : List Text) : List Node → List (List Text × Element)
  | [] => []
  | .comment c :: nodes => commented (comments ++ [Text.trim c]) nodes
  | .element e :: nodes => (comments, e) :: commented [] nodes
  | _ :: nodes => commented comments nodes

def rootWidgets (root : Element) : List (List Text × Element) :=
  (commented [] root.children).filter fun (_, e) => (ClassInfo.declaration? e).isNone

/-! ## Stages -/

open Build

/-- A document whose tree is complete, before redundant reactive builders are removed. -/
structure Assembly where
  tree : Tree Deferral := .empty
  /-- The outermost widget; none for a document without widgets. -/
  root : WidgetId := WidgetId.none
  info : ClassInfo := {}
  deferredCount : Nat := 0

/-- A resolved document. -/
structure Resolution where
  tree : Tree Deferral := .empty
  /-- The outermost widget; none for a document without widgets. -/
  root : WidgetId := WidgetId.none
  info : ClassInfo := {}
  deferredCount : Nat := 0
  removedCount : Nat := 0

/-- Why a document cannot be resolved. -/
inductive Failure where
  | invalid (e : LayoutError)
  | unreadable (e : Text.UnreadableName)

def listRoot (id : WidgetId) : BuildM WidgetId := do
  let t := (← get).tree
  if t.isSequence (peel t id).2 then
    let column ← add { type := "Column" }
    let (sequence, outer) ← hoist id column
    put column (.ofWidgets childrenProperty [sequence])
    pure outer
  else pure id

/-- Builds the tree below the root widget, whose class has the given fields.  Gives the outermost widget. -/
def buildRoot (o : Options) (fields : List ClassField) (comments : List Text) (e : Markup.Element) :
    BuildM WidgetId := do
  let (ids, _) ← resolveItem o (.ofRoot o.handlers comments e) (.bare WidgetId.none)
  let root ← listRoot (ids.headD WidgetId.none)
  change root fun w => { w with fields := w.fields ++ fields }
  pure root

def complete (info : ClassInfo) (t : Tree Deferral) (root : WidgetId) : Assembly :=
  let (t, log) := t.runDeferred performDeferral root
  ⟨t, root, info, log.length⟩

def assembleRoots (o : Options) (info : ClassInfo) :
    List (List Text × Markup.Element) → Except LayoutError Assembly
  | [] => .ok { info := info }
  | [(comments, e)] =>
    match (buildRoot o (info.fields ++ info.params) comments e).run {} with
    | .ok (root, b) => .ok (complete info b.tree root)
    | .error e => .error e
  | widgets@(_ :: (_, second) :: _) =>
    .error (.atElement o.filename second (.severalRoots widgets.length))

def assemble (o : Options) (d : Markup.Document) : Except LayoutError Assembly :=
  match d.root? with
  | none => .ok {}
  | some root =>
    if o.fragment then assembleRoots o {} [([], root)]
    else assembleRoots o (.ofRoot root) (rootWidgets root)

def Assembly.share (a : Assembly) : Except Failure Resolution :=
  match Pipe.share a.tree a.root with
  | (.ok removed, t) => .ok ⟨t, a.root, a.info, a.deferredCount, removed⟩
  | (.error e, _) => .error (.unreadable e)

def resolve (o : Options) (d : Markup.Document) : Except Failure Resolution :=
  match assemble o d with
  | .ok a => a.share
  | .error e => .error (.invalid e)

end FlutterLayout.Layout
