import FlutterLayout.Layout.Dispatch
import FlutterLayout.Layout.Item

/-!
# Widgets of items

`resolveItems` turns a run of items into widgets.  The content of a widget is resolved before its
attributes, and its properties after its child widgets.
-/

namespace FlutterLayout.Layout

/-! ## Inline text

Text between tags is trimmed, and each line break in it becomes one space together with the blanks
around it.  It is then a Dart string literal, in which `{{ expression }}` stands for an interpolated
expression.  Text that is exactly one such expression is that expression, without a literal around it. -/

/-! ## Line breaks -/

def isBreakBlank (b : UInt8) : Bool :=
  b = Text.space || b = Text.tabulator || b = Text.lineFeed || b = Text.carriageReturn || b = 0x0C

/-- Folds line breaks.  `blanks` are the spaces and tabulators just read, which a line break would swallow;
`inBreak` says that a line break was read and nothing but blanks since. -/
def foldBreaksFrom (blanks : Text) (inBreak : Bool) : Text → Text
  | [] => blanks
  | b :: t =>
    if inBreak && isBreakBlank b then foldBreaksFrom [] true t
    else if b = Text.lineFeed then Text.space :: foldBreaksFrom [] true t
    else if b = Text.space || b = Text.tabulator then foldBreaksFrom (blanks ++ [b]) false t
    else blanks ++ b :: foldBreaksFrom [] false t

def normaliseText (t : Text) : Text :=
  foldBreaksFrom [] false (Text.trim t)

/-! ## Interpolation -/

/-- A part of inline text. -/
inductive Piece where
  | characters (t : Text)
  | hole (expression : Text)
  deriving DecidableEq, Repr

/-- The parts of inline text: characters and holes in turn, beginning and ending with characters.  A hole
reaches to the first closing braces. -/
def pieces (t : Text) : List Piece :=
  match _opening : Text.cut? "\x7b\x7b" t with
  | none => [.characters t]
  | some (before, opened) =>
    match _closing : Text.cut? "\x7d\x7d" opened with
    | none => [.characters t]
    | some (inner, rest) => .characters before :: .hole (Text.trim inner) :: pieces rest
termination_by t.length
decreasing_by
  have h1 := Text.length_cut? _opening
  have h2 := Text.length_cut? _closing
  have h3 : (Text.ofString "\x7b\x7b").length = 2 := rfl
  omega

def escapedByte (b : UInt8) : Text :=
  if b = Text.backslash then [Text.backslash, Text.backslash]
  else if b = Text.singleQuote then [Text.backslash, Text.singleQuote]
  else if b = Text.byte '$' then [Text.backslash, b]
  else if b = Text.lineFeed then [Text.backslash, Text.byte 'n']
  else [b]

def escaped (t : Text) : Text :=
  t.flatMap escapedByte

def interpolate (o : Options) : List Piece → Target → BuildM (Pipe.Expression × Target)
  | [], target => pure (⟨[], []⟩, target)
  | .characters t :: ps, target => do
    let (rest, target) ← interpolate o ps target
    pure (⟨escaped t ++ rest.value, rest.subscriptions⟩, target)
  | .hole e :: ps, target => do
    let (e, current) ← Build.resolveValue o [] e target
    let (rest, target) ← interpolate o ps { target with current := current }
    pure (⟨"$\x7b" ++ e.value ++ "\x7d" ++ rest.value, e.subscriptions ++ rest.subscriptions⟩, target)

def textValue (o : Options) (t : Text) (target : Target) : BuildM (Pipe.Expression × Target) :=
  match pieces t with
  | [.characters [], .hole e, .characters []] => do
    let (e, current) ← Build.resolveValue o [] e target
    pure (e, { target with current := current })
  | ps => do
    let (inside, target) ← interpolate o ps target
    pure (⟨"'" ++ inside.value ++ "'", inside.subscriptions⟩, target)

open Build
open Markup (Element)

/-! ## Sequences under builders -/

/-- The reactive builders from `id` down, at most `fuel` of them and outermost first, and what is below. -/
def peelWithin (t : Tree Deferral) : (fuel : Nat) → WidgetId → List WidgetId × WidgetId
  | 0, id => ([], id)
  | fuel + 1, id =>
    match t.get? id with
    | some w =>
      if w.generator = Widget.reactiveGenerator then
        let (builders, inner) := peelWithin t fuel w.wrapped
        (id :: builders, inner)
      else ([], id)
    | none => ([], id)

/-- The reactive builders stacked on a widget, outermost first, and the widget below them. -/
def peel (t : Tree Deferral) (id : WidgetId) : List WidgetId × WidgetId :=
  peelWithin t t.size id

/-- Puts builders, given innermost first, around `outer` and gives the outermost one. -/
def restack : List WidgetId → WidgetId → BuildM WidgetId
  | [], outer => pure outer
  | b :: builders, outer => do
    change b fun w => { w with wrapped := outer }
    restack builders b

/-- Moves the builders stacked on a sequence around `outer`.  Gives the sequence and the new outermost
widget; any other widget stays as it is. -/
def hoist (id outer : WidgetId) : BuildM (WidgetId × WidgetId) := do
  let t := (← get).tree
  let (builders, inner) := peel t id
  if t.isSequence inner then pure (inner, ← restack builders.reverse outer) else pure (id, outer)

def hoistAll : List WidgetId → WidgetId → BuildM (List WidgetId × WidgetId)
  | [], outer => pure ([], outer)
  | id :: ids, outer => do
    let (id, outer) ← hoist id outer
    let (ids, outer) ← hoistAll ids outer
    pure (id :: ids, outer)

def finishRun (run : List WidgetId × Target) : BuildM (List WidgetId × Target) := do
  let (ids, current) ← hoistAll run.1 run.2.current
  pure (ids, { run.2 with current := current })

/-! ## Elements -/

def listAttribute : Text := ":array"

def isRelevant (a : Markup.Attribute) : Bool :=
  !(a.1 = listAttribute || Text.startsWith "xml:" a.1 || Text.startsWith "xmlns" a.1)

def relevantAttributes (e : Element) : List Markup.Attribute :=
  e.attributes.filter isRelevant

def comment (comments : List Text) (id : WidgetId) : BuildM Unit :=
  change id fun w => { w with comments := comments ++ w.comments }

/-- Makes widgets the content of a widget: its only child, or a list when the element asks for one, its
type takes one, there are several, or one of them is a sequence. -/
def setContent (o : Options) (e : Element) (id : WidgetId) (ids : List WidgetId) : BuildM Unit := do
  let type ← typeOf id
  let t := (← get).tree
  let asList := (e.attribute? listAttribute).isSome || o.arrayTypes.contains type || ids.any t.isSequence
  match ids with
  | [] => pure ()
  | [child] =>
    if asList then put id (.ofWidgets childrenProperty ids) else put id (.ofWidget childProperty child)
  | _ => put id (.ofWidgets childrenProperty ids)

/-- Resolves the text of an element: the content property of its widget, or else a `Text` widget, whose id
is given. -/
def inlineText (o : Options) (e : Element) (target : Target) : BuildM (List WidgetId × Target) := do
  let t := normaliseText e.text
  if t.isEmpty then pure ([], target)
  else
    let (value, target) ← textValue o t target
    let type ← typeOf target.inner
    match o.contentProperties.lookup type with
    | some property =>
      put target.inner (.ofExpression (argumentName o type property) value)
      pure ([], target)
    | none =>
      let id ← add { type := "Text", tag := e.name, properties := [.ofExpression [] value] }
      pure ([id], target)

def widgetsOf : PropertyValue → List WidgetId
  | .widget id => [id]
  | .fragment id => [id]
  | .widgets ids => ids
  | _ => []

/-- Sets the property an element stands for; nested content joins nested content that is there already. -/
def joinProperty (p : Property) (w : Widget) : Widget :=
  match w.property? p.name with
  | some q =>
    if q.value.isNested && p.value.isNested then
      w.set (.ofWidgets p.name (widgetsOf q.value ++ widgetsOf p.value))
    else w.set p
  | none => w.set p

/-- The property a fragment stands for: its content when it has nothing else, or else itself. -/
def fragmentProperty (name : Text) (target : Target) : BuildM Property := do
  let whole : Property := { name := name, value := .fragment target.current }
  match ← find? target.inner with
  | some w =>
    if target.current = target.inner && w.properties.length = 1 then
      match w.content? with
      | some p => pure { p with name := name }
      | none => pure whole
    else pure whole
  | none => pure whole

/-! ## Conditionals -/

def conditionOf (e : Element) : Text :=
  match e.attribute? "value" with
  | some value => value
  | none => e.attributeOr "condition" "false"

def branchProperty (b : Branch) (ids : List WidgetId) : Property :=
  if b.isFallback then { name := "else", value := .widgets ids }
  else { name := "if", value := .widgets ids, condition := conditionOf b.element }

def needsList (t : Tree Deferral) : List WidgetId → Bool
  | [id] => t.isSequence id
  | _ => true

/-- Resolves the conditions of the branches of a conditional node in order.  A conditional that is spread
into a list cannot subscribe.  Gives the properties of the node and its outermost widget. -/
def resolveConditions (o : Options) (isSequence : Bool) (id : WidgetId) :
    List (Branch × Property) → WidgetId → BuildM (List Property × WidgetId)
  | [], current => pure ([], current)
  | (b, p) :: rest, current => do
    if b.isFallback then
      let (ps, current) ← resolveConditions o isSequence id rest current
      pure (p :: ps, current)
    else if isSequence && o.reading.isReactive (← get).placeholders p.condition then
      throw (.atElement o.filename b.element (.reactiveCondition p.condition))
    else
      let (condition, current) ← resolveValue o [] p.condition ⟨id, current⟩
      let (ps, current) ← resolveConditions o isSequence id rest current
      pure ({ p with condition := condition.value, needs := condition.subscriptions } :: ps, current)

/-! ## Callbacks -/

/-- The parts of a callback before its body. -/
structure CallbackHead where
  property : Text
  literal : FunctionLiteral
  itemCount? : Option Text
  needs : List Pipe.Subscription

def parameterName (parameter : Text) : Text :=
  Text.withoutTrailing "?" ((Text.fields parameter).getLast?.getD [])

def listedParameters (t : Text) : List Text :=
  ((Text.splitOn (Text.byte ',') t).map Text.trim).filter fun p => !p.isEmpty

def callbackLoop? (e : Element) : Option Directive.LoopHeader :=
  (e.attribute? "data").map fun data =>
    let l := Directive.LoopHeader.readLoose data
    let index := e.attributeOr "index" []
    if index.isEmpty then l else { l with index := index }

def callbackParameters (e : Element) (loop? : Option Directive.LoopHeader) : List Text :=
  match e.attribute? "params" with
  | some listed => listedParameters listed
  | none =>
    let index := (loop?.map Directive.LoopHeader.index).getD (e.attributeOr "index" [])
    if loop?.isNone && index.isEmpty then ["BuildContext context"]
    else ["BuildContext context", "int " ++ index]

/-- Reads the attributes of a callback and resolves the list it goes over.  Gives the outermost widget. -/
def callbackHead (o : Options) (e : Element) (target : Target) : BuildM (CallbackHead × WidgetId) := do
  let property := e.attributeOr "name" "builder"
  match callbackLoop? e with
  | some l =>
    let (source, current) ← resolveValue o [] l.source target
    let l := { l with source := source.value }
    let params := callbackParameters e (some l)
    let literal : FunctionLiteral :=
      { params := params, statements := [l.declaration], body := []
        binds := l.item :: params.map parameterName }
    pure (⟨property, literal, some (source.value ++ ".length"), source.subscriptions⟩, current)
  | none =>
    let params := callbackParameters e none
    let literal : FunctionLiteral :=
      { params := params, statements := [], body := [], binds := params.map parameterName }
    pure (⟨property, literal, none, []⟩, target.current)

/-- Sets the properties of a callback: the number of items unless it is there already, then the callback. -/
def setCallback (h : CallbackHead) (body : List WidgetId) (w : Widget) : Widget :=
  let w :=
    match h.itemCount? with
    | some count =>
      if (w.property? "itemCount").isSome then w else w.set (.ofExpression "itemCount" ⟨count, h.needs⟩)
    | none => w
  w.set (.ofFunction h.property { h.literal with body := body } h.needs)

/-! ## Items -/

mutual

def resolveItem (o : Options) : Item → Target → BuildM (List WidgetId × Target)
  | .widget comments e content, outer => do
    let id ← add { type := e.name, tag := e.name }
    let (ids, target) ← finishRun (← resolveItems o content (.bare id))
    let target ← resolveProperties o content target
    let (texts, target) ← inlineText o e target
    setContent o e id (ids ++ texts)
    let target ← resolveAttributes o e (relevantAttributes e) target
    comment comments target.current
    pure ([target.current], outer)
  | .property .., outer => pure ([], outer)
  | .callback e content, outer => do
    let (head, current) ← callbackHead o e outer
    let (body, detached) ← finishRun (← resolveItems o content ⟨WidgetId.none, current⟩)
    change outer.inner (setCallback head body)
    pure ([], { outer with current := detached.current })
  | .conditional comments branches, outer => do
    let id ← add { isCustom := true, tag := ifName, generator := Directive.conditionalName }
    let (properties, isSequence, current) ← resolveBranches o branches id
    change id fun w => { w with isSequence := isSequence }
    let (properties, current) ← resolveConditions o isSequence id (branches.zip properties) current
    change id fun w => { w with properties := properties }
    comment comments current
    pure ([current], outer)

def resolveItems (o : Options) : List Item → Target → BuildM (List WidgetId × Target)
  | [], target => pure ([], target)
  | item :: items, target => do
    let (ids, target) ← resolveItem o item target
    let (more, target) ← resolveItems o items target
    pure (ids ++ more, target)

def resolveProperties (o : Options) : List Item → Target → BuildM Target
  | [], target => pure target
  | item :: items, target => do
    let target ← resolveProperty o item target
    resolveProperties o items target

/-- Sets a property on the widget it stands in; other items are passed over. -/
def resolveProperty (o : Options) : Item → Target → BuildM Target
  | .property name e content, outer => do
    let attributes := relevantAttributes e
    if e.elements.isEmpty && attributes.isEmpty then
      let t := normaliseText e.text
      if t.isEmpty then pure outer
      else
        let (value, outer) ← textValue o t outer
        change outer.inner (joinProperty (.ofExpression name value))
        pure outer
    else
      let id ← add { tag := e.name, isFragment := true }
      let (ids, target) ← finishRun (← resolveItems o content (.bare id))
      let target ← resolveProperties o content target
      setContent o e id ids
      let target ← resolveAttributes o e attributes target
      let p ← fragmentProperty name target
      change outer.inner (joinProperty p)
      pure outer
  | _, outer => pure outer

/-- The properties of branches, whether one of them needs a list, and the outermost widget around the
conditional node. -/
def resolveBranches (o : Options) : List Branch → WidgetId → BuildM (List Property × Bool × WidgetId)
  | [], current => pure ([], false, current)
  | b :: branches, current => do
    let (ids, current) ← resolveBranch o b current
    let needs := needsList (← get).tree ids
    let (properties, needed, current) ← resolveBranches o branches current
    pure (branchProperty b ids :: properties, needs || needed, current)

def resolveBranch (o : Options) : Branch → WidgetId → BuildM (List WidgetId × WidgetId)
  | .mk _ _ content, current => do
    let (ids, target) ← finishRun (← resolveItems o content ⟨WidgetId.none, current⟩)
    pure (ids, target.current)

end

end FlutterLayout.Layout
