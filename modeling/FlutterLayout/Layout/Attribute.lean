import FlutterLayout.Layout.Build

/-!
# Attribute directives

What each directive does with its attribute: `apply` takes the attribute, the widget it stands on and
the wrappers around it, and tells whether the attribute is consumed and whether there is a new outermost
widget.  `performDeferral` is the part of `:disable` that waits for the complete tree.
-/

namespace FlutterLayout.Layout

open Directive (Handler LoopHeader ValueRule WrapperSpec)

/-- The attribute a directive is asked to resolve. -/
structure Input where
  name : Text
  value : Text
  element : Markup.Element
  related : List (Text × Text) := []

/-- What a directive did. -/
structure Outcome where
  wrapper : WidgetId := WidgetId.none
  value : Text := []
  consumed : Bool := true

def Outcome.done : Outcome := {}

def Outcome.wrapped (id : WidgetId) : Outcome := { wrapper := id }

namespace Attribute

open Build

/-! ## Wrappers -/

def fillRelated (o : Options) (spec : WrapperSpec) (input : Input) (id : WidgetId) :
    List Text → WidgetId → BuildM WidgetId
  | [], current => pure current
  | name :: names, current =>
    match input.related.lookup name with
    | some value => do
      let property := (spec.related.lookup name).getD []
      let current ← setProperty o property value ⟨id, current⟩
      fillRelated o spec input id names current
    | none => fillRelated o spec input id names current

def fill (o : Options) (spec : WrapperSpec) (input : Input) (id : WidgetId) : BuildM WidgetId := do
  let defaults := spec.defaults.mergeSort fun a b => Text.le a.1 b.1
  change id fun w => defaults.foldl (fun w (name, value) => w.set (.ofText name value)) w
  let current ←
    if spec.property.isEmpty then pure id else setProperty o spec.property input.value (.bare id)
  fillRelated o spec input id (Handler.related (.wrapper spec)) current

def takeOver (child? : Option Property) (w : Widget) : Widget :=
  match child? with
  | none => w
  | some p =>
    match p.value with
    | .widget id => { w with wrapped := id }
    | .fragment id => { w with wrapped := id }
    | _ => w.set p

/-- Puts a wrapper between a widget and its child, or around the widgets built so far when the widget has
several children or the wrapper does not ask for the child. -/
def wrapper (o : Options) (spec : WrapperSpec) (input : Input) (target : Target) : BuildM Outcome := do
  let several := (← property? target.inner childrenProperty).isSome
  let shell : Widget := { type := spec.widget, isCustom := true, tag := input.name }
  if spec.child && !several then
    let child? ← property? target.inner childProperty
    let id ← add (takeOver child? shell)
    change target.inner fun w => w.remove childProperty
    let outer ← fill o spec input id
    put target.inner (.ofWidget childProperty outer)
    pure .done
  else
    let id ← add { shell with wrapped := target.current }
    let outer ← fill o spec input id
    pure (.wrapped outer)

/-! ## Value rules -/

/-- Rewrites a value: the lead, the value, and each claimed attribute that is present. -/
def rule (o : Options) (spec : ValueRule) (input : Input) : BuildM Outcome := do
  if spec.failure.isEmpty then
    let claimed (name : Text) : Text :=
      match input.related.lookup name with
      | some value => " " ++ name ++ "=" ++ value
      | none => []
    pure { value := spec.lead ++ input.value ++ spec.related.flatMap claimed, consumed := spec.consumes }
  else throw (.atElement o.filename input.element (.ruleFailed spec.failure input.value))

/-! ## Animation, controllers and conditions -/

def animation (o : Options) (input : Input) (target : Target) : BuildM Outcome := do
  let callback : FunctionLiteral :=
    { params := ["BuildContext context", "Widget? child"], statements := [], body := [target.current]
      binds := [] }
  let id ← add { type := "AnimatedBuilder", isCustom := true, tag := input.name
                 properties := [.ofFunction "builder" callback []] }
  let outer ← setProperty o "animation" input.value (.bare id)
  pure (.wrapped outer)

def disable (o : Options) (input : Input) (target : Target) : BuildM Outcome := do
  let (condition, outer) ← resolveValue o [] input.value target
  modifyTree fun t => t.defer target.inner (.disable target.current condition)
  pure (.wrapped outer)

def formControlsField : Text := "_formControls"

def formControlTypes : List (Text × Text) :=
  [("TextField", "String"), ("TextFormField", "String"), ("CupertinoTextField", "String"),
    ("Checkbox", "bool"), ("CheckboxListTile", "bool"), ("Switch", "bool"), ("SwitchListTile", "bool"),
    ("CupertinoSwitch", "bool"), ("Slider", "double"), ("CupertinoSlider", "double"),
    ("RangeSlider", "RangeValues"), ("Radio", "dynamic"), ("RadioListTile", "dynamic"),
    ("DropdownButton", "dynamic"), ("DropdownButtonFormField", "dynamic")]

/-- Binds an input to a form control: text inputs through a controller, others through their value. -/
def formControl (o : Options) (input : Input) (target : Target) : BuildM Outcome := do
  let widgetType ← typeOf target.inner
  let control := formControlsField ++ "." ++ input.value
  let type := (formControlTypes.lookup widgetType).getD "dynamic"
  change target.inner fun w => { w with formControls := w.formControls ++ [⟨input.value, type⟩] }
  put target.inner (.ofText "onChanged" ("(value) => " ++ control ++ ".setValue(value)"))
  if type = "String" then
    put target.inner (.ofText "controller" (control ++ ".controller"))
    pure .done
  else
    let (value, outer) ← resolveValue o [] (control ++ " | behavior") target true
    let slot : Text :=
      if widgetType = "Radio" || widgetType = "RadioListTile" then "groupValue" else "value"
    put target.inner (.ofExpression slot value)
    pure (.wrapped outer)

def controller (o : Options) (input : Input) (target : Target) : BuildM Outcome := do
  let widgetType ← typeOf target.inner
  let configured := (o.controllerTypes.lookup widgetType).getD []
  let type : Text := if configured.isEmpty then widgetType ++ "Controller" else configured
  change target.inner fun w =>
    { w with controllers := w.controllers ++ [⟨input.value, type, type ++ "()"⟩] }
  put target.inner (.ofText "controller" input.value)
  pure .done

def condition (o : Options) (input : Input) (target : Target) : BuildM Outcome := do
  let id ← add { wrapped := target.current, isCustom := true, tag := input.name
                 generator := Directive.conditionName }
  let (condition, outer) ← resolveValue o [] input.value (.bare id)
  change id fun w => { w with condition := some condition.value, needs := condition.subscriptions }
  pure (.wrapped outer)

/-! ## Loops -/

/-- The node that emits `body` once for each item; the source of the loop uses the variables of `needs`. -/
def loopNode (l : LoopHeader) (needs : List Pipe.Subscription) (body : List WidgetId) (tag : Text) :
    Widget where
  isCustom := true
  isSequence := true
  tag := tag
  generator := Directive.repeatName
  binds := [l.index, l.item]
  loop := some l
  needs := needs
  properties := [.ofWidgets "body" body]

def childIds (p? : Option Property) : List WidgetId :=
  match p? with
  | some { value := .widget id, .. } => if id = WidgetId.none then [] else [id]
  | some { value := .fragment id, .. } => if id = WidgetId.none then [] else [id]
  | _ => []

def childrenIds (p? : Option Property) : List WidgetId :=
  match p? with
  | some { value := .widgets ids, .. } => ids
  | _ => []

def takeContent (id : WidgetId) : BuildM (List WidgetId) := do
  let child? ← property? id childProperty
  let children? ← property? id childrenProperty
  change id fun w => (w.remove childProperty).remove childrenProperty
  pure (childIds child? ++ childrenIds children?)

/-- Repeats the widgets built so far; builders of the source go around the loop node. -/
def «repeat» (o : Options) (input : Input) (target : Target) : BuildM Outcome := do
  let l := LoopHeader.readLoose input.value
  let id ← add (loopNode l [] [target.current] input.name)
  let (source, outer) ← resolveValue o [] l.source (.bare id)
  change id fun w =>
    { w with loop := some { l with source := source.value }, needs := source.subscriptions }
  pure (.wrapped outer)

def childBuilder (o : Options) (input : Input) (target : Target) : BuildM Outcome := do
  let l := LoopHeader.readLoose input.value
  let (source, outer) ← resolveValue o [] l.source target
  let body ← takeContent target.inner
  let id ← add (loopNode { l with source := source.value } source.subscriptions body input.name)
  put target.inner (.ofWidgets childrenProperty [id])
  pure (.wrapped outer)

def itemBuilder (o : Options) (input : Input) (target : Target) : BuildM Outcome := do
  let l := LoopHeader.readLoose input.value
  let (source, outer) ← resolveValue o [] l.source target
  let l := { l with source := source.value }
  put target.inner (.ofExpression "itemCount" ⟨source.value ++ ".length", source.subscriptions⟩)
  let body ← takeContent target.inner
  let callback : FunctionLiteral :=
    { params := ["BuildContext context", "int " ++ l.index], statements := [l.declaration], body := body
      binds := [l.index, l.item] }
  put target.inner (.ofFunction "itemBuilder" callback source.subscriptions)
  pure (.wrapped outer)

/-! ## All directives -/

def apply (o : Options) (h : Handler) (input : Input) (target : Target) : BuildM Outcome :=
  match h with
  | .wrapper spec => wrapper o spec input target
  | .rule spec => rule o spec input
  | .animation => animation o input target
  | .disable => disable o input target
  | .formControl => formControl o input target
  | .controller => controller o input target
  | .condition => condition o input target
  | .repeat => «repeat» o input target
  | .childBuilder => childBuilder o input target
  | .itemBuilder => itemBuilder o input target
  | .conditional => pure .done
  | .builder => pure .done
  | .reactive => pure .done

end Attribute

/-! ## What waits for the complete tree -/

def isEvent (name : Text) : Bool :=
  match Text.after? "on" name with
  | some (b :: _) => Text.isAsciiUpper b
  | _ => false

/-- Makes the first event callback among properties null while a condition holds; none when there is no
event callback. -/
def disableFirst? (condition : Pipe.Expression) : List Property → Option (List Property)
  | [] => none
  | p :: ps =>
    match p.value with
    | .text t =>
      if isEvent p.name then
        some ({ p with value := .text (condition.value ++ " ? null : " ++ t)
                       needs := condition.subscriptions ++ p.needs } :: ps)
      else (disableFirst? condition ps).map (p :: ·)
    | _ => (disableFirst? condition ps).map (p :: ·)

/-- Makes the first event callback of the first widget that has one null while a condition holds. -/
def disableIn (condition : Pipe.Expression) (t : Tree Deferral) : List WidgetId → Tree Deferral
  | [] => t
  | id :: ids =>
    match (t.get? id).bind fun w => disableFirst? condition w.properties with
    | some properties => t.modify id fun w => { w with properties := properties }
    | none => disableIn condition t ids

/-- Performs what waited: for `:disable`, on the widget itself first and then on its wrappers from the
inside out. -/
def performDeferral (d : Deferral) (_ : WidgetId) (t : Tree Deferral) : Tree Deferral :=
  match d with
  | .disable outer condition => disableIn condition t (t.chain outer).reverse

end FlutterLayout.Layout
