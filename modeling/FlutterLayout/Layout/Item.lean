import FlutterLayout.Text.Lowercase
import FlutterLayout.Directive.Standard
import FlutterLayout.Markup.Node

/-!
# Items of a layout

What an element is depends on its name, on the directives and on its neighbours.  `Item` is an element
together with what it was found to be:

* a widget;
* a property of the widget it stands in: an element with a lowercase name, or with the name of its parent
  and a dot in front;
* a callback of the widget it stands in;
* a conditional: an `if` element and the `elseIf` and `else` elements that follow it.
-/

namespace FlutterLayout.Layout

open Markup (Element Node)

mutual

/-- An element and what it is. -/
inductive Item where
  | widget (comments : List Text) (e : Element) (content : List Item)
  | property (name : Text) (e : Element) (content : List Item)
  | callback (e : Element) (content : List Item)
  | conditional (comments : List Text) (branches : List Branch)

/-- A branch of a conditional; the last one may be without a condition. -/
inductive Branch where
  | mk (isFallback : Bool) (e : Element) (content : List Item)

end

def Branch.element : Branch → Element
  | mk _ e _ => e

def Branch.isFallback : Branch → Bool
  | mk isFallback _ _ => isFallback

/-! ## Names -/

def ifName : Text := "if"

def elseIfName : Text := "elseIf"

def elseName : Text := "else"

def startsLowercase (name : Text) : Bool :=
  match Text.segments name with
  | s :: _ => Text.isLowercase s.rune
  | [] => false

/-- The property an element sets when its parent has the name `owner`; none when it sets none.  Without an
owner only lowercase names are properties. -/
def propertyName? (owner name : Text) : Option Text :=
  let qualified? := if owner.isEmpty then none else Text.after? (owner ++ ".") name
  match qualified? with
  | some rest => some rest
  | none => if startsLowercase name then some name else none

/-! ## Roles -/

/-- What an element is among its siblings. -/
inductive Role where
  | branch
  | fallback
  | conditional
  | orphan
  | callback
  | property (name : Text)
  | widget
  deriving DecidableEq, Repr

def Role.ofName (handlers : Directive.Handlers) (owner name : Text) : Role :=
  match (handlers.get? name).map Directive.Registration.handler with
  | some .conditional => if name = ifName then .conditional else .orphan
  | some .builder => .callback
  | _ =>
    match propertyName? owner name with
    | some argument => .property argument
    | none => .widget

/-- The role of an element; `isOpen` says that it follows a conditional that may have further branches. -/
def Role.of (handlers : Directive.Handlers) (owner : Text) (isOpen : Bool) (name : Text) : Role :=
  if isOpen && name = elseIfName then .branch
  else if isOpen && name = elseName then .fallback
  else .ofName handlers owner name

/-! ## Classification -/

/-- Where a run of siblings stands. -/
structure Place where
  /-- The name of the widget they stand in; empty outside of one. -/
  owner : Text
  keepsComments : Bool
  deriving DecidableEq, Repr

def Place.widget (name : Text) : Place := ⟨name, true⟩

def Place.property : Place := ⟨[], true⟩

def Place.detached : Place := ⟨[], false⟩

/-- A conditional that may have further branches: its comments and its branches so far. -/
structure OpenConditional where
  comments : List Text
  branches : List Branch

def OpenConditional.close : Option OpenConditional → List Item
  | none => []
  | some c => [.conditional c.comments c.branches]

def OpenConditional.add (c? : Option OpenConditional) (b : Branch) : OpenConditional :=
  match c? with
  | none => ⟨[], [b]⟩
  | some c => { c with branches := c.branches ++ [b] }

mutual

def Item.content (handlers : Directive.Handlers) (place : Place) : Element → List Item
  | .mk _ _ _ children => Item.siblings handlers place [] none children

/-- The items of a run of siblings, with the comments just read and the conditional that is open. -/
def Item.siblings (handlers : Directive.Handlers) (place : Place) (comments : List Text)
    (open? : Option OpenConditional) : List Node → List Item
  | [] => OpenConditional.close open?
  | .comment c :: nodes =>
    let comments := if place.keepsComments then comments ++ [Text.trim c] else comments
    Item.siblings handlers place comments open? nodes
  | .text _ :: nodes => Item.siblings handlers place comments open? nodes
  | .cdata _ :: nodes => Item.siblings handlers place comments open? nodes
  | .element e :: nodes =>
    let closed := OpenConditional.close open?
    match Role.of handlers place.owner open?.isSome e.name with
    | .branch =>
      let b := Branch.mk false e (Item.content handlers .detached e)
      Item.siblings handlers place [] (some (OpenConditional.add open? b)) nodes
    | .fallback =>
      let b := Branch.mk true e (Item.content handlers .detached e)
      OpenConditional.close (some (OpenConditional.add open? b))
        ++ Item.siblings handlers place [] none nodes
    | .conditional =>
      let b := Branch.mk false e (Item.content handlers .detached e)
      closed ++ Item.siblings handlers place [] (some ⟨comments, [b]⟩) nodes
    | .orphan => closed ++ Item.siblings handlers place [] none nodes
    | .callback =>
      closed ++ .callback e (Item.content handlers .detached e)
        :: Item.siblings handlers place [] none nodes
    | .property name =>
      closed ++ .property name e (Item.content handlers .property e)
        :: Item.siblings handlers place [] none nodes
    | .widget =>
      closed ++ .widget comments e (Item.content handlers (.widget e.name) e)
        :: Item.siblings handlers place [] none nodes

end

def Item.ofRoot (handlers : Directive.Handlers) (comments : List Text) (e : Element) : Item :=
  .widget comments e (Item.content handlers (.widget e.name) e)

end FlutterLayout.Layout
