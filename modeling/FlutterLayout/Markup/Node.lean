import FlutterLayout.Markup.Position

/-!
# Documents, elements and nodes

A document is a list of nodes, of which at most one is an element.  An element has a name, its
attributes in the order they were written, the position of its `<`, and child nodes.
-/

namespace FlutterLayout.Markup

abbrev Attribute := Text × Text

mutual

inductive Node where
  | element (e : Element)
  | text (value : Text)
  | comment (value : Text)
  | cdata (value : Text)

/-- An element with everything between its tags. -/
inductive Element where
  | mk (name : Text) (attributes : List Attribute) (position : Position) (children : List Node)

end

namespace Element

def name : Element → Text
  | mk name _ _ _ => name

def attributes : Element → List Attribute
  | mk _ attributes _ _ => attributes

def position : Element → Position
  | mk _ _ position _ => position

def children : Element → List Node
  | mk _ _ _ children => children

def attribute? (e : Element) (name : Text) : Option Text :=
  e.attributes.lookup name

def attributeOr (e : Element) (name fallback : Text) : Text :=
  (e.attribute? name).getD fallback

end Element

def Node.element? : Node → Option Element
  | .element e => some e
  | _ => none

def Node.characters : Node → Text
  | .text value => value
  | .cdata value => value
  | _ => []

namespace Element

def elements (e : Element) : List Element :=
  e.children.filterMap Node.element?

def text (e : Element) : Text :=
  e.children.flatMap Node.characters

end Element

/-- A parsed source. -/
structure Document where
  children : List Node

def Document.root? (d : Document) : Option Element :=
  d.children.findSome? Node.element?

end FlutterLayout.Markup
