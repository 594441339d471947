import FlutterLayout.Text.Blank
import FlutterLayout.Markup.Token

/-!
# Reading a document

`Document.read` turns a source into a document: it normalises line ends, reads tokens and nests them.
Character data between two kept nodes is one text node; blank text is dropped unless the nearest
`xml:space` is `preserve`.  The first failure in source order is the one that is reported.
-/

namespace FlutterLayout.Markup

/-- The source without a byte order mark at its start and with every line ended by a line feed. -/
def normalise (source : Text) : Text :=
  let source := Text.withoutLeading [0xEF, 0xBB, 0xBF] source
  let source := Text.replaceAll [Text.carriageReturn, Text.lineFeed] [Text.lineFeed] source
  Text.replaceAll [Text.carriageReturn] [Text.lineFeed] source

/-- The nodes read so far between two tags, and the character data behind the last of them, if there
was any. -/
structure Content where
  nodes : List Node
  pending : Option Text

namespace Content

def empty : Content := ⟨[], none⟩

/-- Turns pending character data into a text node; blank data only if `preserve`. -/
def flush (preserve : Bool) (c : Content) : Content :=
  match c.pending with
  | none => c
  | some value =>
    if !preserve && Text.isBlank value then ⟨c.nodes, none⟩ else ⟨c.nodes ++ [.text value], none⟩

def push (c : Content) (n : Node) : Content :=
  ⟨c.nodes ++ [n], c.pending⟩

def write (c : Content) (value : Text) : Content :=
  ⟨c.nodes, some (c.pending.getD [] ++ value)⟩

end Content

/-- An element whose end tag has not been read. -/
structure OpenElement where
  name : Text
  attributes : List Attribute
  position : Position
  preserve : Bool
  outer : Content

def preserves : List OpenElement → Bool
  | [] => false
  | inner :: _ => inner.preserve

/-- Nests tokens: `content` is what was read inside the innermost of the open elements `stack`. -/
def nest (options : ReadOptions) : Tokens → Content → List OpenElement → Except Failure (List Node)
  | .failed failure, _, _ => .error failure
  | .done, content, [] => .ok (content.flush false).nodes
  | .done, _, inner :: _ => .error ⟨inner.position, .unterminatedElement inner.name⟩
  | .more position token rest, content, stack =>
    match token with
    | .comment body =>
      if options.keepComments then
        nest options rest ((content.flush (preserves stack)).push (.comment body)) stack
      else nest options rest content stack
    | .cdata body =>
      if options.keepCData then
        nest options rest ((content.flush (preserves stack)).push (.cdata body)) stack
      else nest options rest (content.write body) stack
    | .instruction => nest options rest content stack
    | .doctype => nest options rest content stack
    | .characters value => nest options rest (content.write value) stack
    | .startTag name attributes closed =>
      let outer := content.flush (preserves stack)
      if closed then nest options rest (outer.push (.element ⟨name, attributes, position, []⟩)) stack
      else
        let preserve :=
          match spaceRule attributes with
          | .ok (some keep) => keep
          | _ => preserves stack
        nest options rest .empty (⟨name, attributes, position, preserve, outer⟩ :: stack)
    | .endTag name nameEnd missing =>
      match stack with
      | [] => .error ⟨position, .unexpectedEndTag⟩
      | inner :: stack =>
        if name ≠ inner.name then .error ⟨nameEnd, .mismatchedEndTag inner.name name⟩
        else
          match missing with
          | some place => .error ⟨place, .unterminatedEndTag inner.name⟩
          | none =>
            let children := (content.flush inner.preserve).nodes
            nest options rest
              (inner.outer.push (.element ⟨inner.name, inner.attributes, inner.position, children⟩)) stack

/-- The first node that may not stand at the top level: text, or an element when `roots` is true
already.  `finish` is where text is reported. -/
def misplaced? (finish : Position) (roots : Bool) : List Node → Option Failure
  | [] => none
  | .element e :: nodes =>
    if roots then some ⟨e.position, .multipleRoots⟩ else misplaced? finish true nodes
  | .text _ :: _ => some ⟨finish, .textOutsideRoot⟩
  | _ :: nodes => misplaced? finish roots nodes

def readNodes (options : ReadOptions) (source : Text) : Except Failure (List Node) :=
  match nest options (.read options (.ofText source)) .empty [] with
  | .error failure => .error failure
  | .ok nodes =>
    match misplaced? (Position.start.advance source) false nodes with
    | some failure => .error failure
    | none => .ok nodes

/-- Reads a source; `filename` is for the report of a failure only. -/
def Document.read (options : ReadOptions) (filename source : Text) : Except SyntaxError Document :=
  let source := normalise source
  match readNodes options source with
  | .error failure => .error (.ofFailure filename source failure)
  | .ok nodes => .ok ⟨nodes⟩

end FlutterLayout.Markup
