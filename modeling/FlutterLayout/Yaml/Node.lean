import FlutterLayout.Yaml.Token

/-!
# YAML nodes

What a YAML text says before scalars are given a type: scalars as they are written, sequences and mappings
in the order they are written, and references to nodes that have an anchor.
-/

namespace FlutterLayout.Yaml

/-! ## Tags -/

namespace Tag

def standard : Text := "tag:yaml.org,2002:"

def string : Text := "!!str"

def null : Text := "!!null"

def bool : Text := "!!bool"

def int : Text := "!!int"

def float : Text := "!!float"

def timestamp : Text := "!!timestamp"

def binary : Text := "!!binary"

def merge : Text := "!!merge"

def short (t : Text) : Text :=
  match Text.after? standard t with
  | some name => "!!" ++ name
  | none => t

end Tag

/-! ## Nodes -/

/-- A scalar with its tag; a plain scalar may have none, and its looks decide. -/
structure Scalar where
  text : Text
  tag? : Option Text
  deriving DecidableEq, Repr

/-- A node.  The tags of sequences and mappings say nothing that matters. -/
inductive Node where
  | scalar (s : Scalar)
  | sequence (items : List Node)
  | mapping (entries : List (Node × Node))
  /-- A reference to the node at an anchor.  All references of a document are numbered, and so are all
  anchors. -/
  | reference (number anchor : Nat) (name : Text)

/-- A document: its node, the nodes at anchors, and the number of references. -/
structure Document where
  root : Node
  anchors : List (Nat × Node)
  references : Nat

def Scalar.missing : Scalar := ⟨[], none⟩

def mergeKey : Text := "<<"

/-- A scalar as it is written.  An exclamation mark alone is no tag. -/
def Scalar.ofToken (text : Text) (isPlain : Bool) (tag? : Option Text) : Scalar :=
  match tag?.filter fun t => t ≠ Text.ofString "!" with
  | some t => ⟨text, some (Tag.short t)⟩
  | none =>
    if !isPlain then ⟨text, some Tag.string⟩
    else if text = mergeKey then ⟨text, some Tag.merge⟩
    else ⟨text, none⟩

/-! ## Reading -/

/-- The state of reading nodes. -/
structure Reading where
  tokens : List Token
  handles : List (Text × Text) := []
  names : List (Text × Nat) := []
  anchors : List (Nat × Node) := []
  references : Nat := 0

abbrev ReadM := StateT Reading (Except Malformed)

/-- The next token; there must be one. -/
def peek : ReadM Token := do
  match (← get).tokens with
  | t :: _ => pure t
  | [] => throw {}

def advance : ReadM Unit :=
  modify fun s => { s with tokens := s.tokens.drop 1 }

def missingNode : Node := .scalar Scalar.missing

def meaning (t : TagName) : ReadM Text := do
  if t.handle.isEmpty then pure t.suffix
  else
    match (← get).handles.lookup t.handle with
    | some m => pure (m ++ t.suffix)
    | none => throw {}

def readTag? : ReadM (Option Text) := do
  match ← peek with
  | .tag t =>
    advance
    let m ← meaning t
    pure (some m)
  | _ => pure none

def readAnchor? : ReadM (Option Text) := do
  match ← peek with
  | .anchor name =>
    advance
    pure (some name)
  | _ => pure none

def readProperties : ReadM (Option Text × Option Text) := do
  match ← readAnchor? with
  | some name =>
    let tag? ← readTag?
    pure (some name, tag?)
  | none =>
    match ← readTag? with
    | some tag =>
      let name? ← readAnchor?
      pure (name?, some tag)
    | none => pure (none, none)

def openAnchor (name? : Option Text) : ReadM (Option Nat) := do
  match name? with
  | none => pure none
  | some name =>
    let number := (← get).names.length
    modify fun s => { s with names := (name, number) :: s.names }
    pure (some number)

def closeAnchor (number? : Option Nat) (n : Node) : ReadM Node := do
  match number? with
  | none => pure n
  | some number =>
    modify fun s => { s with anchors := (number, n) :: s.anchors }
    pure n

/-- Reads a reference.  Its anchor must have been read. -/
def readReference (name : Text) : ReadM Node := do
  advance
  let s ← get
  match s.names.lookup name with
  | some anchor =>
    set { s with references := s.references + 1 }
    pure (.reference s.references anchor name)
  | none => throw {}

def Token.bordersEntry : Token → Bool
  | .key | .value | .blockEnd => true
  | _ => false

def Token.bordersFlow (t close : Token) : Bool :=
  t = .separator || t = close

mutual

/-- Reads a node, with at most `fuel` steps.  Outside of flow collections it may be a block; a sequence may
begin at the column of the key it belongs to. -/
def readNode : (fuel : Nat) → (inBlock afterKey : Bool) → ReadM Node
  | 0, _, _ => throw {}
  | fuel + 1, inBlock, afterKey => do
    match ← peek with
    | .reference name => readReference name
    | _ =>
      let (name?, tag?) ← readProperties
      let number? ← openAnchor name?
      let node ← readContent fuel inBlock afterKey (name?.isSome || tag?.isSome) tag?
      closeAnchor number? node

/-- Reads a node behind its anchor and its tag.  With one of them it may be missing. -/
def readContent :
    (fuel : Nat) → (inBlock afterKey hasProperties : Bool) → Option Text → ReadM Node
  | 0, _, _, _, _ => throw {}
  | fuel + 1, inBlock, afterKey, hasProperties, tag? => do
    match ← peek with
    | .scalar text isPlain =>
      advance
      pure (.scalar (Scalar.ofToken text isPlain tag?))
    | .flowSequence =>
      advance
      let items ← readFlowItems fuel true
      pure (.sequence items)
    | .flowMapping =>
      advance
      let entries ← readFlowEntries fuel true
      pure (.mapping entries)
    | t =>
      if t = .item && afterKey then
        let items ← readItems fuel true
        pure (.sequence items)
      else if t = .blockSequence && inBlock then
        advance
        let items ← readItems fuel false
        pure (.sequence items)
      else if t = .blockMapping && inBlock then
        advance
        let entries ← readEntries fuel
        pure (.mapping entries)
      else if hasProperties then pure (.scalar (Scalar.ofToken [] true tag?))
      else throw {}

/-- Reads the items of a block sequence; one that begins at the column of a key has no end of its own. -/
def readItems : (fuel : Nat) → (afterKey : Bool) → ReadM (List Node)
  | 0, _ => throw {}
  | fuel + 1, afterKey => do
    match ← peek with
    | .item =>
      advance
      let next ← peek
      let isMissing := next = .item || next = .blockEnd || (afterKey && next.bordersEntry)
      let item ← if isMissing then pure missingNode else readNode fuel true false
      let items ← readItems fuel afterKey
      pure (item :: items)
    | t =>
      if afterKey then pure []
      else if t = .blockEnd then
        advance
        pure []
      else throw {}

def readEntries : (fuel : Nat) → ReadM (List (Node × Node))
  | 0 => throw {}
  | fuel + 1 => do
    match ← peek with
    | .key =>
      advance
      let key ← if (← peek).bordersEntry then pure missingNode else readNode fuel true true
      let value ←
        if (← peek) = .value then
          advance
          if (← peek).bordersEntry then pure missingNode else readNode fuel true true
        else pure missingNode
      let entries ← readEntries fuel
      pure ((key, value) :: entries)
    | .blockEnd =>
      advance
      pure []
    | _ => throw {}

/-- Reads the items of a flow sequence.  An item may be a mapping of one entry without braces. -/
def readFlowItems : (fuel : Nat) → (isFirst : Bool) → ReadM (List Node)
  | 0, _ => throw {}
  | fuel + 1, isFirst => do
    if (← peek) ≠ .flowSequenceEnd && !isFirst then
      if (← peek) = .separator then advance else throw {}
    match ← peek with
    | .flowSequenceEnd =>
      advance
      pure []
    | .key =>
      advance
      let (key, value) ← readSingleEntry fuel
      let items ← readFlowItems fuel false
      pure (.mapping [(key, value)] :: items)
    | _ =>
      let item ← readNode fuel false false
      let items ← readFlowItems fuel false
      pure (item :: items)

/-- Reads the entry of a mapping without braces.  The token behind a missing key is passed over. -/
def readSingleEntry : (fuel : Nat) → ReadM (Node × Node)
  | 0 => throw {}
  | fuel + 1 => do
    let next ← peek
    let key ←
      if next = .value || next.bordersFlow .flowSequenceEnd then
        advance
        pure missingNode
      else readNode fuel false false
    let value ← readFlowValue fuel .flowSequenceEnd
    let _ ← peek
    pure (key, value)

/-- Reads the value behind a colon in a flow collection; both may be missing. -/
def readFlowValue : (fuel : Nat) → (close : Token) → ReadM Node
  | 0, _ => throw {}
  | fuel + 1, close => do
    if (← peek) = .value then
      advance
      if (← peek).bordersFlow close then pure missingNode else readNode fuel false false
    else pure missingNode

/-- Reads the entries of a flow mapping.  A key without a question mark or a colon has no value. -/
def readFlowEntries : (fuel : Nat) → (isFirst : Bool) → ReadM (List (Node × Node))
  | 0, _ => throw {}
  | fuel + 1, isFirst => do
    if (← peek) ≠ .flowMappingEnd && !isFirst then
      if (← peek) = .separator then advance else throw {}
    match ← peek with
    | .flowMappingEnd =>
      advance
      pure []
    | .key =>
      advance
      let next ← peek
      let isMissing := next = .value || next.bordersFlow .flowMappingEnd
      let key ← if isMissing then pure missingNode else readNode fuel false false
      let value ← readFlowValue fuel .flowMappingEnd
      let entries ← readFlowEntries fuel false
      pure ((key, value) :: entries)
    | _ =>
      let key ← readNode fuel false false
      let _ ← peek
      let entries ← readFlowEntries fuel false
      pure ((key, missingNode) :: entries)

end

/-! ## Documents -/

def standardHandles : List (Text × Text) :=
  [("!", "!"), ("!!", Tag.standard)]

/-- Reads directives, of which there are at most `fuel`.  The version must be 1.1, and neither the version
nor a handle may be declared twice. -/
def readDirectives : (fuel : Nat) → (hasVersion : Bool) → ReadM Unit
  | 0, _ => throw {}
  | fuel + 1, hasVersion => do
    match ← peek with
    | .directive (.version major minor) =>
      if hasVersion || major ≠ 1 || minor ≠ 1 then throw {}
      advance
      readDirectives fuel true
    | .directive (.handle name meaning) =>
      let s ← get
      if (s.handles.lookup name).isSome then throw {}
      set { s with handles := s.handles ++ [(name, meaning)] }
      advance
      readDirectives fuel hasVersion
    | _ => modify fun s => { s with handles := s.handles ++ standardHandles }

def Token.isOutside : Token → Bool
  | .directive _ | .documentStart | .documentEnd | .streamEnd => true
  | _ => false

/-- Reads the node of the first document; none when there is no document.  `fuel` bounds the steps. -/
def readRoot (fuel : Nat) : ReadM (Option Node) := do
  match ← peek with
  | .streamEnd => pure none
  | first =>
    readDirectives fuel false
    let isMarked :=
      match first with
      | .directive _ | .documentStart => true
      | _ => false
    let node ←
      if isMarked then
        if (← peek) ≠ .documentStart then throw {}
        advance
        if (← peek).isOutside then pure missingNode else readNode fuel true false
      else readNode fuel true false
    let _ ← peek
    pure (some node)

/-- Reads the first document of a text; none when there is no document. -/
def Document.read (t : Text) : Except Malformed (Option Document) := do
  let cs ← Characters.read t
  let ts := tokens cs
  let (root?, s) ← (readRoot (4 * ts.length + 4)).run { tokens := ts }
  pure (root?.map fun root => ⟨root, s.anchors, s.references⟩)

end FlutterLayout.Yaml
