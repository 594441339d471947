import FlutterLayout.Yaml.Value

/-!
# Shapes of documents

A `Shape` says what is expected of a node: a text, a truth value, a list, a mapping, a record with known
fields, or anything at all.  `Document.fit` gives the value of a document of a shape.
-/

namespace FlutterLayout.Yaml

/-- What is expected of a node. -/
inductive Shape where
  | text
  | truth
  | anything
  | list (item : Shape)
  | map (value : Shape)
  | record (fields : List (Text × Shape))

/-! ## Effort -/

/-- The nodes that were looked at, and those of them that were reached through a reference. -/
structure Effort where
  nodes : Nat := 0
  referred : Nat := 0
  deriving DecidableEq, Repr

/-- Too large a part of the nodes was reached through references: more than 99 in 100 of up to 400000
nodes, more than 10 in 100 of 4000000, and proportionately in between. -/
def Effort.isExcessive (e : Effort) : Bool :=
  let allowed : Nat :=
    if e.nodes ≤ 400000 then 99 * 3600000
    else if 4000000 ≤ e.nodes then 10 * 3600000
    else 99 * 3600000 - 89 * (e.nodes - 400000)
  100 < e.referred && 1000 < e.nodes && allowed * e.nodes < e.referred * 360000000

abbrev FitM := StateT Effort (Except Malformed)

def countNode (isReferred : Bool) : FitM Unit := do
  modify fun e => ⟨e.nodes + 1, if isReferred then e.referred + 1 else e.referred⟩
  if (← get).isExcessive then throw {}

/-! ## Nodes -/

/-- What is known where a node stands: the nodes at anchors and the references on the way to it. -/
structure Surroundings where
  anchors : List (Nat × Node)
  references : List Nat := []

def Surroundings.target (u : Surroundings) (anchor : Nat) : Except Malformed Node :=
  match u.anchors.lookup anchor with
  | some n => .ok n
  | none => .error {}

def Surroundings.through (u : Surroundings) (number : Nat) : Except Malformed Surroundings :=
  if u.references.contains number then .error {} else .ok { u with references := number :: u.references }

def Surroundings.isMapping (u : Surroundings) : Node → Bool
  | .mapping _ => true
  | .reference _ anchor _ =>
    match u.anchors.lookup anchor with
    | some (.mapping _) => true
    | _ => false
  | _ => false

/-- The tag of a node; that of a reference is the tag of its target. -/
def Surroundings.tag (u : Surroundings) (n : Node) : Text :=
  let own : Node → Text
    | .scalar s => s.tag
    | .sequence _ => "!!seq"
    | .mapping _ => "!!map"
    | .reference _ _ _ => []
  match n with
  | .reference _ anchor _ => ((u.anchors.lookup anchor).map own).getD []
  | n => own n

def Node.isMergeKey : Node → Bool
  | .scalar s => s.text = mergeKey && s.tag? = some Tag.merge
  | _ => false

def Node.keyMark : Node → Nat × Text
  | .scalar s => (0, s.text)
  | .sequence _ => (1, [])
  | .mapping _ => (2, [])
  | .reference _ _ name => (3, name)

def hasDuplicates (keys : List (Nat × Text)) : Bool :=
  match keys with
  | [] => false
  | key :: rest => rest.contains key || hasDuplicates rest

/-! ## Values -/

def yesWords : List Text := ["y", "Y", "yes", "Yes", "YES", "on", "On", "ON"]

def noWords : List Text := ["n", "N", "no", "No", "NO", "off", "Off", "OFF"]

def truth? : Value → Option Bool
  | .bool b => some b
  | .string t => if yesWords.contains t then some true else if noWords.contains t then some false else none
  | _ => none

/-- The value of a scalar where a shape is expected; none when it leaves the value unset. -/
def fitScalar (shape : Shape) (s : Scalar) : Except Malformed (Option Value) := do
  match shape, ← s.value with
  | .text, .null | .truth, .null => pure none
  | _, .null => pure (some .null)
  | .text, .string t => pure (some (.string t))
  | .text, _ => pure (some (.string s.text))
  | .truth, v =>
    match truth? v with
    | some b => pure (some (.bool b))
    | none => throw {}
  | .anything, v => pure (some v)
  | _, _ => throw {}

def sameKey : Value → Value → Bool
  | .null, .null => true
  | .bool a, .bool b => a = b
  | .int m, .int n => m = n
  | .float x, .float y => Number.Double.le x y && Number.Double.le y x
  | .infinite a, .infinite b => a = b
  | .time s, .time t => s = t
  | .string s, .string t => s = t
  | _, _ => false

/-- A mapping that is being filled. -/
structure Filling where
  entries : List (Value × Value) := []
  met : Option (List Value) := none

def Filling.has (f : Filling) (key : Value) : Bool :=
  f.entries.any fun e => sameKey e.1 key

def Filling.put (f : Filling) (key value : Value) : Filling :=
  if f.has key then
    { f with entries := f.entries.map fun e => if sameKey e.1 key then (key, value) else e }
  else { f with entries := f.entries ++ [(key, value)] }

/-- Meets a key; none when it was met before. -/
def Filling.meet? (f : Filling) (key : Value) : Option Filling :=
  match f.met with
  | none => some f
  | some keys => if keys.any (sameKey key) then none else some { f with met := some (key :: keys) }

/-! ## Mappings -/

/-- What is expected of the entries of a mapping. -/
inductive Members where
  | all (key value : Shape)
  /-- The fields of a record; other entries are passed over. -/
  | named (fields : List (Text × Shape))

def Members.key : Members → Shape
  | all key _ => key
  | named _ => .text

/-- The shape of the value of a key; none when it is passed over. -/
def Members.value? (m : Members) (key : Value) : Option Shape :=
  match m, key with
  | all _ value, _ => some value
  | named fields, .string name => fields.lookup name
  | named _, _ => none

def Members.blank? : Members → Option Value
  | all _ .text => some (.string [])
  | all _ .truth => some (.bool false)
  | _ => none

def Value.isCollection : Value → Bool
  | list _ | map _ _ => true
  | _ => false

def Surroundings.anyMembers (u : Surroundings) (entries : List (Node × Node)) : Members :=
  if entries.all fun e => u.tag e.1 = Tag.string || u.tag e.1 = Tag.merge then .all .text .anything
  else .all .anything .anything

/-- Puts the value of an entry, or a blank one in place of nothing, which leaves an entry that is there
alone. -/
def Filling.putValue (f : Filling) (m : Members) (isNew isNull : Bool) (key : Value) (v? : Option Value) :
    Filling :=
  match v?, m.blank? with
  | some v, _ => f.put key v
  | none, some v => if isNull && (isNew || !f.has key) then f.put key v else f
  | none, none => f

def Surroundings.merged (u : Surroundings) (n : Node) : Except Malformed (List Node) :=
  match n with
  | .sequence items => if items.all u.isMapping then .ok items else .error {}
  | n => if u.isMapping n then .ok [n] else .error {}

mutual

/-- The value of a node where a shape is expected, with at most `fuel` steps; none when the node leaves the
value unset. -/
def fitNode : (fuel : Nat) → Surroundings → Shape → Node → FitM (Option Value)
  | 0, _, _, _ => throw {}
  | fuel + 1, u, shape, n => do
    countNode (!u.references.isEmpty)
    match n with
    | .reference number anchor _ =>
      let inner ← u.through number
      let target ← u.target anchor
      fitNode fuel inner shape target
    | .scalar s => fitScalar shape s
    | .sequence items =>
      match shape with
      | .list item => do
        let vs ← items.mapM (fitNode fuel u item)
        pure (some (.list (vs.filterMap id)))
      | .anything => do
        let vs ← items.mapM (fitNode fuel u .anything)
        pure (some (.list (vs.filterMap id)))
      | _ => throw {}
    | .mapping entries =>
      match shape with
      | .map value => do
        let f ← fillFrom fuel u (.all .text value) true entries {}
        pure (some (.map true f.entries))
      | .record fields => do
        let f ← fillFrom fuel u (.named fields) true entries {}
        pure (some (.map true f.entries))
      | .anything => do
        let m := u.anyMembers entries
        let f ← fillFrom fuel u m true entries {}
        let stringKeys :=
          match m.key with
          | .text => true
          | _ => false
        pure (some (.map stringKeys f.entries))
      | _ => throw {}

def fillFrom :
    (fuel : Nat) → Surroundings → Members → (isNew : Bool) → List (Node × Node) → Filling → FitM Filling
  | 0, _, _, _, _, _ => throw {}
  | fuel + 1, u, m, isNew, entries, f => do
    if hasDuplicates (entries.map fun e => e.1.keyMark) then throw {}
    let own := entries.filter fun e => !e.1.isMergeKey
    let (f, _) ← own.foldlM (fun (f, names) e => do
      match ← fitNode fuel u m.key e.1 with
      | none => pure (f, names)
      | some key =>
        match f.meet? key with
        | none => pure (f, names)
        | some f =>
          if key.isCollection then throw {}
          match m, m.value? key with
          | .named _, some shape => do
            if names.any (sameKey key) then throw {}
            let v? ← fitNode fuel u shape e.2
            pure (f.putValue m isNew false key v?, key :: names)
          | .all _ _, some shape => do
            let v? ← fitNode fuel u shape e.2
            pure (f.putValue m isNew (u.tag e.2 = Tag.null) key v?, names)
          | _, none => pure (f, names)) (f, ([] : List Value))
    match entries.find? fun e => e.1.isMergeKey with
    | none => pure f
    | some (_, merge) => do
      let met ←
        match f.met with
        | some keys => pure keys
        | none => do
          let keys ← entries.mapM fun e => fitNode fuel u .anything e.1
          pure (keys.filterMap id)
      let sources ← u.merged merge
      let filled ← sources.foldlM (fun g source => mergeFrom fuel u m source g) { f with met := some met }
      pure { filled with met := f.met.bind fun _ => filled.met }

def mergeFrom : (fuel : Nat) → Surroundings → Members → Node → Filling → FitM Filling
  | 0, _, _, _, _ => throw {}
  | fuel + 1, u, m, n, f => do
    countNode (!u.references.isEmpty)
    match n with
    | .reference number anchor _ =>
      let inner ← u.through number
      let target ← u.target anchor
      mergeFrom fuel inner m target f
    | .mapping entries => fillFrom fuel u m false entries f
    | _ => throw {}

end

/-! ## Documents -/

mutual

def Node.size : Node → Nat
  | .scalar _ => 1
  | .sequence items => 1 + itemsSize items
  | .mapping entries => 1 + entriesSize entries
  | .reference _ _ _ => 1

def itemsSize : List Node → Nat
  | [] => 0
  | n :: ns => n.size + itemsSize ns

def entriesSize : List (Node × Node) → Nat
  | [] => 0
  | e :: es => entrySize e + entriesSize es

def entrySize : Node × Node → Nat
  | (key, value) => key.size + value.size

end

/-- The value of a document of a shape; none when it stands for nothing.  No way through a document is
longer than its nodes once for each reference. -/
def Document.fit (d : Document) (shape : Shape) : Except Malformed (Option Value) := do
  let fuel := 4 * (d.root.size + 1) * (d.references + 1)
  let (v?, _) ← (fitNode fuel { anchors := d.anchors } shape d.root).run { nodes := 1 }
  pure v?

end FlutterLayout.Yaml
