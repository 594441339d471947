import FlutterLayout.Text.Cluster
import FlutterLayout.Terminal.Pen

/-!
# Pieces of terminal text

For wrapping, a text is cut into pieces: printed characters, controls, and whole control sequences.
`leadingPiece` cuts off the first one.  A piece that changes the pen or the link of what follows says so.
-/

namespace FlutterLayout.Terminal

/-! ## Columns of a line

A line for a terminal may hold control sequences, which take no columns.  `Mode` says what a terminal is in
the middle of, and `Mode.next` how a byte changes that; `columns` counts the columns of what is printed. -/

inductive Mode where
  | ground
  | escape
  | escapeIntermediate
  /-- A control sequence: its beginning, its parameters, and the bytes between them and its end. -/
  | controlEntry
  | controlParameter
  | controlIntermediate
  | deviceEntry
  | deviceParameter
  | deviceIntermediate
  | deviceData
  | systemCommand
  | privateString
  deriving DecidableEq, Repr

def isBetween (low high b : UInt8) : Bool :=
  low ≤ b && b ≤ high

namespace Mode

/-- A byte that means the same in every mode unless a mode says otherwise; none for one that begins a
character of more than one byte. -/
def anywhere (b : UInt8) : Option Mode :=
  if b = 0x1B then some escape
  else if b = 0x90 then some deviceEntry
  else if b = 0x9B then some controlEntry
  else if b = 0x9D then some systemCommand
  else if b = 0x98 || b = 0x9E || b = 0x9F then some privateString
  else if isBetween 0xC2 0xF4 b then none
  else some ground

def isPlainControl (b : UInt8) : Bool :=
  b ≤ 0x1F && b ≠ 0x18 && b ≠ 0x1A && b ≠ 0x1B

def afterEscape (b : UInt8) : Option Mode :=
  if isPlainControl b || b = 0x7F then some escape
  else if isBetween 0x20 0x2F b then some escapeIntermediate
  else if b = Text.byte 'P' then some deviceEntry
  else if b = Text.byte '[' then some controlEntry
  else if b = Text.byte ']' then some systemCommand
  else if b = Text.byte 'X' || b = Text.byte '^' || b = Text.byte '_' then some privateString
  else anywhere b

/-- The mode behind a byte of a control sequence or a device control string, whose modes are given. -/
def inSequence (m parameter intermediate last : Mode) (b : UInt8) : Option Mode :=
  if isPlainControl b || b = 0x7F then some m
  else if isBetween 0x20 0x2F b then some intermediate
  else if isBetween 0x30 0x3F b then some (if m = intermediate then last else parameter)
  else if isBetween 0x40 0x7E b then some last
  else anywhere b

/-- The mode behind a byte; none when the byte begins a character of more than one byte. -/
def next (m : Mode) (b : UInt8) : Option Mode :=
  match m with
  | ground => anywhere b
  | escape => afterEscape b
  | escapeIntermediate =>
    if isPlainControl b || isBetween 0x20 0x2F b || b = 0x7F then some escapeIntermediate else anywhere b
  | controlEntry | controlParameter | controlIntermediate =>
    inSequence m controlParameter controlIntermediate ground b
  | deviceEntry =>
    if isBetween 0x08 0x0D b || b = 0x1B then some deviceData
    else inSequence m deviceParameter deviceIntermediate deviceData b
  | deviceParameter | deviceIntermediate => inSequence m deviceParameter deviceIntermediate deviceData b
  | deviceData =>
    if b = 0x1B then some escape
    else if b = 0x18 || b = 0x1A || b = 0x9C then some ground
    else some deviceData
  | systemCommand =>
    if b = 0x1B then some escape
    else if b = 0x07 || b = 0x18 || b = 0x1A || b = 0x9C then some ground
    else some systemCommand
  | privateString =>
    if isPlainControl b || isBetween 0x20 0x7F b then some privateString else anywhere b

end Mode

def isPrinted (b : UInt8) : Bool :=
  isBetween 0x20 0x7E b

/-- The columns of a text in a mode, the first `skip` bytes of which have been counted. -/
def columnsFrom : (skip : Nat) → Mode → Text → Nat
  | _, _, [] => 0
  | skip + 1, m, _ :: t => columnsFrom skip m t
  | 0, m, b :: t =>
    match m.next b with
    | some m' => (if m = .ground && isPrinted b then 1 else 0) + columnsFrom 0 m' t
    | none =>
      let cluster := Text.leadingCluster b t
      cluster.columns + columnsFrom (cluster.length - 1) .ground t

def columns (line : Text) : Nat :=
  columnsFrom 0 .ground line

def lines (t : Text) : List Text :=
  Text.splitOn Text.lineFeed t

def width (t : Text) : Nat :=
  ((lines t).map columns).foldl max 0

/-! ## Pieces -/

/-- The target of a link, and its parameters. -/
structure Link where
  parameters : Text := []
  target : Text := []
  deriving DecidableEq, Repr

def Link.isNone (l : Link) : Bool :=
  l.parameters.isEmpty && l.target.isEmpty

def Link.reset : Text := "\x1b]8;;\x07"

def Link.sequence (l : Link) : Text :=
  "\x1b]8;" ++ l.parameters ++ ";" ++ l.target ++ "\x07"

/-- What a piece does to what follows. -/
inductive Effect where
  | none
  | pen (parameters : List Parameter)
  | link (l : Link)
  deriving DecidableEq, Repr

structure Piece where
  length : Nat
  columns : Nat := 0
  effect : Effect := .none
  deriving DecidableEq, Repr

/-! ## Control sequences -/

def isMarker (b : UInt8) : Bool :=
  isBetween 0x3C 0x3F b

def isParameterByte (b : UInt8) : Bool :=
  isBetween 0x30 0x3B b

def addParameterByte (ps : List Parameter) (b : UInt8) : List Parameter :=
  match ps with
  | [] => []
  | p :: more =>
    if b = Text.byte ';' then {} :: ps
    else if b = Text.byte ':' then {} :: { p with hasMore := true } :: more
    else { p with value? := some (10 * p.value + (b.toNat - 48)) } :: more

def readParameters (bytes : Text) : List Parameter :=
  if bytes.isEmpty then [] else (bytes.foldl addParameterByte [{}]).reverse

/-- The parts of a control sequence or a device control string behind its beginning. -/
structure SequenceParts where
  markers : Text
  parameters : Text
  intermediates : Text
  rest : Text

def SequenceParts.read (t : Text) : SequenceParts :=
  let behind := t.dropWhile isMarker
  let behind' := behind.dropWhile isParameterByte
  { markers := t.takeWhile isMarker
    parameters := behind.takeWhile isParameterByte
    intermediates := behind'.takeWhile (isBetween 0x20 0x2F)
    rest := behind'.dropWhile (isBetween 0x20 0x2F) }

def SequenceParts.length (s : SequenceParts) : Nat :=
  s.markers.length + s.parameters.length + s.intermediates.length

/-! ## Strings -/

/-- The data of a string and the number of bytes behind it that end it.  A bell ends a command for the
operating system only. -/
def readString (isCommand : Bool) : Text → Text × Nat
  | [] => ([], 0)
  | b :: t =>
    if b = 0x07 && isCommand || b = 0x9C then ([], 1)
    else if b = 0x18 || b = 0x1A then ([], 0)
    else if b = 0x1B then ([], if t.head? = some Text.backslash then 2 else 0)
    else
      let (data, ending) := readString isCommand t
      (b :: data, ending)

def leadingNumber (t : Text) : Nat :=
  (t.takeWhile Text.isAsciiDigit).foldl (fun n b => 10 * n + (b.toNat - 48)) 0

def linkEffect (data : Text) : Effect :=
  match Text.splitOn (Text.byte ';') data with
  | [command, parameters, target] =>
    if leadingNumber command = 8 then .link ⟨parameters, target⟩ else .none
  | _ => .none

def stringPiece (start : Nat) (isCommand : Bool) (t : Text) : Piece :=
  let (data, ending) := readString isCommand t
  { length := start + data.length + ending, effect := if isCommand then linkEffect data else .none }

/-- A control sequence behind the first `start` bytes of a piece.  One that cannot end here is cut off. -/
def sequencePiece (start : Nat) (t : Text) : Piece :=
  let s := SequenceParts.read t
  match s.rest with
  | [] => { length := start + s.length }
  | b :: _ =>
    if isBetween 0x40 0x7E b then
      let isPen := b = Text.byte 'm' && s.markers.isEmpty && s.intermediates.isEmpty
      { length := start + s.length + 1
        effect := if isPen then .pen (readParameters s.parameters) else .none }
    else { length := start + s.length }

def devicePiece (start : Nat) (t : Text) : Piece :=
  let s := SequenceParts.read t
  match s.rest with
  | [] => { length := start + s.length }
  | b :: data =>
    if isBetween 0x40 0x7E b then stringPiece (start + s.length + 1) false data
    else { length := start + s.length }

def escapePiece (t : Text) : Piece :=
  match t with
  | [] => { length := 1 }
  | b :: rest =>
    if b = Text.byte '[' then sequencePiece 2 rest
    else if b = Text.byte 'P' then devicePiece 2 rest
    else if b = Text.byte ']' then stringPiece 2 true rest
    else if b = Text.byte 'X' || b = Text.byte '^' || b = Text.byte '_' then stringPiece 2 false rest
    else
      let intermediates := t.takeWhile (isBetween 0x20 0x2F)
      match t.dropWhile (isBetween 0x20 0x2F) with
      | [] => { length := 1 + intermediates.length }
      | c :: _ => { length := 1 + intermediates.length + (if isBetween 0x30 0x7E c then 1 else 0) }

def leadingPiece (b : UInt8) (t : Text) : Piece :=
  if b = 0x1B then escapePiece t
  else if b = 0x9B then sequencePiece 1 t
  else if b = 0x90 then devicePiece 1 t
  else if b = 0x9D then stringPiece 1 true t
  else if b = 0x98 || b = 0x9E || b = 0x9F then stringPiece 1 false t
  else if isPrinted b then { length := 1, columns := 1 }
  else if b < 0xC0 then { length := 1 }
  else
    let cluster := Text.leadingCluster b t
    { length := cluster.length, columns := cluster.columns }

end FlutterLayout.Terminal
