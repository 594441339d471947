import FlutterLayout.Json.Value

/-!
# Reading JSON

`Json.read?` reads a text that is one JSON value, of limited nesting.  A stray byte in a string, and a surrogate
without its partner, become the replacement character.
-/

namespace FlutterLayout.Json

def isBlank (b : UInt8) : Bool :=
  b = Text.space || b = Text.tabulator || b = Text.lineFeed || b = Text.carriageReturn

def skipBlanks (t : Text) : Text :=
  t.dropWhile isBlank

/-! ## Strings -/

def fourDigits? (t : Text) : Option Nat :=
  match t with
  | a :: b :: c :: d :: _ => do
    return ((← Text.hexValue? a) * 16 + (← Text.hexValue? b)) * 256
      + (← Text.hexValue? c) * 16 + (← Text.hexValue? d)
  | _ => none

def escape? (b : UInt8) : Option UInt8 :=
  [(Text.doubleQuote, 0x22), (Text.backslash, 0x5C), (Text.byte '/', 0x2F), (Text.byte 'b', 0x08),
    (Text.byte 'f', 0x0C), (Text.byte 'n', 0x0A), (Text.byte 'r', 0x0D), (Text.byte 't', 0x09)].lookup b

def lowSurrogate? (t : Text) : Option Nat :=
  match Text.after? "\\u" t with
  | some rest =>
    (fourDigits? rest).bind fun r => if 0xDC00 ≤ r && r ≤ 0xDFFF then some r else none
  | none => none

/-- A character that is written by its number, and how many bytes that takes behind the letter. -/
def numbered? (t : Text) : Option (Text × Nat) :=
  match fourDigits? t with
  | none => none
  | some r =>
    if 0xD800 ≤ r && r ≤ 0xDBFF then
      match lowSurrogate? (t.drop 4) with
      | some low => some (Text.ofRune (0x10000 + (r - 0xD800) * 0x400 + (low - 0xDC00)), 10)
      | none => some (Text.ofRune Text.replacementRune, 4)
    else some (Text.ofRune r, 4)

/-- Reads a string behind its quote, after `skip` bytes.  Gives the rest behind the closing quote. -/
def stringFrom? (value : Text) : (skip : Nat) → Text → Option (Text × Text)
  | _, [] => none
  | skip + 1, _ :: t => stringFrom? value skip t
  | 0, b :: t =>
    if b = Text.doubleQuote then some (value, t)
    else if b < 0x20 then none
    else if b = Text.backslash then
      match t with
      | [] => none
      | c :: rest =>
        if c = Text.byte 'u' then
          match numbered? rest with
          | some (r, width) => stringFrom? (value ++ r) (width + 1) t
          | none => none
        else
          match escape? c with
          | some e => stringFrom? (value ++ [e]) 1 t
          | none => none
    else stringFrom? (value ++ [b]) 0 t

def sanitised (t : Text) : Text :=
  (Text.runes t).flatMap Text.ofRune

/-! ## Numbers -/

def digits? (t : Text) : Option (Text × Text) :=
  let ds := t.takeWhile Text.isAsciiDigit
  if ds.isEmpty then none else some (ds, t.dropWhile Text.isAsciiDigit)

def whole? (t : Text) : Option (Text × Text) :=
  match t with
  | b :: rest => if b = Text.byte '0' then some ([b], rest) else digits? t
  | [] => none

def places? (t : Text) : Option (Text × Text) :=
  match t with
  | b :: rest =>
    if b = Text.byte '.' then (digits? rest).map fun (ds, rest) => (b :: ds, rest) else some ([], t)
  | [] => some ([], [])

def exponent? (t : Text) : Option (Text × Text) :=
  match t with
  | b :: rest =>
    if Text.lowerByte b = Text.byte 'e' then
      match rest with
      | s :: more =>
        if s = Text.byte '+' || s = Text.byte '-' then
          (digits? more).map fun (ds, rest) => (b :: s :: ds, rest)
        else (digits? rest).map fun (ds, rest) => (b :: ds, rest)
      | [] => none
    else some ([], t)
  | [] => some ([], [])

def number? (t : Text) : Option (Text × Text) := do
  let (sign, t) := match t with
    | b :: rest => if b = Text.byte '-' then ([b], rest) else ([], t)
    | [] => ([], [])
  let (w, t) ← whole? t
  let (p, t) ← places? t
  let (e, t) ← exponent? t
  return (sign ++ w ++ p ++ e, t)

/-! ## Values -/

def words : List (Text × Json) :=
  [("null", .null), ("true", .bool true), ("false", .bool false)]

def leaf? (t : Text) : Option (Json × Text) :=
  match words.findSome? fun (w, j) => (Text.after? w t).map fun rest => (j, rest) with
  | some found => some found
  | none =>
    match t with
    | [] => none
    | b :: rest =>
      if b = Text.doubleQuote then
        (stringFrom? [] 0 rest).map fun (s, rest) => (.string (sanitised s), rest)
      else (number? t).map fun (n, rest) => (.number n, rest)

mutual

def value? : (fuel : Nat) → Text → Option (Json × Text)
  | 0, _ => none
  | fuel + 1, t =>
    match skipBlanks t with
    | [] => none
    | b :: rest =>
      if b = Text.byte '[' then
        match Text.after? "]" (skipBlanks rest) with
        | some rest => some (.array [], rest)
        | none => (items? fuel rest).map fun (js, rest) => (.array js, rest)
      else if b = 0x7B then
        match Text.after? "\x7d" (skipBlanks rest) with
        | some rest => some (.object [], rest)
        | none => (members? fuel rest).map fun (ms, rest) => (.object ms, rest)
      else leaf? (b :: rest)

def items? : (fuel : Nat) → Text → Option (List Json × Text)
  | 0, _ => none
  | fuel + 1, t => do
    let (j, rest) ← value? fuel t
    match skipBlanks rest with
    | [] => none
    | b :: rest =>
      if b = Text.byte ',' then
        (items? fuel rest).map fun (js, rest) => (j :: js, rest)
      else if b = Text.byte ']' then some ([j], rest)
      else none

def members? : (fuel : Nat) → Text → Option (List (Text × Json) × Text)
  | 0, _ => none
  | fuel + 1, t => do
    let opened ← Text.after? "\"" (skipBlanks t)
    let (name, rest) ← stringFrom? [] 0 opened
    let rest ← Text.after? ":" (skipBlanks rest)
    let (j, rest) ← value? fuel rest
    match skipBlanks rest with
    | [] => none
    | b :: rest =>
      if b = Text.byte ',' then
        (members? fuel rest).map fun (ms, rest) => ((sanitised name, j) :: ms, rest)
      else if b = 0x7D then some ([(sanitised name, j)], rest)
      else none

end

def maxDepth : Nat := 10000

def read? (t : Text) : Option Json :=
  match value? (2 * t.length + 2) t with
  | some (j, rest) => if (skipBlanks rest).isEmpty && j.depth ≤ maxDepth then some j else none
  | none => none

end FlutterLayout.Json
