import FlutterLayout.Yaml.BlockScalar

/-!
# Tags, anchors and directives

A tag is a handle and a suffix; the handle stands for a text that a directive declares.  The tag alone
between angle brackets has no handle.  The names of anchors are letters, digits, dashes and underscores.
-/

namespace FlutterLayout.Yaml

/-! ## Anchors -/

def endsName (cs : Characters) : Bool :=
  match cs with
  | [] => true
  | r :: _ => isGap r || (Text.ofString "?:,]\x7d%@\x60").any fun b => r = b.toNat

def readName (cs : Characters) : Except Malformed (Text × Characters) :=
  let name := cs.takeWhile isNameCharacter
  let rest := cs.dropWhile isNameCharacter
  if name.isEmpty || !endsName rest then .error {} else .ok (Characters.text name, rest)

/-! ## Tags -/

structure TagName where
  handle : Text
  suffix : Text
  deriving DecidableEq, Repr

def isTagCharacter (r : Rune) : Bool :=
  isNameCharacter r || (Text.ofString ";/?:@&=+$,.!~*'()[]").any fun b => r = b.toNat

/-- The number of bytes of the UTF-8 sequence that a byte leads; none for a byte that leads none. -/
def sequenceLength? (b : Nat) : Option Nat :=
  if b < 0x80 then some 1
  else if 0xC0 ≤ b && b < 0xE0 then some 2
  else if 0xE0 ≤ b && b < 0xF0 then some 3
  else if 0xF0 ≤ b && b < 0xF8 then some 4
  else none

/-- Reads the characters of a suffix.  A byte may be written as a percent sign and two digits; `missing` says
how many bytes of a sequence must still follow in that form. -/
def readSuffixFrom (missing : Nat) : Characters → Except Malformed (Text × Characters)
  | [] => if missing = 0 then .ok ([], []) else .error {}
  | r :: t =>
    if r = '%'.toNat then
      match t with
      | a :: b :: rest =>
        match hexDigit? a, hexDigit? b with
        | some high, some low =>
          let byte := high * 16 + low
          if missing = 0 then
            match sequenceLength? byte with
            | some n => (readSuffixFrom (n - 1) rest).map fun (s, rest) => (byte.toUInt8 :: s, rest)
            | none => .error {}
          else if 0x80 ≤ byte && byte < 0xC0 then
            (readSuffixFrom (missing - 1) rest).map fun (s, rest) => (byte.toUInt8 :: s, rest)
          else .error {}
        | _, _ => .error {}
      | _ => .error {}
    else if missing ≠ 0 then .error {}
    else if isTagCharacter r then (readSuffixFrom 0 t).map fun (s, rest) => (Text.ofRune r ++ s, rest)
    else .ok ([], r :: t)

def readSuffix (cs : Characters) : Except Malformed (Text × Characters) :=
  (readSuffixFrom 0 cs).bind fun (s, rest) => if rest.length = cs.length then .error {} else .ok (s, rest)

/-- Reads an exclamation mark, a name, and one more exclamation mark if it is there; says whether it is. -/
def readHandle (cs : Characters) : Except Malformed (Text × Bool × Characters) :=
  match cs with
  | [] => .error {}
  | r :: t =>
    if r ≠ '!'.toNat then .error {}
    else
      let name := t.takeWhile isNameCharacter
      let rest := t.dropWhile isNameCharacter
      match rest with
      | c :: more =>
        if c = '!'.toNat then .ok ("!" ++ Characters.text name ++ "!", true, more)
        else .ok ("!" ++ Characters.text name, false, rest)
      | [] => .ok ("!" ++ Characters.text name, false, [])

/-- Reads a tag between angle brackets, behind the exclamation mark and the first of them. -/
def readVerbatim (cs : Characters) : Except Malformed (TagName × Characters) := do
  let (suffix, rest) ← readSuffix cs
  match rest with
  | r :: rest => if r = '>'.toNat then pure (⟨[], suffix⟩, rest) else throw {}
  | [] => throw {}

/-- Reads a tag without angle brackets; an exclamation mark alone has no handle. -/
def readShorthand (cs : Characters) : Except Malformed (TagName × Characters) := do
  let (handle, isClosed, rest) ← readHandle cs
  if isClosed then
    let (suffix, rest) ← readSuffix rest
    pure (⟨handle, suffix⟩, rest)
  else
    let (more, rest) ← readSuffixFrom 0 rest
    let suffix := handle.drop 1 ++ more
    pure (if suffix.isEmpty then ⟨[], "!"⟩ else ⟨"!", suffix⟩, rest)

/-- Reads a tag at its exclamation mark.  A gap must follow it. -/
def readTag (cs : Characters) : Except Malformed (TagName × Characters) := do
  let (tag, rest) ←
    match cs with
    | _ :: r :: more => if r = '<'.toNat then readVerbatim more else readShorthand cs
    | _ => readShorthand cs
  if startsGap rest then pure (tag, rest) else throw {}

/-! ## Directives -/

/-- A line in front of a document that says how to read it. -/
inductive Directive where
  | version (major minor : Nat)
  | handle (name meaning : Text)
  deriving DecidableEq, Repr

def readVersionNumber (cs : Characters) : Except Malformed (Nat × Characters) :=
  let digits := cs.takeWhile isDigit
  if digits.isEmpty || 2 < digits.length then .error {}
  else .ok (digits.foldl (fun n r => 10 * n + (r - '0'.toNat)) 0, cs.dropWhile isDigit)

def readVersion (cs : Characters) : Except Malformed (Directive × Characters) := do
  let (major, rest) ← readVersionNumber (cs.dropWhile isBlank)
  match rest with
  | r :: rest =>
    if r = '.'.toNat then
      let (minor, rest) ← readVersionNumber rest
      pure (.version major minor, rest)
    else throw {}
  | [] => throw {}

def readHandleDirective (cs : Characters) : Except Malformed (Directive × Characters) := do
  let (name, isClosed, rest) ← readHandle (cs.dropWhile isBlank)
  if !isClosed && name ≠ "!" then throw {}
  match rest with
  | r :: _ =>
    if isBlank r then
      let (meaning, rest) ← readSuffix (rest.dropWhile isBlank)
      if startsGap rest then pure (.handle name meaning, rest) else throw {}
    else throw {}
  | [] => throw {}

def readDirective (cs : Characters) : Except Malformed (Directive × Characters) := do
  let name := Characters.text (cs.takeWhile isNameCharacter)
  let rest := cs.dropWhile isNameCharacter
  if !startsGap rest then throw {}
  let (d, rest) ←
    if name = "YAML" then readVersion rest
    else if name = "TAG" then readHandleDirective rest
    else throw {}
  let rest ← restOfLine rest
  pure (d, rest)

end FlutterLayout.Yaml
