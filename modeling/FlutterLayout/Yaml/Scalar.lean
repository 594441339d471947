import FlutterLayout.Yaml.Character

/-!
# Plain and quoted scalars

Between single quotes a doubled quote stands for one; between double quotes a backslash begins an escape.
A plain scalar ends at a colon with a gap behind it, at a comment, and at a line that is indented too
little; in a flow collection also at a mark of such a collection.
-/

namespace FlutterLayout.Yaml

/-! ## Folded lines

In a plain or quoted scalar the blanks around a line break do not count.  One line feed stands for a space
and each further one for itself; another break is kept together with those behind it.  A break that is
escaped stands for nothing. -/

/-- A scalar that is being read.  All lists have the last character first. -/
structure Folding where
  value : Characters := []
  blanks : Characters := []
  isBroken : Bool := false
  /-- The first line break of the gap; none when it was escaped. -/
  firstBreak : Option Rune := none
  moreBreaks : Characters := []
  deriving DecidableEq, Repr

namespace Folding

def hasGap (f : Folding) : Bool :=
  f.isBroken || !f.blanks.isEmpty

def gap (f : Folding) : Characters :=
  if f.isBroken then
    match f.firstBreak with
    | none => f.moreBreaks
    | some r =>
      if r = lineFeed then (if f.moreBreaks.isEmpty then [space] else f.moreBreaks)
      else f.moreBreaks ++ [r]
  else f.blanks

def settled (f : Folding) : Characters :=
  f.gap ++ f.value

def add (f : Folding) (r : Rune) : Folding :=
  { value := r :: f.settled }

def addBlank (f : Folding) (r : Rune) : Folding :=
  if f.isBroken then f else { f with blanks := r :: f.blanks }

def addBreak (f : Folding) (r : Rune) : Folding :=
  if f.isBroken then { f with moreBreaks := r :: f.moreBreaks }
  else { f with blanks := [], isBroken := true, firstBreak := some r }

def addEscapedBreak (f : Folding) : Folding :=
  { value := f.settled, isBroken := true }

def text (f : Folding) : Text :=
  Characters.text f.value.reverse

def settledText (f : Folding) : Text :=
  Characters.text f.settled.reverse

end Folding

/-! ## Escapes -/

def escape? (r : Rune) : Option Rune :=
  [('0'.toNat, 0x00), ('a'.toNat, 0x07), ('b'.toNat, 0x08), ('t'.toNat, 0x09), (tabulator, 0x09),
    ('n'.toNat, 0x0A), ('v'.toNat, 0x0B), ('f'.toNat, 0x0C), ('r'.toNat, 0x0D), ('e'.toNat, 0x1B),
    (space, 0x20), ('"'.toNat, 0x22), (0x27, 0x27), (0x5C, 0x5C), ('N'.toNat, 0x85), ('_'.toNat, 0xA0),
    ('L'.toNat, 0x2028), ('P'.toNat, 0x2029)].lookup r

def escapeWidth? (r : Rune) : Option Nat :=
  [('x'.toNat, 2), ('u'.toNat, 4), ('U'.toNat, 8)].lookup r

def hexNumber? (cs : Characters) : Option Nat :=
  cs.foldl (fun n? r => do return 16 * (← n?) + (← hexDigit? r)) (some 0)

def readEscape (cs : Characters) : Except Malformed (Rune × Nat) :=
  match cs with
  | [] => .error {}
  | r :: rest =>
    match escape? r, escapeWidth? r with
    | some value, _ => .ok (value, 1)
    | none, some width =>
      let digits := rest.take width
      match hexNumber? digits with
      | some value =>
        if digits.length = width && Text.isScalar value then .ok (value, width + 1) else .error {}
      | none => .error {}
    | none, none => .error {}

/-! ## Quoted scalars -/

/-- Reads a scalar in double quotes, after `skip` characters.  A document mark must not stand in it. -/
def doubleQuotedFrom (f : Folding) (p : Place) :
    (skip : Nat) → Characters → Except Malformed (Text × Place × Characters)
  | _, [] => .error {}
  | skip + 1, r :: t => doubleQuotedFrom f (p.next r) skip t
  | 0, r :: t =>
    if p.column = 0 && startsDocumentMark (r :: t) then .error {}
    else if isBreak r then doubleQuotedFrom (f.addBreak r) (p.next r) 0 t
    else if isBlank r then doubleQuotedFrom (f.addBlank r) (p.next r) 0 t
    else if r = '"'.toNat then .ok (f.settledText, p.next r, t)
    else if r = 0x5C then
      match t with
      | [] => .error {}
      | c :: _ =>
        if isBreak c then doubleQuotedFrom f.addEscapedBreak (p.next r) 1 t
        else
          match readEscape t with
          | .ok (value, width) => doubleQuotedFrom (f.add value) (p.next r) width t
          | .error e => .error e
    else doubleQuotedFrom (f.add r) (p.next r) 0 t

/-- Reads a scalar in single quotes, after `skip` characters.  A document mark must not stand in it. -/
def singleQuotedFrom (f : Folding) (p : Place) :
    (skip : Nat) → Characters → Except Malformed (Text × Place × Characters)
  | _, [] => .error {}
  | skip + 1, r :: t => singleQuotedFrom f (p.next r) skip t
  | 0, r :: t =>
    if p.column = 0 && startsDocumentMark (r :: t) then .error {}
    else if isBreak r then singleQuotedFrom (f.addBreak r) (p.next r) 0 t
    else if isBlank r then singleQuotedFrom (f.addBlank r) (p.next r) 0 t
    else if r = 0x27 then
      match t with
      | c :: _ =>
        if c = 0x27 then singleQuotedFrom (f.add r) (p.next r) 1 t else .ok (f.settledText, p.next r, t)
      | [] => .ok (f.settledText, p.next r, [])
    else singleQuotedFrom (f.add r) (p.next r) 0 t

/-! ## Plain scalars -/

def startsPlain (inFlow : Bool) (cs : Characters) : Bool :=
  match cs with
  | [] => false
  | r :: rest =>
    if r = '-'.toNat then !(rest.head?.map isBlank).getD false
    else if r = '?'.toNat || r = ':'.toNat then !inFlow && !startsGap rest
    else !isGap r && !isFlowMark r && !(Text.ofString "#&*!|>'\"%@\x60").any fun b => r = b.toNat

def endsPlain (inFlow : Bool) (indent : Nat) (f : Folding) (p : Place) (r : Rune) (rest : Characters) :
    Bool :=
  (f.hasGap && !inFlow && p.column < indent) || (p.column = 0 && startsDocumentMark (r :: rest))
    || (f.hasGap && r = '#'.toNat) || (r = ':'.toNat && startsGap rest)
    || (inFlow && (isFlowMark r || r = '?'.toNat))

/-- Reads a plain scalar whose lines stand at `indent` or behind it.  A tabulator must not indent them. -/
def plainFrom (inFlow : Bool) (indent : Nat) (f : Folding) (p : Place) :
    Characters → Except Malformed (Folding × Place × Characters)
  | [] => .ok (f, p, [])
  | r :: t =>
    if isBreak r then plainFrom inFlow indent (f.addBreak r) (p.next r) t
    else if isBlank r then
      if f.isBroken && p.column < indent && r = tabulator then .error {}
      else plainFrom inFlow indent (f.addBlank r) (p.next r) t
    else if endsPlain inFlow indent f p r t then .ok (f, p, r :: t)
    else plainFrom inFlow indent (f.add r) (p.next r) t

end FlutterLayout.Yaml
