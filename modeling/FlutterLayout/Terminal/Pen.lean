import FlutterLayout.Text.Basic

/-!
# Pens

A pen is how a terminal prints: bold, in a colour, underlined and so on.  The parameters of a control
sequence change a pen, and `Pen.sequence` is the control sequence that makes one from the plain pen.
-/

namespace FlutterLayout.Terminal

/-- A colour. -/
inductive Color where
  | basic (n : Nat)
  | indexed (n : Nat)
  | mixed (red green blue : Nat)
  deriving DecidableEq, Repr

/-- The line below what is printed. -/
inductive Underline where
  | none
  | single
  | double
  | curly
  | dotted
  | dashed
  deriving DecidableEq, Repr

structure Pen where
  isBold : Bool := false
  isFaint : Bool := false
  isItalic : Bool := false
  blinksSlowly : Bool := false
  blinksRapidly : Bool := false
  isReversed : Bool := false
  isConcealed : Bool := false
  isStruck : Bool := false
  underline : Underline := .none
  foreground : Option Color := none
  background : Option Color := none
  underlineColor : Option Color := none
  deriving DecidableEq, Repr

/-- A parameter of a control sequence, which may be missing, and whether a colon follows it. -/
structure Parameter where
  value? : Option Nat := none
  hasMore : Bool := false
  deriving DecidableEq, Repr

/-- The value of a parameter; a missing one counts as zero. -/
def Parameter.value (p : Parameter) : Nat :=
  p.value?.getD 0

/-! ## Colours -/

def Color.ofParts (red green blue : Parameter) : Color :=
  .mixed (red.value % 256) (green.value % 256) (blue.value % 256)

/-- Reads the colour behind the parameter that sets one, and counts the parameters it takes.  The parameters
are divided by semicolons, or all by colons; then a colour space may stand in front of a mixed colour. -/
def Color.read (setter : Parameter) (ps : List Parameter) : Option Color × Nat :=
  match ps with
  | [] => (none, 0)
  | kind :: rest =>
    let colons := setter.hasMore && kind.hasMore
    let semicolons := !setter.hasMore && !kind.hasMore
    match kind.value, rest with
    | 0, _ => (none, 1)
    | 1, _ => (some (.mixed 0 0 0), 1)
    | 2, a :: b :: c :: more =>
      if colons && a.hasMore && b.hasMore && c.hasMore && !(more.head?.any Parameter.hasMore) then
        match more with
        | d :: _ => (some (.ofParts b c d), 5)
        | [] => (none, 0)
      else if colons && a.hasMore && b.hasMore && !c.hasMore then (some (.ofParts a b c), 4)
      else if semicolons && !a.hasMore && !b.hasMore && !c.hasMore then (some (.ofParts a b c), 4)
      else (none, 0)
    | 5, n :: _ =>
      if (colons || semicolons) && !n.hasMore then (some (.indexed (n.value % 256)), 2) else (none, 0)
    | _, _ => (none, 0)

/-- The parameters that set a colour: `base` and `bright` begin the basic colours, `extended` all others. -/
def Color.parameters (base bright extended : Nat) : Color → Text
  | basic n => if n < 8 then Text.ofNat (base + n) else Text.ofNat (bright + n - 8)
  | indexed n => Text.ofNat extended ++ ";5;" ++ Text.ofNat n
  | mixed red green blue =>
    Text.ofNat extended ++ ";2;" ++ Text.ofNat red ++ ";" ++ Text.ofNat green ++ ";" ++ Text.ofNat blue

def Color.underlineParameters : Color → Text
  | basic n => "58;5;" ++ Text.ofNat n
  | c => c.parameters 0 0 58

/-! ## Pens -/

namespace Pen

def isPlain (p : Pen) : Bool :=
  p = {}

def hidesSpaces (p : Pen) : Bool :=
  !p.isReversed && p.background.isNone && p.underline = .none

def underline? : Nat → Option Underline
  | 0 => some .none
  | 1 => some .single
  | 2 => some .double
  | 3 => some .curly
  | 4 => some .dotted
  | 5 => some .dashed
  | _ => none

def setSimple (p : Pen) (n : Nat) : Pen :=
  if n = 0 then {}
  else if n = 1 then { p with isBold := true }
  else if n = 2 then { p with isFaint := true }
  else if n = 3 then { p with isItalic := true }
  else if n = 5 then { p with blinksSlowly := true }
  else if n = 6 then { p with blinksRapidly := true }
  else if n = 7 then { p with isReversed := true }
  else if n = 8 then { p with isConcealed := true }
  else if n = 9 then { p with isStruck := true }
  else if n = 22 then { p with isBold := false, isFaint := false }
  else if n = 23 then { p with isItalic := false }
  else if n = 24 then { p with underline := .none }
  else if n = 25 then { p with blinksSlowly := false, blinksRapidly := false }
  else if n = 27 then { p with isReversed := false }
  else if n = 28 then { p with isConcealed := false }
  else if n = 29 then { p with isStruck := false }
  else if 30 ≤ n && n ≤ 37 then { p with foreground := some (.basic (n - 30)) }
  else if n = 39 then { p with foreground := none }
  else if 40 ≤ n && n ≤ 47 then { p with background := some (.basic (n - 40)) }
  else if n = 49 then { p with background := none }
  else if n = 59 then { p with underlineColor := none }
  else if 90 ≤ n && n ≤ 97 then { p with foreground := some (.basic (n - 82)) }
  else if 100 ≤ n && n ≤ 107 then { p with background := some (.basic (n - 92)) }
  else p

/-- The pen behind a parameter for a colour or for the line below, and the number of parameters it takes
from those that follow. -/
def setCompound (p : Pen) (first : Parameter) (rest : List Parameter) : Pen × Nat :=
  let n := first.value
  if n = 4 then
    match first.hasMore, rest with
    | true, kind :: _ =>
      match underline? kind.value with
      | some u => ({ p with underline := u }, 1)
      | none => (p, 0)
    | _, _ => ({ p with underline := .single }, 0)
  else
    match Color.read first rest with
    | (_, 0) => (p, 0)
    | (color?, taken) =>
      if n = 38 then ({ p with foreground := color? }, taken)
      else if n = 48 then ({ p with background := color? }, taken)
      else ({ p with underlineColor := color? }, taken)

def setFrom : (skip : Nat) → Pen → List Parameter → Pen
  | _, p, [] => p
  | skip + 1, p, _ :: ps => setFrom skip p ps
  | 0, p, first :: ps =>
    if first.value = 4 || first.value = 38 || first.value = 48 || first.value = 58 then
      let (p, taken) := p.setCompound first ps
      setFrom taken p ps
    else setFrom 0 (p.setSimple first.value) ps

/-- The pen behind the parameters of a control sequence; without any it is the plain one. -/
def set (p : Pen) (ps : List Parameter) : Pen :=
  if ps.isEmpty then {} else setFrom 0 p ps

def underlineParameter? : Underline → Option Text
  | .none => none
  | .single => some "4"
  | .double => some "4:2"
  | .curly => some "4:3"
  | .dotted => some "4:4"
  | .dashed => some "4:5"

def parameters (p : Pen) : List Text :=
  let switches : List (Bool × Text) :=
    [(p.isBold, "1"), (p.isFaint, "2"), (p.isItalic, "3"), (p.blinksSlowly, "5"), (p.blinksRapidly, "6"),
      (p.isReversed, "7"), (p.isConcealed, "8"), (p.isStruck, "9")]
  (switches.filter Prod.fst).map Prod.snd ++ (underlineParameter? p.underline).toList
    ++ (p.foreground.map (Color.parameters 30 90 38)).toList
    ++ (p.background.map (Color.parameters 40 100 48)).toList
    ++ (p.underlineColor.map Color.underlineParameters).toList

def reset : Text := "\x1b[m"

def sequence (p : Pen) : Text :=
  "\x1b[" ++ Text.join ";" p.parameters ++ "m"

end Pen

end FlutterLayout.Terminal
