import FlutterLayout.Terminal.Piece

/-!
# Wrapping

`wrap` breaks the lines of a text that are longer than a limit: at spaces if possible, behind a hyphen, and
within a word only if it is too long for a line.  The spaces at a break are dropped.  At a break the pen and
the link are put away and taken up again, and at the end they are put away.
-/

namespace FlutterLayout.Terminal

structure Wrapper where
  output : Text := []
  columns : Nat := 0
  spaces : Text := []
  word : Text := []
  wordColumns : Nat := 0
  pen : Pen := {}
  link : Link := {}
  writtenPen : Pen := {}
  writtenLink : Link := {}

namespace Wrapper

def writeSpaces (w : Wrapper) : Wrapper :=
  { w with output := w.output ++ w.spaces, columns := w.columns + w.spaces.length, spaces := [] }

def writeWord (w : Wrapper) : Wrapper :=
  if w.word.isEmpty then w
  else
    let w := w.writeSpaces
    { w with
      output := w.output ++ w.word
      columns := w.columns + w.wordColumns
      word := []
      wordColumns := 0
      writtenPen := w.pen
      writtenLink := w.link }

def breakLine (w : Wrapper) : Wrapper :=
  let penEnd : Text := if w.writtenPen.isPlain then [] else Pen.reset
  let linkEnd : Text := if w.writtenLink.isNone then [] else Link.reset
  let linkStart : Text := if w.writtenLink.isNone then [] else w.writtenLink.sequence
  let penStart : Text := if w.writtenPen.isPlain then [] else w.writtenPen.sequence
  { w with
    output := w.output ++ penEnd ++ linkEnd ++ [Text.lineFeed] ++ linkStart ++ penStart
    columns := 0
    spaces := [] }

def endLine (limit : Nat) (w : Wrapper) : Wrapper :=
  let w :=
    if w.wordColumns ≠ 0 then w
    else if limit < w.columns + w.spaces.length then { w with columns := 0, spaces := [] }
    else { w with output := w.output ++ w.spaces, spaces := [] }
  w.writeWord

def addControl (limit : Nat) (w : Wrapper) (t : Text) (e : Effect) : Wrapper :=
  if t = [Text.tabulator] then
    let w := w.writeWord
    { w with spaces := w.spaces ++ t }
  else if t = [Text.lineFeed] then (w.endLine limit).breakLine
  else
    match e with
    | .none => { w with word := w.word ++ t }
    | .pen ps => { w with word := w.word ++ t, pen := w.pen.set ps }
    | .link l => { w with word := w.word ++ t, link := l }

/-- Takes in a piece of the word; the line is broken in front of the word when it does not fit. -/
def addToWord (limit : Nat) (w : Wrapper) (t : Text) (columns : Nat) : Wrapper :=
  let w := if limit < w.wordColumns + columns then w.writeWord else w
  let w := { w with word := w.word ++ t, wordColumns := w.wordColumns + columns }
  if limit < w.columns + w.wordColumns + w.spaces.length then w.breakLine else w

def addPrinted (limit : Nat) (w : Wrapper) (t : Text) (columns : Nat) : Wrapper :=
  if t = [Text.space] && w.pen.hidesSpaces then
    let w := w.writeWord
    { w with spaces := w.spaces ++ t }
  else if t = [Text.byte '-'] then
    let w := w.writeSpaces
    if w.columns + w.wordColumns + columns ≤ limit then
      let w := w.writeWord
      { w with output := w.output ++ t, columns := w.columns + columns }
    else w.addToWord limit t columns
  else w.addToWord limit t columns

/-- Takes in the pieces of a text, the first `skip` bytes of which have been taken in. -/
def run (limit : Nat) : (skip : Nat) → Wrapper → Text → Wrapper
  | _, w, [] => w
  | skip + 1, w, _ :: t => run limit skip w t
  | 0, w, b :: t =>
    let piece := leadingPiece b t
    let own := (b :: t).take piece.length
    let w :=
      if piece.columns = 0 then w.addControl limit own piece.effect
      else w.addPrinted limit own piece.columns
    run limit (piece.length - 1) w t

def finish (limit : Nat) (w : Wrapper) : Text :=
  let w := w.endLine limit
  let linkEnd : Text := if w.writtenLink.isNone then [] else Link.reset
  let penEnd : Text := if w.writtenPen.isPlain then [] else Pen.reset
  w.output ++ linkEnd ++ penEnd

end Wrapper

def wrap (limit : Nat) (t : Text) : Text :=
  if t.isEmpty || limit = 0 then t else (Wrapper.run limit 0 {} t).finish limit

end FlutterLayout.Terminal
