import FlutterLayout.Terminal.Wrapping

/-!
# Listings and boxes

Output for a terminal: a titled list with aligned columns, a summary in a box, an error line.
-/

namespace FlutterLayout.Report

open Terminal (lines width wrap)

def spaces (n : Nat) : Text :=
  List.replicate n Text.space

/-! ## Blocks -/

/-- A text to be set: a tabulator becomes four spaces, and every line break a line feed. -/
def plainLayout (t : Text) : Text :=
  Text.replaceAll "\r\n" "\n" (Text.replaceAll "\t" "    " t)

def filled (columns : Nat) (t : Text) : Text :=
  let columns := max columns (width t)
  Text.join "\n" ((lines t).map fun line => line ++ spaces (columns - Terminal.columns line))

def block (t : Text) : Text :=
  filled 0 (plainLayout t)

def column (columns : Nat) (t : Text) : Text :=
  filled columns (wrap columns (plainLayout t))

/-! ## Listings -/

structure Row where
  name : Text
  detail : Text
  /-- What is written behind the detail; empty for nothing. -/
  note : Text := []
  deriving DecidableEq, Repr

def Row.render (columns : Nat) (r : Row) : Text :=
  let note : Text := if r.note.isEmpty then [] else "  " ++ block r.note
  column columns r.name ++ r.detail ++ note ++ "\n"

/-- A title above an empty line of its width, then the rows with their details aligned. -/
def listing (title : Text) (rows : List Row) : Text :=
  let columns := (rows.map fun r => width r.name).foldl max 0 + 2
  let title := block title
  title ++ "\n" ++ spaces (width title) ++ "\n" ++ (rows.map (Row.render columns)).flatten

/-! ## Boxes -/

def edge (left right : Text) (columns : Nat) : Text :=
  left ++ Text.repeated columns "─" ++ right

def boxed (t : Text) : Text :=
  let t := block t
  let columns := width t + 2
  let inside := (lines t).map fun line => ("│ " : Text) ++ line ++ " │\n"
  edge "╭" "╮\n" columns ++ inside.flatten ++ edge "╰" "╯" columns

def compiledCount (n : Int) : Text :=
  "✅ " ++ Text.ofInt n ++ " compiled"

def failedCount (n : Int) : Text :=
  "❌ " ++ Text.ofInt n ++ " failed"

def summary (compiled failed : Int) (elapsed : Text) : Text :=
  let failures : Text := if 0 < failed then "  " ++ failedCount failed else []
  boxed (compiledCount compiled ++ failures ++ "  " ++ block elapsed)

def errorLine (message : Text) : Text :=
  "❌ " ++ message

end FlutterLayout.Report
