import FlutterLayout.Text.Basic

/-!
# Paths

A path is a text with slashes between its parts.  `clean` gives the shortest path with the same meaning as
far as that can be told from the text alone.
-/

namespace FlutterLayout.Path

abbrev slash : UInt8 := 0x2F

def here : Text := "."

def above : Text := ".."

def isRooted (p : Text) : Bool :=
  p.head? = some slash

def parts (p : Text) : List Text :=
  (Text.splitOn slash p).filter fun part => !part.isEmpty

def addPart (rooted : Bool) (kept : List Text) (part : Text) : List Text :=
  if part = here then kept
  else if part = above then
    match kept with
    | last :: rest => if last = above then above :: kept else rest
    | [] => if rooted then [] else [above]
  else part :: kept

def clean (p : Text) : Text :=
  let rooted := isRooted p
  let kept := ((parts p).foldl (addPart rooted) []).reverse
  if rooted then slash :: Text.join "/" kept
  else if kept.isEmpty then here
  else Text.join "/" kept

/-- Two paths in a row; an empty one adds nothing. -/
def join (p q : Text) : Text :=
  if p.isEmpty then (if q.isEmpty then [] else clean q)
  else if q.isEmpty then clean p
  else clean (p ++ "/" ++ q)

def base (p : Text) : Text :=
  if p.isEmpty then here
  else
    match (parts p).getLast? with
    | some part => part
    | none => "/"

end FlutterLayout.Path
