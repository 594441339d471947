import FlutterLayout.Text.Blank

/-!
# Loop headers

A loop is written `[index,] item[: Type] of source`.  The header is cut at the first ` of `, what stands
before it at the first comma and then at the first colon.  Names left out are `index` and `item`.
-/

namespace FlutterLayout.Directive

/-- A loop over the items of a list. -/
structure LoopHeader where
  index : Text
  item : Text
  /-- The type of the item; empty to leave it to inference. -/
  type : Text
  source : Text
  deriving DecidableEq, Repr

namespace LoopHeader

def defaultIndex : Text := "index"

def defaultItem : Text := "item"

def orElse (t fallback : Text) : Text :=
  if t.isEmpty then fallback else t

/-- Reads a header; none when it has no ` of ` or no source. -/
def read? (header : Text) : Option LoopHeader :=
  match Text.cut? " of " header with
  | none => none
  | some (head, source) =>
    if (Text.trim source).isEmpty then none
    else
      let (index, binder) :=
        match Text.cut? "," head with
        | some (index, rest) => (orElse (Text.trim index) defaultIndex, rest)
        | none => (defaultIndex, head)
      let (item, type) := (Text.cut? ":" binder).getD (binder, [])
      some ⟨index, orElse (Text.trim item) defaultItem, Text.trim type, Text.trim source⟩

/-- Reads a header; a text that is none is the source of a loop with default names. -/
def readLoose (header : Text) : LoopHeader :=
  (read? header).getD ⟨defaultIndex, defaultItem, [], Text.trim header⟩

def declaration (l : LoopHeader) : Text :=
  let typed : Text := if l.type.isEmpty then l.item else l.type ++ " " ++ l.item
  "final " ++ typed ++ " = " ++ l.source ++ "[" ++ l.index ++ "];"

end LoopHeader

end FlutterLayout.Directive
