import FlutterLayout.Number.Integer
import FlutterLayout.Json.Reader
import FlutterLayout.Time.Timestamp

/-!
# The index of a cache

The index tells what is known about each cached output.  It is kept as a JSON object; a text that is no
index is as good as none.  The JSON value `null` stands for an index that is not there, in place of an
entry for an entry that is not there.
-/

namespace FlutterLayout.Cache

/-- What is known about a cached output. -/
structure Entry where
  key : Text := []
  source : Text := []
  size : Int := 0
  created : Timestamp := Timestamp.unset
  lastAccess : Timestamp := Timestamp.unset
  deriving DecidableEq, Repr

/-- Entries by key.  An entry may be missing although its key is there. -/
abbrev Index := List (Text × Option Entry)

namespace Index

def put (index : Index) (key : Text) (e : Option Entry) : Index :=
  if index.any fun x => x.1 = key then index.map fun x => if x.1 = key then (key, e) else x
  else index ++ [(key, e)]

def drop (index : Index) (key : Text) : Index :=
  index.filter fun x => x.1 ≠ key

end Index

/-! ## Writing -/

def Entry.toJson (e : Entry) : Json :=
  .object [("key", .string e.key), ("source", .string e.source), ("size", Json.ofInt e.size),
    ("created", .string (Timestamp.write e.created)), ("last_access", .string (Timestamp.write e.lastAccess))]

def Entry.isWritable (e : Entry) : Bool :=
  e.created.isWritable && e.lastAccess.isWritable

def Index.isWritable (index : Index) : Bool :=
  index.all fun x => (x.2.map Entry.isWritable).getD true

def Index.toJson (index : Index) : Json :=
  let sorted := index.mergeSort fun x y => Text.le x.1 y.1
  .object (sorted.map fun x => (x.1, (x.2.map Entry.toJson).getD .null))

def writeIndex (index? : Option Index) : Text :=
  ((index?.map Index.toJson).getD .null).indented

/-! ## Reading -/

/-- A string; `null` leaves the field alone. -/
def textField? (old : Text) : Json → Option Text
  | .null => some old
  | .string t => some t
  | _ => none

/-- An integer; `null` leaves the field alone. -/
def intField? (old : Int) : Json → Option Int
  | .null => some old
  | .number n => (Number.readIntIn 10 n).toOption
  | _ => none

/-- A timestamp, in which escapes count like in any string; `null` leaves the field alone. -/
def timeField? (old : Timestamp) : Json → Option Timestamp
  | .null => some old
  | .string t => Timestamp.read? t
  | _ => none

/-- Sets the field a member names, without regard to case; a member without a field is passed over. -/
def Entry.setField? (e : Entry) (member : Text × Json) : Option Entry :=
  let (name, j) := member
  if Text.sameFolded name "key" then (textField? e.key j).map fun v => { e with key := v }
  else if Text.sameFolded name "source" then (textField? e.source j).map fun v => { e with source := v }
  else if Text.sameFolded name "size" then (intField? e.size j).map fun v => { e with size := v }
  else if Text.sameFolded name "created" then
    (timeField? e.created j).map fun v => { e with created := v }
  else if Text.sameFolded name "last_access" then
    (timeField? e.lastAccess j).map fun v => { e with lastAccess := v }
  else some e

def entryFrom? : Json → Option (Option Entry)
  | .null => some none
  | .object members => (members.foldlM Entry.setField? {}).map some
  | _ => none

/-- An index from JSON; `null` is an index that is not there. -/
def indexFrom? : Json → Option (Option Index)
  | .null => some none
  | .object members =>
    (members.foldlM (fun index (key, j) => (entryFrom? j).map fun e => Index.put index key e) []).map some
  | _ => none

/-- Reads the text of an index; none for a text that is no index. -/
def readIndex? (t : Text) : Option (Option Index) :=
  (Json.read? t).bind indexFrom?

end FlutterLayout.Cache
