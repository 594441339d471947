import FlutterLayout.Cache.Index
import FlutterLayout.Digest.Sha256
import FlutterLayout.Files.Store

/-!
# The cache of outputs

A cache is a directory of outputs, one file for each key, and an index of what is known about them.  The
operations take the files and the time and give them back changed.

A key is the digest of everything an output was made from.  The inputs are put in a row, each behind its
length, so that no two lists of inputs give the same row.
-/

namespace FlutterLayout

structure Cache where
  directory : Text
  /-- Entries that were not read for longer are dropped when the cache is opened; never when it is not
  positive. -/
  maxAge : Int64
  index? : Option Cache.Index := some []
  hits : Nat := 0
  misses : Nat := 0
  evicted : Nat := 0
  deriving DecidableEq, Repr

namespace Cache

/-- An operation met an index or an entry that is not there. -/
structure Damaged where
  deriving DecidableEq, Repr

def indexName : Text := "index.json"

def standardMaxAge : Int64 := Instant.hours (14 * 24)

def indexPath (directory : Text) : Text :=
  Path.join directory indexName

def outputPath (directory key : Text) : Text :=
  Path.join directory (key ++ ".dart")

def size (c : Cache) : Nat :=
  (c.index?.map List.length).getD 0

/-! ## Keys -/

def framed (input : Text) : Text :=
  Text.ofNat input.length ++ ":" ++ input

def keyText (inputs : List Text) : Text :=
  inputs.flatMap framed

def key (inputs : List Text) : Text :=
  Digest.hex (Digest.sha256 (keyText inputs))

/-! ## Opening -/

inductive OpenError where
  | noDirectory (e : FileError)
  | damaged

/-- The index in a directory.  A file that is no index, or cannot be read, is as good as an empty one. -/
def loadIndex (fs : Files) (directory : Text) : Option Index :=
  match fs.read (indexPath directory) with
  | .error _ => some []
  | .ok t => (readIndex? t).getD (some [])

def Entry.isExpired (e : Entry) (now : Instant) (maxAge : Int64) : Bool :=
  maxAge < now.since e.lastAccess.instant

def evict (now : Instant) (maxAge : Int64) (directory : Text) :
    Index → Files → Except Damaged (Index × Files × Nat)
  | [], fs => .ok ([], fs, 0)
  | (_, none) :: _, _ => .error {}
  | (key, some e) :: rest, fs =>
    if e.isExpired now maxAge then
      let fs := ((fs.remove (outputPath directory key)).toOption).getD fs
      (evict now maxAge directory rest fs).map fun (kept, fs, n) => (kept, fs, n + 1)
    else (evict now maxAge directory rest fs).map fun (kept, fs, n) => ((key, some e) :: kept, fs, n)

def openIn (fs : Files) (now : Instant) (directory : Text) (maxAge : Int64) :
    Files × Except OpenError Cache :=
  match fs.makeDirectories directory with
  | .error e => (fs, .error (.noDirectory e))
  | .ok fs =>
    match loadIndex fs directory with
    | none => (fs, .ok { directory := directory, maxAge := maxAge, index? := none })
    | some index =>
      if maxAge ≤ 0 then (fs, .ok { directory := directory, maxAge := maxAge, index? := some index })
      else
        match evict now maxAge directory index fs with
        | .error _ => (fs, .error .damaged)
        | .ok (kept, fs, n) =>
          (fs, .ok { directory := directory, maxAge := maxAge, index? := some kept, evicted := n })

/-! ## Lookup and storage -/

def miss (c : Cache) : Cache :=
  { c with misses := c.misses + 1 }

/-- The output of a key.  An entry whose output is gone is dropped. -/
def get (c : Cache) (fs : Files) (now : Instant) (key : Text) : Cache × Except Damaged (Option Text) :=
  match c.index?.bind fun index => index.lookup key with
  | none => (c.miss, .ok none)
  | some e? =>
    match fs.read (outputPath c.directory key) with
    | .error _ => (miss { c with index? := c.index?.map fun index => index.drop key }, .ok none)
    | .ok data =>
      match e? with
      | none => (c, .error {})
      | some e =>
        let index? := c.index?.map fun index => Index.put index key (some { e with lastAccess := ⟨now, 0⟩ })
        ({ c with index? := index?, hits := c.hits + 1 }, .ok (some data))

/-- Why an output cannot be stored. -/
inductive PutError where
  | unwritable (e : FileError)
  | damaged

def put (c : Cache) (fs : Files) (now : Instant) (key source data : Text) :
    Cache × Files × Except PutError Unit :=
  match fs.write (outputPath c.directory key) data with
  | .error e => (c, fs, .error (.unwritable e))
  | .ok fs =>
    match c.index? with
    | none => (c, fs, .error .damaged)
    | some index =>
      let e : Entry :=
        { key := key, source := source, size := data.length, created := ⟨now, 0⟩, lastAccess := ⟨now, 0⟩ }
      ({ c with index? := some (Index.put index key (some e)) }, fs, .ok ())

def unwritableMessage (e : FileError) : Text :=
  "failed to write cache entry: " ++ e.message

/-- Why the index cannot be saved. -/
inductive SaveError where
  | unwritable (e : FileError)
  | badOffset

def SaveError.message : SaveError → Text
  | unwritable e => e.message
  | badOffset =>
    "json: error calling MarshalJSON for type *time.Time: timezone hour outside of range [0,23]"

def save (c : Cache) (fs : Files) : Except SaveError Files :=
  if (c.index?.getD []).isWritable then
    (fs.write (indexPath c.directory) (writeIndex c.index?)).mapError .unwritable
  else .error .badOffset

/-- Removes outputs and gives the errors; an output that is gone is none. -/
def removeOutputs (directory : Text) : List Text → Files → Files × List FileError
  | [], fs => (fs, [])
  | key :: keys, fs =>
    match fs.remove (outputPath directory key) with
    | .ok fs => removeOutputs directory keys fs
    | .error e =>
      let (fs, errors) := removeOutputs directory keys fs
      (fs, if e.cause = .missing then errors else e :: errors)

def clear (c : Cache) (fs : Files) : Cache × Files × List FileError :=
  let (fs, errors) := removeOutputs c.directory ((c.index?.getD []).map Prod.fst) fs
  ({ c with index? := some [] }, fs, errors)

end Cache

end FlutterLayout
