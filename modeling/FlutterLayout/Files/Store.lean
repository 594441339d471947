import FlutterLayout.Files.Path

/-!
# Files

A `Files` holds directories and files: those below the working directory, those below the directories above
it, and those below the root.  Every operation is total: what does not work gives a `FileError` that names
the operation, the path as it was given, and the cause.
-/

namespace FlutterLayout

/-- Why an operation on a file does not work. -/
inductive FileCause where
  | missing
  | notDirectory
  | isDirectory
  | occupied
  | notEmpty
  | nameTooLong
  | invalidName
  deriving DecidableEq, Repr

def FileCause.message : FileCause → Text
  | missing => "no such file or directory"
  | notDirectory => "not a directory"
  | isDirectory => "is a directory"
  | occupied => "file exists"
  | notEmpty => "directory not empty"
  | nameTooLong => "file name too long"
  | invalidName => "invalid argument"

/-- An operation that did not work. -/
structure FileError where
  operation : Text
  path : Text
  cause : FileCause
  deriving DecidableEq, Repr

def FileError.message (e : FileError) : Text :=
  e.operation ++ " " ++ e.path ++ ": " ++ e.cause.message

/-- What a path leads to. -/
inductive FileNode where
  | file (content : Text)
  | directory
  deriving DecidableEq, Repr

/-- Directories and files by the parts of their paths; the first part of a path from the root is a slash.
The working directory, the directories above it and the root are always there. -/
structure Files where
  nodes : List (List Text × FileNode) := []
  deriving DecidableEq, Repr

namespace Files

def root : List Text := ["/"]

def isAbove (place : List Text) : Bool :=
  place.all fun part => part = Path.above

def node? (fs : Files) (place : List Text) : Option FileNode :=
  if isAbove place || place = root then some .directory else fs.nodes.lookup place

def put (fs : Files) (place : List Text) (n : FileNode) : Files :=
  ⟨(place, n) :: fs.nodes.filter fun e => e.1 ≠ place⟩

def drop (fs : Files) (place : List Text) : Files :=
  ⟨fs.nodes.filter fun e => e.1 ≠ place⟩

/-! ## Paths -/

/-- The place of the directory above a directory; the root is above itself. -/
def parentPlace (place : List Text) : List Text :=
  if place = root then root else if isAbove place then place ++ [Path.above] else place.dropLast

def maxPartLength : Nat := 255

def maxPathLength : Nat := 4095

def walk (fs : Files) : (start : List Text) → List Text → Except FileCause (List Text)
  | place, [] => .ok place
  | place, part :: parts =>
    match fs.node? place with
    | none => .error .missing
    | some (.file _) => .error .notDirectory
    | some .directory =>
      if part = Path.here then fs.walk place parts
      else if part = Path.above then fs.walk (parentPlace place) parts
      else if maxPartLength < part.length then .error .nameTooLong
      else fs.walk (place ++ [part]) parts

def demandsDirectory (path : Text) : Bool :=
  path.getLast? = some Path.slash

def follow (fs : Files) (path : Text) (parts : List Text) : Except FileCause (List Text) :=
  if path.isEmpty then .error .missing
  else if path.any (· = 0) then .error .invalidName
  else if maxPathLength < path.length then .error .nameTooLong
  else fs.walk (if Path.isRooted path then root else []) parts

def place (fs : Files) (path : Text) : Except FileCause (List Text) :=
  let parts := Path.parts path
  fs.follow path (if demandsDirectory path then parts ++ [Path.here] else parts)

def find (fs : Files) (path : Text) : Except FileCause (List Text × FileNode) :=
  match fs.place path with
  | .error cause => .error cause
  | .ok place =>
    match fs.node? place with
    | some n => .ok (place, n)
    | none => .error .missing

/-! ## Operations -/

def read (fs : Files) (path : Text) : Except FileError Text :=
  match fs.find path with
  | .ok (_, .file content) => .ok content
  | .ok (_, .directory) => .error ⟨"read", path, .isDirectory⟩
  | .error cause => .error ⟨"open", path, cause⟩

/-- The place of the file that is to be written at a path.  Its directory must be there; a path that can only
mean a directory is refused. -/
def placeToWrite (fs : Files) (path : Text) : Except FileCause (List Text) :=
  if demandsDirectory path then
    (fs.follow path ((Path.parts path).dropLast ++ [Path.here])).bind fun _ => .error .isDirectory
  else
    (fs.place path).bind fun place =>
      match fs.node? place, fs.node? place.dropLast with
      | some .directory, _ => .error .isDirectory
      | _, some .directory => .ok place
      | _, some (.file _) => .error .notDirectory
      | _, none => .error .missing

def write (fs : Files) (path content : Text) : Except FileError Files :=
  match fs.placeToWrite path with
  | .error cause => .error ⟨"open", path, cause⟩
  | .ok place => .ok (fs.put place (.file content))

def makeDirectory (fs : Files) (path : Text) : Except FileError Files :=
  let bare := (path.reverse.dropWhile (· = Path.slash)).reverse
  match fs.place bare with
  | .error cause => .error ⟨"mkdir", path, cause⟩
  | .ok place =>
    match fs.node? place, fs.node? place.dropLast with
    | some _, _ => .error ⟨"mkdir", path, .occupied⟩
    | none, some .directory => .ok (fs.put place .directory)
    | none, some (.file _) => .error ⟨"mkdir", path, .notDirectory⟩
    | none, none => .error ⟨"mkdir", path, .missing⟩

def parentPath (path : Text) : Text :=
  let bare := path.reverse.dropWhile (· = Path.slash)
  ((bare.dropWhile (· ≠ Path.slash)).drop 1).reverse

def makeDirectoriesWithin : (fuel : Nat) → Files → Text → Except FileError Files
  | 0, fs, _ => .ok fs
  | fuel + 1, fs, path =>
    match fs.find path with
    | .ok (_, .directory) => .ok fs
    | .ok (_, .file _) => .error ⟨"mkdir", path, .notDirectory⟩
    | .error _ =>
      let parent := parentPath path
      let prepared := if parent.isEmpty then .ok fs else makeDirectoriesWithin fuel fs parent
      match prepared with
      | .error e => .error e
      | .ok fs =>
        match fs.makeDirectory path with
        | .ok fs => .ok fs
        | .error e =>
          match fs.find path with
          | .ok (_, .directory) => .ok fs
          | _ => .error e

def makeDirectories (fs : Files) (path : Text) : Except FileError Files :=
  makeDirectoriesWithin (path.length + 1) fs path

def isOccupied (fs : Files) (place : List Text) : Bool :=
  fs.nodes.any fun e => place.isPrefixOf e.1 && e.1 ≠ place

def remove (fs : Files) (path : Text) : Except FileError Files :=
  match fs.find path with
  | .ok (place, _) =>
    if fs.isOccupied place then .error ⟨"remove", path, .notEmpty⟩ else .ok (fs.drop place)
  | .error cause => .error ⟨"remove", path, cause⟩

/-- Removes what a path leads to and everything below it.  Nothing is removed when the last part of the path
is a dot. -/
def removeAll (fs : Files) (path : Text) : Files :=
  if path = Path.here || Text.endsWith "/." path then fs
  else
    match fs.place path with
    | .ok place => ⟨fs.nodes.filter fun e => !place.isPrefixOf e.1⟩
    | .error _ => fs

def install (fs : Files) (path content : Text) : Files :=
  let parent := parentPath path
  let prepared := if parent.isEmpty then fs else ((fs.makeDirectories parent).toOption).getD fs
  ((prepared.write path content).toOption).getD prepared

def pathOf (place : List Text) : Text :=
  match place with
  | first :: parts => if [first] = root then "/" ++ Text.join "/" parts else Text.join "/" place
  | [] => Path.here

def isBelow (place : List Text) : Bool :=
  place.head? ≠ some Path.above && place.head? ≠ root.head?

def listAt (fs : Files) (isWanted : List Text → Bool) : List (Text × Text) :=
  fs.nodes.filterMap fun (place, n) =>
    match n with
    | .file content => if isWanted place then some (pathOf place, content) else none
    | .directory => none

def list (fs : Files) : List (Text × Text) :=
  fs.listAt fun _ => true

def listBelow (fs : Files) : List (Text × Text) :=
  fs.listAt isBelow

end Files

end FlutterLayout
