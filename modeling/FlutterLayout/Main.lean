import FlutterLayout.Command.Basic

/-!
# The program

Reads the files a command may ask for, runs the command on them, and writes back what it changed.

- `take`, `takeCache` and `give` move files between the disk and `Files`.
- `perform` runs steps of a command between the two.
- `execute` runs a command line, and `watchLoop` builds again for as long as files change.
-/

namespace FlutterLayout
namespace Program

def ofText (t : Text) : String :=
  (String.fromUTF8? ⟨t.toArray⟩).getD ""

/-- Reads a file or notes a directory; what cannot be read is left out. -/
def take (fs : Files) (path : Text) : IO Files := do
  try
    let real ← IO.FS.realPath (ofText path)
    if ← real.isDir then
      pure (((fs.makeDirectories path).toOption).getD fs)
    else
      let content ← IO.FS.readBinFile (ofText path)
      pure (fs.install path content.toList)
  catch _ => pure fs

def takeCache (fs : Files) (directory : Text) : IO Files := do
  try
    let real ← IO.FS.realPath (ofText directory)
    let entries ← real.readDir
    entries.foldlM (fun fs e => take fs (Path.join directory (Text.ofString e.fileName))) fs
  catch _ => pure fs

/-- Writes the files that differ from what was read, and removes those that are gone. -/
def give (old new : Files) : IO Unit := do
  let before := old.list
  let after := new.list
  for (path, content) in after do
    if before.lookup path ≠ some content then
      let parent := Files.parentPath path
      if !parent.isEmpty then IO.FS.createDirAll (ofText parent)
      IO.FS.writeBinFile (ofText path) ⟨content.toArray⟩
  for (path, _) in before do
    if (after.lookup path).isNone then IO.FS.removeFile (ofText path)

def cacheDirectory : IO Text := do
  let directory ←
    match ← IO.getEnv "XDG_CACHE_HOME" with
    | some d => pure d
    | none => pure ((← IO.getEnv "HOME").getD "." ++ "/.cache")
  pure (Path.join (Text.ofString directory) "flutterxml")

def present (w : Command.World) (elapsed : Text) : IO Unit := do
  let out ← IO.getStdout
  out.write ⟨w.output.toArray⟩
  out.flush
  let err ← IO.getStderr
  for line in w.log do
    match line with
    | .message t => err.write ⟨(t ++ [Text.lineFeed]).toArray⟩
    | .summary compiled failed =>
      err.write ⟨(Report.summary compiled failed elapsed ++ [Text.lineFeed]).toArray⟩

def now : IO Instant := do
  let (_, path) ← IO.FS.createTempFile
  let data ← path.metadata
  IO.FS.removeFile path
  pure (data.modified.sec * 1000000000 + data.modified.nsec.toNat)

def perform {α : Type} (fs : Files) (m : Command.CommandM α) : IO (Except Command.Crash α) := do
  let start ← IO.monoMsNow
  let (result, w) := m.run.run { files := fs, now := ← now }
  give fs w.files
  let elapsed := (← IO.monoMsNow) - start
  present w (Text.ofNat elapsed ++ "ms")
  pure result

def watched (w : Command.Watcher) : IO Files := do
  let fs ← (w.configPath :: w.builder.outputDirectory :: w.files).foldlM take {}
  match w.builder.cache? with
  | none => pure fs
  | some c => takeCache fs c.directory

partial def watchLoop (w : Command.Watcher) (old : Files) : IO Unit := do
  IO.sleep 200
  let new ← watched w
  let paths := (w.configPath :: w.files).map Path.clean
  let changed := paths.filter fun p => new.list.lookup p ≠ old.list.lookup p
  if changed.isEmpty then watchLoop w old
  else
    match ← perform new (w.rebuild changed) with
    | .ok w => watchLoop w new
    | .error _ => pure ()

def fail (e : Command.CommandError) : IO UInt32 := do
  IO.eprintln (ofText e.message)
  pure 1

def execute (line : Command.Line) : IO UInt32 := do
  let cache ← cacheDirectory
  let env : Command.Environment := { configPath := line.configPath, cacheDirectory := cache }
  let request := Command.CompileRequest.ofParsed env line.arguments
  let fs ← (line.configPath :: request.outputDirectory :: request.files).foldlM take {}
  let fs ← takeCache fs request.cacheDirectory
  if line.isWatching then
    match ← perform fs (Command.compileLayouts env request) with
    | .error _ => pure 2
    | .ok (.error e) => fail e
    | .ok (.ok (b, _)) =>
      -- Layouts that failed are watched like the others.
      let w : Command.Watcher := ⟨line.configPath, request.files, b⟩
      IO.eprintln s!"👀 Watching {w.files.length} layout(s) for changes..."
      watchLoop w (← watched w)
      pure 0
  else
    match ← perform fs (line.run env) with
    | .error _ => pure 2
    | .ok (.error e) => fail e
    | .ok (.ok _) => pure 0

end Program
end FlutterLayout

open FlutterLayout in
/-- Compiles layout files, lists directives, or prints the schema of configuration files. -/
def main (arguments : List String) : IO UInt32 :=
  match Command.Line.read (arguments.map Text.ofString) with
  | .ok line => Program.execute line
  | .error e => do
    IO.eprintln (Program.ofText e.message)
    pure 1
