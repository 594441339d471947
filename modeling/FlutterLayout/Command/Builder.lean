import FlutterLayout.Cache.Basic
import FlutterLayout.Report.Listing
import FlutterLayout.Config.Fingerprint

/-!
# Building layout files

A `Builder` compiles layout files under one configuration.  With a cache it does not compile a source
again that it has an output of; with an output directory it writes one file for each layout.
-/

namespace FlutterLayout.Command

/-! ## What a command works on

A command reads and writes files, asks for the time, writes to standard output and logs.  All of that is a
`World`, and a command is a function on it.  A `Crash` ends a command at once and leaves the world as it
is. -/

inductive LogLine where
  | message (t : Text)
  | summary (compiled failed : Nat)
  deriving DecidableEq, Repr

/-- Everything a command can see and change. -/
structure World where
  files : Files := {}
  now : Instant := 0
  output : Text := []
  log : List LogLine := []
  deriving DecidableEq, Repr

/-- What ends a command at once. -/
inductive Crash where
  | unreadable (e : Text.UnreadableName)
  | damagedCache
  deriving DecidableEq, Repr

abbrev CommandM := ExceptT Crash (StateM World)

def logLine (t : Text) : CommandM Unit :=
  modify fun w => { w with log := w.log ++ [.message t] }

def print (t : Text) : CommandM Unit :=
  modify fun w => { w with output := w.output ++ t }

def setFiles (fs : Files) : CommandM Unit :=
  modify fun w => { w with files := fs }

/-- Why a configuration cannot be loaded. -/
inductive LoadError where
  | unreadableFile (path : Text) (e : FileError)
  | badContent (path : Text) (e : Config.ReadError)

def LoadError.message : LoadError → Text
  | unreadableFile path e => "failed to load " ++ path ++ ": " ++ e.message
  | badContent path e => "failed to load " ++ path ++ ": " ++ e.message

/-- Loads a configuration; a file that is missing stands for the defaults. -/
def loadConfig (fs : Files) (path : Text) : Except LoadError Config :=
  match fs.read path with
  | .ok t =>
    match Config.read t with
    | .ok c => .ok c
    | .error e => .error (.badContent path e)
  | .error e => if e.cause = .missing then .ok {} else .error (.unreadableFile path e)

/-! ## Builders -/

def version : Text := "0.1.0"

/-- Compiles layout files. -/
structure Builder where
  config : Config
  cache? : Option Cache := none
  /-- The directory outputs are written to; empty for none. -/
  outputDirectory : Text := []
  reading : Pipe.Reading := {}

/-- Why a layout file was not compiled. -/
inductive BuildError where
  | unreadable (path : Text) (e : FileError)
  | malformed (path : Text) (e : Markup.SyntaxError)
  | invalid (path : Text) (e : Layout.LayoutError)
  | unwritable (path : Text) (e : FileError)

def BuildError.message : BuildError → Text
  | unreadable path e => "failed to read " ++ path ++ ": " ++ e.message
  | malformed path e => path ++ ": " ++ CompileError.message (.malformed e)
  | invalid path e => path ++ ": " ++ CompileError.message (.invalid e)
  | unwritable path e => "failed to write " ++ path ++ ": " ++ e.message

structure FileResult where
  path : Text
  /-- The file that was written; empty for none. -/
  output : Text := []
  code : Text := []
  isCached : Bool := false
  error? : Option BuildError := none

def generatedFile (path code : Text) : Text :=
  "// Code generated by flutterxml from " ++ Path.base path ++ ". DO NOT EDIT.\n\n" ++ code ++ "\n"

namespace Builder

def compiler (b : Builder) : Compiler :=
  b.config.compiler.readingBy b.reading

def key (b : Builder) (path source : Text) : Text :=
  Cache.key [version, b.config.fingerprint, Path.base path, source]

def lookup (b : Builder) (key : Text) : CommandM (Option Text × Builder) :=
  match b.cache? with
  | none => pure (none, b)
  | some c => do
    let w ← get
    match c.get w.files w.now key with
    | (c, .ok data?) => pure (data?, { b with cache? := some c })
    | (_, .error _) => throw .damagedCache

def store (b : Builder) (key path code : Text) : CommandM Builder :=
  match b.cache? with
  | none => pure b
  | some c => do
    let w ← get
    match c.put w.files w.now key path code with
    | (c, fs, .ok _) => do
      setFiles fs
      pure { b with cache? := some c }
    | (c, fs, .error (.unwritable e)) => do
      setFiles fs
      logLine ("⚠️  " ++ Cache.unwritableMessage e)
      pure { b with cache? := some c }
    | (_, fs, .error .damaged) => do
      setFiles fs
      throw .damagedCache

def code (b : Builder) (path source : Text) : CommandM (Except BuildError (Text × Bool) × Builder) := do
  let key := b.key path source
  let (cached?, b) ← b.lookup key
  match cached? with
  | some code => pure (.ok (code, true), b)
  | none =>
    match b.compiler.compile path source with
    | .error (.malformed e) => pure (.error (.malformed path e), b)
    | .error (.invalid e) => pure (.error (.invalid path e), b)
    | .error (.unreadable e) => throw (.unreadable e)
    | .ok out => do
      let b ← b.store key path out.code
      pure (.ok (out.code, false), b)

def emit (b : Builder) (r : FileResult) : CommandM FileResult := do
  if b.outputDirectory.isEmpty then pure r
  else
    let output := Path.join b.outputDirectory (Path.base r.path ++ ".dart")
    let r := { r with output := output }
    match (← get).files.write output (generatedFile r.path r.code) with
    | .ok fs => do
      setFiles fs
      pure r
    | .error e => pure { r with error? := some (.unwritable output e) }

def compileFile (b : Builder) (path : Text) : CommandM (FileResult × Builder) := do
  match (← get).files.read path with
  | .error e => pure ({ path := path, error? := some (.unreadable path e) }, b)
  | .ok source => do
    let (result, b) ← b.code path source
    match result with
    | .error e => pure ({ path := path, error? := some e }, b)
    | .ok (code, isCached) => do
      let r ← b.emit { path := path, code := code, isCached := isCached }
      pure (r, b)

def compileFiles (b : Builder) : List Text → CommandM (List FileResult × Builder)
  | [] => pure ([], b)
  | path :: paths => do
    let (r, b) ← b.compileFile path
    let (rs, b) ← b.compileFiles paths
    pure (r :: rs, b)

def saveCache (b : Builder) : CommandM Unit :=
  match b.cache? with
  | none => pure ()
  | some c => do
    match c.save (← get).files with
    | .ok fs => setFiles fs
    | .error e => logLine ("⚠️  Failed to save the output cache: " ++ e.message)

end Builder

/-! ## Reports -/

def reportResult (wroteFiles : Bool) (r : FileResult) : CommandM Unit :=
  match r.error? with
  | some e => logLine (Report.errorLine e.message)
  | none =>
    if wroteFiles then
      if r.isCached then logLine ("📦 " ++ r.path ++ " → " ++ r.output ++ " (cached)")
      else logLine ("📝 " ++ r.path ++ " → " ++ r.output)
    else print ("// " ++ r.path ++ "\n" ++ r.code ++ "\n")

def report (wroteFiles : Bool) (results : List FileResult) : CommandM Nat := do
  results.forM (reportResult wroteFiles)
  let failed := (results.filter fun r => r.error?.isSome).length
  modify fun w => { w with log := w.log ++ [.summary (results.length - failed) failed] }
  pure failed

end FlutterLayout.Command
