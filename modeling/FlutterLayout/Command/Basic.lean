import FlutterLayout.Command.Flags
import FlutterLayout.Command.Watch
import FlutterLayout.Config.Schema

/-!
# Commands

The commands of the command line: `compile` builds layout files, `handlers` lists the directives and the
literal rules, `schema` prints the schema of configuration files.
-/

namespace FlutterLayout.Command

inductive Name where
  | compile
  | handlers
  | schema
  deriving DecidableEq, Repr

def Name.word : Name → Text
  | compile => "compile"
  | handlers => "handlers"
  | schema => "schema"

def Name.read? (word : Text) : Option Name :=
  [Name.compile, .handlers, .schema].find? fun n => n.word = word

def helpFlag : Flag := ⟨"help", some (Text.byte 'h'), .switch⟩

def Name.flags : Name → List Flag
  | compile =>
    [helpFlag, ⟨"out-dir", some (Text.byte 'o'), .text⟩, ⟨"jobs", some (Text.byte 'j'), .integer⟩,
      ⟨"watch", some (Text.byte 'w'), .switch⟩, ⟨"no-cache", none, .switch⟩, ⟨"rebuild", none, .switch⟩,
      ⟨"cache-dir", none, .text⟩]
  | handlers => [helpFlag]
  | schema => [helpFlag, ⟨"out", some (Text.byte 'o'), .text⟩]

def Name.usage : Name → Text
  | compile =>
    "Compiles each XML layout file to the Dart expression of its widget tree.\n"
      ++ "With --out-dir the code of home.xml is written to <out-dir>/home.xml.dart,\n"
      ++ "otherwise it is printed to stdout.\n\n"
      ++ "Usage:\n  compile [files...] [flags]\n\nFlags:\n"
      ++ "      --cache-dir string   Directory of the output cache (defaults to the user cache dir)\n"
      ++ "  -h, --help               help for compile\n"
      ++ "  -j, --jobs int           Number of files compiled in parallel\n"
      ++ "      --no-cache           Always recompile instead of reusing cached output\n"
      ++ "  -o, --out-dir string     Directory to write generated .dart files to\n"
      ++ "      --rebuild            Clear the output cache before compiling\n"
      ++ "  -w, --watch              Recompile when a layout or the config file changes\n"
  | handlers =>
    "List the registered attribute handlers and value transformers\n\n"
      ++ "Usage:\n  handlers [flags]\n\nFlags:\n  -h, --help   help for handlers\n"
  | schema =>
    "Prints the JSON schema of the config file, for editor completion and validation.\n\n"
      ++ "Usage:\n  schema [flags]\n\nFlags:\n"
      ++ "  -h, --help         help for schema\n"
      ++ "  -o, --out string   File to write the schema to\n"

/-- Why a command fails. -/
inductive CommandError where
  | badFlags (e : FlagError)
  | noFiles
  | unexpectedArgument (command argument : Text)
  | config (e : LoadError)
  | outputDirectory (e : FileError)
  | layoutsFailed (failed total : Nat)
  | schemaFile (e : FileError)

def CommandError.message : CommandError → Text
  | badFlags e => e.message
  | noFiles => "requires at least 1 arg(s), only received 0"
  | unexpectedArgument command argument =>
    "unknown command " ++ Text.quoted argument ++ " for " ++ Text.quoted command
  | config e => e.message
  | outputDirectory e => "failed to create output directory: " ++ e.message
  | layoutsFailed failed total =>
    Text.ofNat failed ++ " of " ++ Text.ofNat total ++ " layouts failed to compile"
  | schemaFile e => "failed to write schema: " ++ e.message

structure Environment where
  configPath : Text := "flutterxml.yaml"
  cacheDirectory : Text := "flutterxml"
  deriving DecidableEq, Repr

/-! ## Compile -/

/-- What `compile` was asked for. -/
structure CompileRequest where
  files : List Text
  outputDirectory : Text
  cacheDirectory : Text
  useCache : Bool
  clearCache : Bool
  deriving DecidableEq, Repr

def CompileRequest.ofParsed (env : Environment) (p : Parsed) : CompileRequest :=
  let directory := (p.value? "cache-dir").getD []
  { files := p.arguments
    outputDirectory := (p.value? "out-dir").getD []
    cacheDirectory := if directory.isEmpty then env.cacheDirectory else directory
    useCache := !p.isOn "no-cache"
    clearCache := p.isOn "rebuild" }

/-- Opens the cache of a request; without one everything is compiled. -/
def openCache (r : CompileRequest) : CommandM (Option Cache) := do
  if !r.useCache then pure none
  else
    let w ← get
    let (fs, result) := Cache.openIn w.files w.now r.cacheDirectory Cache.standardMaxAge
    setFiles fs
    match result with
    | .ok c => pure (some c)
    | .error (.noDirectory e) => do
      logLine ("⚠️  Failed to open the output cache: failed to create cache directory: " ++ e.message
        ++ " (compiling everything)")
      pure none
    | .error .damaged => throw .damagedCache

def prepareCache (r : CompileRequest) (c? : Option Cache) : CommandM (Option Cache) :=
  match c? with
  | none => pure none
  | some c =>
    if r.clearCache then do
      let (c, fs, errors) := c.clear (← get).files
      setFiles fs
      if !errors.isEmpty then
        logLine ("⚠️  Failed to clear the output cache: "
          ++ Text.join "\n" (errors.map FileError.message))
      pure (some c)
    else pure (some c)

def makeOutputDirectory (r : CompileRequest) : CommandM (Except CommandError Unit) := do
  if r.outputDirectory.isEmpty then pure (.ok ())
  else
    match (← get).files.makeDirectories r.outputDirectory with
    | .error e => pure (.error (.outputDirectory e))
    | .ok fs => do
      setFiles fs
      pure (.ok ())

/-- Compiles the layouts of a request.  Gives the builder and the number of layouts that failed. -/
def compileLayouts (env : Environment) (r : CompileRequest) : CommandM (Except CommandError (Builder × Nat)) := do
  match loadConfig (← get).files env.configPath with
  | .error e => pure (.error (.config e))
  | .ok config => do
    match ← makeOutputDirectory r with
    | .error e => pure (.error e)
    | .ok _ => do
      let cache? ← prepareCache r (← openCache r)
      let b : Builder := { config := config, cache? := cache?, outputDirectory := r.outputDirectory }
      let (results, b) ← b.compileFiles r.files
      let failed ← report (!r.outputDirectory.isEmpty) results
      pure (.ok (b, failed))

def runCompile (env : Environment) (r : CompileRequest) : CommandM (Except CommandError Unit) := do
  match ← compileLayouts env r with
  | .error e => pure (.error e)
  | .ok (b, failed) => do
    b.saveCache
    pure (if failed = 0 then .ok () else .error (.layoutsFailed failed r.files.length))

/-! ## Handlers -/

def padRight (width : Nat) (t : Text) : Text :=
  t ++ Report.spaces (width - t.length)

def padLeft (width : Nat) (t : Text) : Text :=
  Report.spaces (width - t.length) ++ t

def handlerRow (name : Text) (r : Directive.Registration) : Report.Row where
  name := name
  detail := padRight 9 r.handler.family.name ++ " " ++ padLeft 7 (Text.ofInt r.handler.priority.toInt)
  note :=
    match r.value? with
    | some value => "= " ++ value
    | none => []

def handlersText (c : Compiler) : Text :=
  Report.listing "Handlers" (c.layout.handlers.entries.map fun (name, r) => handlerRow name r) ++ "\n"
    ++ Report.listing "Transformers"
      (c.layout.literals.entries.map fun (name, rule) => { name := name, detail := rule.kindName })

def runHandlers (env : Environment) : CommandM (Except CommandError Unit) := do
  match loadConfig (← get).files env.configPath with
  | .error e => pure (.error (.config e))
  | .ok config => do
    print (handlersText config.compiler)
    pure (.ok ())

/-! ## Schema -/

def runSchema (path : Text) : CommandM (Except CommandError Unit) := do
  let content := Config.Schema.text ++ "\n"
  if path.isEmpty then
    print content
    pure (.ok ())
  else
    match (← get).files.write path content with
    | .error e => pure (.error (.schemaFile e))
    | .ok fs => do
      setFiles fs
      logLine ("✅ Schema written to " ++ path)
      pure (.ok ())

/-! ## Running -/

def checkArguments (name : Name) (p : Parsed) : Except CommandError Unit :=
  match name, p.arguments with
  | .compile, [] => .error .noFiles
  | .compile, _ => .ok ()
  | _, [] => .ok ()
  | name, argument :: _ => .error (.unexpectedArgument name.word argument)

def runHelp (name : Name) : CommandM (Except CommandError Unit) := do
  print name.usage
  pure (.ok ())

def runParsed (env : Environment) (name : Name) (p : Parsed) : CommandM (Except CommandError Unit) :=
  if p.isOn helpFlag.name then runHelp name
  else match checkArguments name p with
  | .error e => pure (.error e)
  | .ok _ =>
    match name with
    | .compile => runCompile env (.ofParsed env p)
    | .handlers => runHandlers env
    | .schema => runSchema ((p.value? "out").getD [])

def run (env : Environment) (name : Name) (arguments : List Text) : CommandM (Except CommandError Unit) :=
  match Parsed.read name.flags arguments with
  | .error e => pure (.error (.badFlags e))
  | .ok p => runParsed env name p

/-! ## The whole command line

In front of a command and among its arguments may stand flags that all commands share: the path of the
configuration file and a switch for more messages. -/

def sharedFlags : List Flag :=
  [⟨"config", some (Text.byte 'c'), .text⟩, ⟨"verbose", some (Text.byte 'v'), .switch⟩]

structure Line where
  name : Name
  configPath : Text
  arguments : Parsed

/-- Why there is no command to run. -/
inductive LineError where
  | badFlags (e : FlagError)
  | noCommand
  | unknownCommand (word : Text)

def LineError.message : LineError → Text
  | badFlags e => e.message
  | noCommand => "a command is needed: compile, handlers or schema"
  | unknownCommand word => "unknown command " ++ Text.quoted word ++ " for \"flutterxml\""

def allFlags : List Flag :=
  sharedFlags ++ Name.compile.flags ++ Name.schema.flags

def Line.read (arguments : List Text) : Except LineError Line :=
  match Parsed.read allFlags arguments with
  | .error e => .error (.badFlags e)
  | .ok p =>
    match p.arguments with
    | [] => .error .noCommand
    | word :: rest =>
      match Name.read? word with
      | none => .error (.unknownCommand word)
      | some name =>
        let configPath := (p.value? "config").getD ({} : Environment).configPath
        .ok ⟨name, configPath, { p with arguments := rest }⟩

/-- Whether to go on compiling when layouts change. -/
def Line.isWatching (line : Line) : Bool :=
  line.name = .compile && line.arguments.isOn "watch" && !line.arguments.isOn helpFlag.name
    && !line.arguments.arguments.isEmpty

def Line.run (line : Line) (env : Environment) : CommandM (Except CommandError Unit) :=
  runParsed { env with configPath := line.configPath } line.name line.arguments

end FlutterLayout.Command
