import FlutterLayout.Command.Builder

/-!
# Watching layout files

A watcher builds layout files again when they change, and all of them when the configuration changes.  A
configuration that cannot be loaded is reported and leaves the one before it in place; before the first that
can be, the standard one is used.
-/

namespace FlutterLayout.Command

/-- Watches layout files and the configuration file. -/
structure Watcher where
  configPath : Text
  files : List Text
  builder : Builder

namespace Watcher

/-- A watcher without a cache, and why its configuration cannot be loaded, if that is so. -/
def start (fs : Files) (configPath : Text) (files : List Text) (outputDirectory : Text) :
    Watcher × Option LoadError :=
  match loadConfig fs configPath with
  | .ok c => (⟨configPath, files, { config := c, outputDirectory := outputDirectory }⟩, none)
  | .error e => (⟨configPath, files, { config := {}, outputDirectory := outputDirectory }⟩, some e)

def isRelevant (w : Watcher) (path : Text) : Bool :=
  let path := Path.clean path
  path = Path.clean w.configPath || w.files.any fun f => Path.clean f = path

def build (w : Watcher) (files : List Text) : CommandM Watcher := do
  let (results, b) ← w.builder.compileFiles files
  let _ ← report (!b.outputDirectory.isEmpty) results
  b.saveCache
  pure { w with builder := b }

def rebuild (w : Watcher) (paths : List Text) : CommandM Watcher := do
  let changed := paths.map Path.clean
  if changed.contains (Path.clean w.configPath) then
    match loadConfig (← get).files w.configPath with
    | .error e => do
      logLine ("⚠️  " ++ e.message ++ " (keeping the previous config)")
      pure w
    | .ok c => do
      logLine "🔄 Config changed, rebuilding all layouts"
      build { w with builder := { w.builder with config := c } } w.files
  else
    let files := w.files.filter fun f => changed.contains (Path.clean f)
    logLine ("🔨 Rebuilding " ++ Text.ofNat files.length ++ " layout(s)")
    w.build files

end Watcher

end FlutterLayout.Command
