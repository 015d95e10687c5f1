import Rollout.CommandLine
import Rollout.Daemon
import Rollout.Json.Printer
/-!
# Program

The outer layer: it reads files and the environment, prints, and waits. It keeps its store in
memory and opens no connection, so that a query of the backend finds nobody listening and the lock
is never granted.
-/

namespace Rollout.Program

def usage : String :=
  "Rolling deployment updater daemon\n\n" ++
    "Usage: deployd [--log-format <text|json>] <run|check-config> --config <CONFIG>"

/-- A line of the log; the path is that of a configuration, if the event is about one. -/
def logLine (format : LogFormat) (event : Event) (path : Option String) : String :=
  match format with
  | .text =>
    event.level.name ++ " deployd: " ++ event.message ++
      (path.map fun p => " path=" ++ Text.quotedPath p).getD ""
  | .json =>
    let fields := ("message", Json.ofText event.message) ::
      (path.map fun p => ("path", Json.ofText (Text.quotedPath p))).toList
    (Json.ofFields
      [("level", Json.ofText event.level.name), ("fields", Json.ofFields fields),
        ("target", Json.ofText "deployd")]).toText

def readFile (path : String) : IO FileState := do
  try
    let bytes ← IO.FS.readBinFile path
    return .content bytes.toList
  catch _ => return .absent

/-- The number under which the system runs the program. -/
def ownNumber : IO String := do
  match (← readFile "/proc/self/stat").text? with
  | some stat => return String.ofList (stat.toList.takeWhile (· ≠ ' '))
  | none => return "0"

/-- Everything that a daemon with this configuration looks at when it is started. -/
def readSite (c : Config) : IO Site := do
  let stages := (Site.stages [] c.dataDir.toList).map String.ofList
  let credentials := (c.locket.map fun l => [l.caFile, l.certFile, l.keyFile]).getD []
  let found ← (stages ++ credentials).mapM fun path => do
    return (path, ← readFile path)
  return ⟨fun path => (found.lookup path).getD .absent, fun _ => .absent⟩

/-- Makes one cycle after another. Without an answer no record is written, so a cycle needs no time
of day. -/
partial def serve (format : LogFormat) (d : Daemon) : IO UInt32 := do
  let (event, d) := d.cycle 0 "no connection" fun _ => .refused
  IO.println (logLine format event none)
  IO.sleep (UInt32.ofNat (min d.config.updateInterval.millis (UInt32.size - 1)))
  serve format d

def fail (message : String) (cause : Option String) : IO UInt32 := do
  IO.eprintln ("Error: " ++ message)
  if let some cause := cause then
    IO.eprintln ("\nCaused by:\n    " ++ cause)
  return 1

def causeOf : ConfigFileError → Option String
  | .rejected _ (.invalid v) => some v.message
  | .rejected _ .malformed => some "the document does not spell a configuration"
  | .unreadable _ => some "the file cannot be read as text"

def perform (format : LogFormat) (c : Command) : IO UInt32 := do
  let env : Environment := ⟨← IO.getEnv "HOSTNAME", ← ownNumber⟩
  match Config.ofFile env c.config (← readFile c.config), c with
  | .error e, _ => fail e.message (causeOf e)
  | .ok _, .checkConfig path =>
    IO.println (logLine format .configAccepted (some path))
    return 0
  | .ok config, .run _ =>
    match Daemon.start config (← readSite config) "not usable" with
    | .error e => fail e.message none
    | .ok d => serve format d

end Rollout.Program

def main (args : List String) : IO UInt32 := do
  match Rollout.CommandLine.parse args with
  | .help =>
    IO.println Rollout.Program.usage
    return 0
  | .misuse =>
    IO.eprintln Rollout.Program.usage
    return 2
  | .command format c => Rollout.Program.perform format c
