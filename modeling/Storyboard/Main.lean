import Storyboard.Binary64
import Storyboard.Command
import Storyboard.Settings.Environment

namespace Storyboard.Command

/-- Puts what the machine has at a place on the disk. -/
def fetch (disk : Disk) (place : Place) : IO Disk := do
  let path := (← IO.currentDir) / place.text
  if ← path.isDir then return disk.addFolder place
  else if ← path.pathExists then return disk.write place (← IO.FS.readBinFile path)
  else return disk

def fetchRoute (disk : Disk) (route : Route) : IO Disk :=
  ((List.range (route.names.length + 1)).map fun n =>
    Place.ofRoute { route with names := route.names.take n }).foldlM fetch disk

/-- Puts a folder of the machine with all that is in it on the disk. -/
partial def fetchFolder (disk : Disk) (place : Place) : IO Disk := do
  let path := (← IO.currentDir) / place.text
  if ← path.isDir then
    let names := (← path.readDir).toList.map fun entry => entry.fileName
    (names.map place.child).foldlM fetchFolder (disk.addFolder place)
  else fetch disk place

/-- The file that a command misses. -/
def missing? : CommandFault → Option String
  | .fileNotFound path => some path
  | .refused (.definitionNotFound path) => some path
  | _ => none

/-- Runs a command again and again, until it misses no more file that the machine has. -/
partial def runFetching (home : Place) (command : Disk → Except CommandFault Report)
    (disk : Disk) : IO (Disk × Except CommandFault Report) := do
  match command disk with
  | .ok report => return (disk, .ok report)
  | .error fault =>
    match missing? fault with
    | none => return (disk, .error fault)
    | some path =>
      let next ← fetchRoute disk (Route.ofPath (Route.ofPlace home) path)
      if next.files.length == disk.files.length && next.folders.length == disk.folders.length then
        return (disk, .error fault)
      else runFetching home command next

/-- The settings that the environment of the machine and the file of assignments in the working
folder make. -/
def settingsOfMachine : IO (Checked (Settings Float)) := do
  let names := ["EFFECTS_DIR", "DEFAULT_FONT", "DEFAULT_TEXT_SIZE", "TEXT_LINE_HEIGHT",
    "BEZIER_MAX_ITERATIONS", "BEZIER_EPSILON", "LOG_LEVEL"].map fun n =>
      String.ofList (Settings.lead.toList.map Char.toUpper) ++ n
  let given ← names.filterMapM fun n => do
    return (← IO.getEnv n).map (n, ·)
  let path := (← IO.currentDir) / ".env"
  let text ← if ← path.pathExists then IO.FS.readFile path else pure ""
  return Settings.ofEnvironment given text

/-- Writes the files of a disk that another one does not have. -/
def writeChanges (before after : Disk) : IO Unit := do
  let here ← IO.currentDir
  for (place, content) in after.files do
    if before.file? place != some content then
      IO.FS.createDirAll (here / place.folder.text)
      IO.FS.writeBinFile (here / place.text) content

def complain (lines : List String) : IO Unit :=
  lines.forM fun text => do (← IO.getStderr).putStrLn ("Error: " ++ text)

def written? (arguments : List String) : Option String :=
  match read arguments with
  | .ok (.compile _ output) => output
  | _ => none

def runMachine (arguments : List String) : IO UInt32 := do
  match ← settingsOfMachine with
  | .error issues =>
    complain (issues.map issueText)
    return 1
  | .ok settings =>
    let home := Place.resolve ⟨[]⟩ (← IO.currentDir).toString
    let bundled := Bundled.install Float Disk.empty
    let disk ← fetchRoute bundled (Route.ofPlace home)
    let disk ← match settings.effectsFolder with
      | some path => fetchFolder disk (Place.resolve home path)
      | none => pure disk
    let disk ← match written? arguments with
      | some path => fetchRoute disk (Route.ofPath (Route.ofPlace home) path)
      | none => pure disk
    let command (d : Disk) : Except CommandFault Report :=
      runLine ⟨d, settings, Measurer.lines settings⟩ home arguments
    match ← runFetching home command disk with
    | (_, .error fault) =>
      complain fault.lines
      return fault.exitCode
    | (d, .ok report) =>
      writeChanges d report.disk
      IO.print report.output
      return 0

end Storyboard.Command

/-- Runs the command line. -/
def main (arguments : List String) : IO UInt32 := Storyboard.Command.runMachine arguments
