import DependencyAudit.Command
import DependencyAudit.Files.Snapshot

/-!
The command line on a real file system.  What an audit can come across is taken
in first: the directories on the way to the project with what is installed in
them, and all of the project itself.  The rest is `Command.run`.
-/

namespace DependencyAudit.Main

/-- The entries taken in so far. -/
abbrev Entries := Std.HashMap Location Entry

/-- Takes in a file, or a directory with everything below it.  `above` holds the
directories on the way here; one that leads back into itself is not entered
again, and what cannot be read is left out. -/
partial def takeIn (above : List String) (entries : Entries) (location : Location) :
    IO Entries := do
  try
    let path ← IO.FS.realPath (Path.ofLocation location).text
    let here := path.toString
    match (← path.metadata).type with
    | .dir =>
      if above.contains here then return entries
      let mut entries := entries.insert location .directory
      for child in ← path.readDir do
        entries ← takeIn (here :: above) entries (location ++ [child.fileName])
      return entries
    | .file => return entries.insert location (.file (← IO.FS.readBinFile path))
    | _ => return entries
  catch _ => return entries

/-- Takes in a place, and on the way from the root to it what is installed in
each directory. -/
def takeInProject (entries : Entries) (location : Location) : IO Entries := do
  let mut entries ← takeIn [] entries location
  for place in Install.ancestors location do
    entries := entries.insert place .directory
    entries ← takeIn [] entries (place ++ ["node_modules"])
  return entries

/-- Takes in the directories that a path passes through and those above them. -/
def takeInWay (entries : Entries) (path : Path) : IO Entries := do
  let mut entries := entries
  for passed in List.range (path.segments.length + 1) do
    let directory := (← IO.currentDir) / "/".intercalate (path.segments.take passed)
    if ← directory.isDir then
      let place := (Path.mk (← IO.FS.realPath directory).toString).lexical
      for place in Install.ancestors place do
        entries := entries.insert place .directory
  return entries

/-- The file tree around the project that is asked about. -/
def snapshot (settings : Arguments.Settings) : IO FileTree := do
  let root : Path := ⟨settings.root.getD "."⟩
  let mut entries ← takeInWay ∅ root
  let path := (← IO.currentDir) / root.text
  if ← path.isDir then
    entries ← takeInProject entries (Path.mk (← IO.FS.realPath path).toString).lexical
  return (FileTree.ofEntries? entries).getD .empty

/-- Runs the command and leaves its exit code. -/
def run (arguments : List String) : IO UInt32 := do
  let started ← IO.monoMsNow
  let working := (Path.mk (← IO.currentDir).toString).lexical
  let tree ← match Command.readRequest? false arguments with
    | some (.audit settings) => snapshot settings
    | _ => pure .empty
  let outcome := Command.run tree working arguments
  let colour := (← IO.getEnv "CLICOLOR_FORCE") = some "1"
  if let some complaint := outcome.complaint? colour then
    IO.eprintln complaint
  let elapsed := (← IO.monoMsNow) - started
  IO.print (outcome.output colour (toString elapsed) "1")
  return outcome.exitCode

end DependencyAudit.Main

def main (arguments : List String) : IO UInt32 :=
  DependencyAudit.Main.run arguments
