import DependencyAudit.Arguments
import DependencyAudit.Audit
import DependencyAudit.Report

/-!
The command line.  Before the subcommand it can be said that debugging is
wanted, and the version or help can be asked for.  A JSON report is all that is
ever written when it is asked for, whatever else is set.
-/

namespace DependencyAudit.Command

open Arguments

/-- What is being asked for. -/
inductive Request where
  | version
  | help
  | audit (settings : Settings)
  deriving DecidableEq, Repr

def versionLine : String := "depclean 0.1.0\n"

def subcommand : String := "scan-deps"

def usageLines : String :=
  "Usage: depclean [--debug] scan-deps [--root PATH] [--directory LIST] [--extension LIST] " ++
    "[--json] [--all]\n"

/-- Whether an argument asks for the version at once. -/
def asksVersion (argument : String) : Bool :=
  argument = "--version" || ['-', 'V'].isPrefixOf argument.toList

/-- Whether an argument asks for help at once. -/
def asksHelp (argument : String) : Bool :=
  argument = "--" ++ Arguments.helpName || ['-', 'h'].isPrefixOf argument.toList

/-- What the word for help may be followed by: nothing, or one name to explain. -/
def readHelp? : List String → Option Request
  | [] => some .help
  | [topic] => if topic = subcommand ∨ topic = Arguments.helpName then some .help else none
  | _ => none

/-- Reads the arguments from the front; `debug` tells whether that switch has
been given before the subcommand. -/
def readRequest? (debug : Bool) : List String → Option Request
  | [] => none
  | argument :: arguments =>
    if argument = subcommand then
      match Arguments.read [.json, .all, .debug] arguments with
      | .ok settings => some (.audit { settings with debug := settings.debug || debug })
      | .error .helpRequested => some .help
      | .error _ => none
    else if argument = Arguments.helpName then readHelp? arguments
    else if asksHelp argument then some .help
    else if asksVersion argument then some .version
    else if argument = "--" ++ Switch.debug.name ∧ debug = false then
      readRequest? true arguments
    else none

/-- How a run ends. -/
inductive Outcome where
  | usageError
  | version
  | help
  | failed (error : Audit.Error)
  | json (findings : Findings)
  | report (outcome : Audit.Outcome) (all debug : Bool)
  deriving DecidableEq, Repr

def selectionOf (settings : Settings) : Selection where
  directories := Selection.readList (settings.directory.getD Selection.defaultDirectories)
  extensions := Selection.readList (settings.extension.getD Selection.defaultExtensions)

def runAudit (tree : FileTree) (working : Location) (settings : Settings) : Outcome :=
  match Audit.run tree working (settings.root.map Path.mk) (selectionOf settings) with
  | .error e => .failed e
  | .ok outcome =>
    if settings.json then .json outcome.findings
    else .report outcome settings.all settings.debug

/-- Runs the command in a working directory of a file tree. -/
def run (tree : FileTree) (working : Location) (arguments : List String) : Outcome :=
  match readRequest? false arguments with
  | none => .usageError
  | some .version => .version
  | some .help => .help
  | some (.audit settings) => runAudit tree working settings

namespace Outcome

def exitCode : Outcome → UInt32
  | usageError => 2
  | failed _ => 1
  | version | help | json _ | report .. => 0

/-- Standard output.  Only the last line of a report tells of the run itself. -/
def output (outcome : Outcome) (colour : Bool) (milliseconds threads : String) : String :=
  match outcome with
  | usageError | failed _ => ""
  | version => versionLine
  | help => usageLines
  | json findings => Report.json findings
  | report outcome all _ =>
    Report.text outcome.findings all colour ++
      Report.finished milliseconds threads outcome.filesScanned colour

/-- The last thing on standard error.  What keeps a file from being read is said
once in the sentence and once more as its cause. -/
def complaint? (outcome : Outcome) (colour : Bool) : Option String :=
  match outcome with
  | failed error =>
    let cause := match error with
      | .manifestMissing _ => ""
      | .unreadable _ e => ": " ++ e.message
    some ((Span.styled .red (error.message ++ cause)).render colour)
  | _ => none

/-- Whether the run leaves notes on standard error although it succeeds. -/
def logs : Outcome → Bool
  | report _ _ debug => debug
  | _ => false

end Outcome

end DependencyAudit.Command
