import SatSearch.Command.Machine
import SatSearch.Command.Tables
import SatSearch.Command.Usage
/-!
# The program as a whole

An invocation first makes its log file, so that a log that cannot be kept is reported before
anything is done, and then does the work of its command. The lines of the log are left out.

Models `run_app` and what `setup_logging` does to files.
-/

namespace SatSearch

variable {m : Type → Type} [Monad m] [Host m] [Outlet m]

/-- The work of a command. -/
def Command.work : Command → Work m Unit
  | .solve args => args.work
  | .batch args => args.work
  | .sweep args => args.work
  | .analyse args => args.work

/-- Makes the file for the log, if one is to be kept. -/
def Invocation.openLog (i : Invocation) : Work m Unit :=
  match i.logFile with
  | some path => Work.create .document path
  | none => pure ()

/-- The work of an invocation. -/
def Invocation.work (i : Invocation) : Work m Unit := do
  i.openLog
  i.command.work

/-- Runs an invocation on a tree. -/
def FileTree.execute (t : FileTree) (i : Invocation) : Except Fault Result := t.run i.work

end SatSearch
