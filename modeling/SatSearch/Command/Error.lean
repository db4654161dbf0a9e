import SatSearch.Command.Arguments
import SatSearch.Run.SweepPlan
/-!
# Errors of the commands

What ends a command without success. The texts name the part of the work that failed; an error of
the search itself is told in its own words.

Models `CliError`.
-/

namespace SatSearch

/-- Why a file or a directory cannot be used. -/
inductive FileError where
  | missing
  | notDirectory
  | isDirectory
  | notText
  | other (text : String)
  deriving DecidableEq, Repr

def FileError.message : FileError → String
  | .missing => "No such file or directory (os error 2)"
  | .notDirectory => "Not a directory (os error 20)"
  | .isDirectory => "Is a directory (os error 21)"
  | .notText => "stream did not contain valid UTF-8"
  | .other text => text

/-- Arguments that cannot be followed. -/
inductive ArgumentError where
  | clausesWithoutRandom
  | traceNotRecorded
  | noInstance
  | noSuchDirectory (path : String)
  | badSweep (e : SweepPlan.Error)
  | noRows
  deriving DecidableEq, Repr

def ArgumentError.message : ArgumentError → String
  | .clausesWithoutRandom => "--clauses only applies to instances generated with --random"
  | .traceNotRecorded => "--trace-out needs trace recording, which is disabled"
  | .noInstance => "must supply --random N or a CNF FILE"
  | .noSuchDirectory path => "Input directory does not exist: " ++ path
  | .badSweep e => e.message
  | .noRows => "the CSV contains no result rows"

/-- What a file was expected to be when it could not be read. -/
inductive Unreadable where
  | settings
  | formula (e : FileError)
  | table
  deriving DecidableEq, Repr

def fileText (e : FileError) : String := "I/O error: " ++ e.message

def Unreadable.message : Unreadable → String
  | .settings => "not a settings file"
  | .formula e => fileText e
  | .table => "not a result table"

inductive CommandError where
  | search (e : SearchError)
  | generator (e : Planted.Error)
  | settings (e : SettingsError)
  | unreadable (path : String) (cause : Unreadable)
  | file (e : FileError)
  | table (e : FileError)
  | argument (e : ArgumentError)

def CommandError.message : CommandError → String
  | .search e => e.message
  | .generator e => "Instance generation error: " ++ e.message
  | .settings e => "Configuration error: " ++ e.message
  | .unreadable path cause => "Failed to parse file '" ++ path ++ "': " ++ cause.message
  | .file e => fileText e
  | .table e => "CSV error: " ++ e.message
  | .argument e => "Invalid argument: " ++ e.message

/-- What keeps a command from its end. -/
inductive Stop where
  | error (e : CommandError)
  | fault (f : Fault)

end SatSearch
