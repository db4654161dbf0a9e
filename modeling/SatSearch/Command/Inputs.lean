import SatSearch.Cnf.Dimacs
import SatSearch.Command.Host
/-!
# What commands read

The settings of a run and the formulas it is about. A settings file is read first, if one is
named, and only then are overrides looked at.

Models `from_file`, `build_config` and `read_from_path`.
-/

namespace SatSearch

namespace Work

variable {m : Type → Type} [Monad m] [Host m]

/-- The settings in a file. -/
def settingsFile (path : String) : Work m SettingsFile := do
  let bytes ← bytes .file path
  match String.fromUTF8? bytes with
  | none => fail (.file .notText)
  | some text => match SettingsFile.parse? text with
    | none => fail (.unreadable path .settings)
    | some file => pure file

/-- The settings that a command's arguments lead to, with the ratio that only some commands have a
flag for. -/
def configure (args : SearchArgs) (clausesPerVar : Option Float) : Work m AppConfig := do
  let file ← match args.config with
    | none => pure {}
    | some path => settingsFile path
  orFail .settings (AppConfig.resolve args.overrides (args.layer clausesPerVar) file)

/-- The formula in a DIMACS file. -/
def formulaFile (path : String) : Work m Formula := do
  let failure := fun e => CommandError.unreadable path (.formula e)
  let bytes ← bytes failure path
  match Dimacs.read bytes with
  | .error _ => fail (failure .notText)
  | .ok file => pure file.formula

end Work

end SatSearch
