import SatSearch.Command.Program
/-!
# The command line

The outer layer: it takes the words of the command line, gives the commands the real files, clock
and source of randomness, and prints what they have to say.
-/

namespace SatSearch

namespace Terminal

/-- The number of an error; some calls give it with its sign changed. -/
def errorNumber (code : UInt32) : Nat := min code.toNat (0 - code).toNat

/-- What went wrong with a file, as far as commands tell it apart. -/
def fileError (e : IO.Error) : FileError :=
  match e with
  | .noFileOrDirectory _ _ _ => .missing
  | .inappropriateType _ code _ => if errorNumber code = 20 then .notDirectory else .isDirectory
  | .permissionDenied _ code _ => .other s!"Permission denied (os error {errorNumber code})"
  | _ => .other (toString e)

/-- The answer of an action, or what went wrong with the file that it needs. -/
def attempt {α : Type} (action : IO α) : IO (Except FileError α) := do
  try
    let a ← action
    pure (.ok a)
  catch e => pure (.error (fileError e))

/-- The 32-bit word at a place in bytes. -/
def wordAt (bytes : ByteArray) (i : Nat) : UInt32 :=
  (List.range 4).foldl (fun word k => word * 256 + ((bytes.toList.getD (4 * i + k) 0).toUInt32)) 0

/-- Generators over one random key, each at a part of the stream of its own. -/
def freshGenerators : IO (Nat → Generator) := do
  let bytes ← IO.getRandomBytes 32
  let key : Vector UInt32 8 := Vector.ofFn fun i => wordAt bytes i
  pure fun i => { Generator.ofKey key with counter := UInt64.ofNat (i * 1099511627776) }

instance : Host IO where
  contents path := attempt (IO.FS.readBinFile path)
  isDirectory path := do
    match ← attempt (IO.FS.realPath path) with
    | .ok real => real.isDir
    | .error _ => pure false
  listFiles path := attempt do
    let real ← IO.FS.realPath path
    let entries ← real.readDir
    let files ← entries.filterM fun entry => do
      match ← attempt entry.path.metadata with
      | .ok data => pure (data.type == .file)
      | .error _ => pure false
    pure (files.toList.map (·.fileName))
  timed find := do
    let before ← IO.monoNanosNow
    let a ← IO.lazyPure find
    let after ← IO.monoNanosNow
    pure (a, Float.ofNat (after - before) / 1000000000.0)
  fresh := freshGenerators

instance : Outlet IO where
  create path := attempt (IO.FS.writeFile path "")
  append path text := attempt do
    let handle ← IO.FS.Handle.mk path .append
    handle.putStr text
  print text := IO.print text

def usageText : String :=
  "Usage: satsearch [OPTIONS] <solve|batch|sweep|analyse> [ARGUMENTS]"

def versionText : String := "satsearch 0.1.0"

/-- Tells how the program is called, or what is wrong with the call. -/
def tellUsage (e : UsageError) : IO Unit :=
  match e with
  | .help => IO.println usageText
  | .version => IO.println versionText
  | _ => IO.eprintln ("error: the arguments cannot be understood\n\n" ++ usageText)

end Terminal

end SatSearch

open SatSearch in
def main (words : List String) : IO UInt32 := do
  match Usage.parse words with
  | .error e =>
    Terminal.tellUsage e
    pure (UInt32.ofNat e.exitCode)
  | .ok invocation =>
    match ← invocation.work.run with
    | .ok _ => pure 0
    | .error (.error e) =>
      IO.eprintln ("\n❌ Error: " ++ e.message)
      pure 1
    | .error (.fault fault) =>
      IO.eprintln ("fault: " ++ fault.message)
      pure 101
