import SatSearch.Command.Arguments
/-!
# Reading a command line

A command line has two levels: options that hold for every command, and after the command's name
its own options, with the common ones allowed again. Options take their values from the words that
follow or, after an equals sign or directly after a short name, from their own word; a word that
starts with a dash is never a value. A double dash ends the options.

A level is described by a table, and words are taken in one after another. What an option was
given is checked when it is complete, that is when the next option, the next place or the end is
reached.
-/

namespace SatSearch

/-- What is wrong with a command line, or what it asks for instead of a command. -/
inductive UsageError where
  | unknownArgument
  | argumentConflict
  | missingRequiredArgument
  | invalidValue
  | valueValidation
  | wrongNumberOfValues
  | tooManyValues
  | invalidSubcommand
  | missingSubcommand
  | help
  | version
  | helpOnMissing
  deriving DecidableEq, Repr

/-- Requests are answered with success, mistakes with failure. -/
def UsageError.exitCode : UsageError → Nat
  | .help | .version => 0
  | _ => 2

namespace Usage

/-! ## Options -/

inductive ArgName where
  | verbose | quiet | logFile | threads | help | version
  | config | maxIterations | localRate | seed | noTrace | override
  | file | random | clauses | jsonOut | traceOut | progress
  | indir | outfile | range | runs | clausesPerVar | csv
  deriving DecidableEq, Repr

/-- What the values of an option may be. -/
inductive ArgKind where
  | path
  | text
  | count
  | real
  deriving DecidableEq, Repr

/-- Refuses a value of the wrong kind. A path may be anything but empty. -/
def ArgKind.check : ArgKind → String → Except UsageError Unit
  | .path, value => if value.isEmpty then .error .invalidValue else .ok ()
  | .text, _ => .ok ()
  | .count, value =>
    if (Numeral.count? value.toList).isSome then .ok () else .error .valueValidation
  | .real, value =>
    if (Decimal.float? value.toList).isSome then .ok () else .error .valueValidation

/-- An option or a place: how it is named, how many values it takes each time and of which kind, and
whether it may be given again. -/
structure ArgSpec where
  name : ArgName
  long : String := ""
  short : Option Char := none
  values : Nat := 1
  kind : ArgKind := .text
  repeats : Bool := false

/-- The options and places of a level, and the commands whose names end it. -/
structure Level where
  options : List ArgSpec
  places : List ArgSpec := []
  commands : List String := []

def commonOptions : List ArgSpec :=
  [{ name := .verbose, long := "verbose", short := some 'v', values := 0, repeats := true },
    { name := .quiet, long := "quiet", short := some 'q', values := 0 },
    { name := .logFile, long := "log-file", kind := .path },
    { name := .threads, long := "threads", short := some 'j', kind := .count },
    { name := .help, long := "help", short := some 'h', values := 0 },
    { name := .version, long := "version", short := some 'V', values := 0 }]

def searchOptions : List ArgSpec :=
  [{ name := .config, long := "config", short := some 'c', kind := .path },
    { name := .maxIterations, long := "max-iter", kind := .count },
    { name := .localRate, long := "p-local", kind := .real },
    { name := .seed, long := "seed", kind := .count },
    { name := .noTrace, long := "no-trace", values := 0 },
    { name := .override, long := "set", short := some 'S', repeats := true }]

def progressOption : ArgSpec := { name := .progress, long := "progress", values := 0 }

def outfileOption : ArgSpec := { name := .outfile, long := "outfile", kind := .path }

def topLevel : Level :=
  { options := commonOptions, commands := ["solve", "batch", "sweep", "analyse", "help"] }

def solveLevel : Level :=
  { options :=
      [{ name := .random, long := "random", kind := .count },
        { name := .clauses, long := "clauses", kind := .count },
        { name := .jsonOut, long := "json-out", kind := .path },
        { name := .traceOut, long := "trace-out", kind := .path }, progressOption]
        ++ searchOptions ++ commonOptions
    places := [{ name := .file, kind := .path }] }

def batchLevel : Level :=
  { options :=
      [{ name := .indir, long := "indir", kind := .path }, outfileOption, progressOption]
        ++ searchOptions ++ commonOptions }

def sweepLevel : Level :=
  { options :=
      [{ name := .range, long := "n-range", values := 3, kind := .count, repeats := true },
        { name := .runs, long := "runs", kind := .count },
        { name := .clausesPerVar, long := "clauses-per-var", kind := .real }, outfileOption,
        progressOption]
        ++ searchOptions ++ commonOptions }

def analyseLevel : Level :=
  { options := commonOptions, places := [{ name := .csv, kind := .path }] }

/-! ## Taking words in -/

/-- What a level has been given so far: complete options in order, the option or place whose values
are not complete or not yet checked, whether it waits for a value, how many places are taken, and
whether a double dash was met. -/
structure Reading where
  given : List (ArgName × List String) := []
  pending : Option (ArgSpec × List String) := none
  waiting : Bool := false
  placesTaken : Nat := 0
  trailing : Bool := false

namespace Reading

def has (r : Reading) (name : ArgName) : Bool := r.given.any (·.1 == name)

/-- All values that an option was given. -/
def values (r : Reading) (name : ArgName) : List String :=
  (r.given.filter (·.1 == name)).flatMap (·.2)

def value? (r : Reading) (name : ArgName) : Option String := (r.values name).head?

/-- How often an option was given. -/
def count (r : Reading) (name : ArgName) : Nat := r.given.countP (·.1 == name)

def checkAll (kind : ArgKind) : List String → Except UsageError Unit
  | [] => .ok ()
  | v :: vs => match kind.check v with
    | .ok _ => checkAll kind vs
    | .error e => .error e

/-- Adds an option with its values, judging first their number, then whether the option may be
given, then the values. -/
def accept (r : Reading) (spec : ArgSpec) (values : List String) : Except UsageError Reading :=
  if 0 < spec.values ∧ values.isEmpty then .error .invalidValue
  else if values.length ≠ spec.values then .error .wrongNumberOfValues
  else if spec.name = .help then .error .help
  else if spec.name = .version then .error .version
  else if !spec.repeats && r.has spec.name then .error .argumentConflict
  else match checkAll spec.kind values with
    | .error e => .error e
    | .ok _ => .ok { r with given := r.given ++ [(spec.name, values)], waiting := false }

/-- Completes the pending option or place. -/
def settle (r : Reading) : Except UsageError Reading :=
  match r.pending with
  | none => .ok r
  | some (spec, values) => { r with pending := none }.accept spec values

/-- Takes an option whose values are all at hand. -/
def take (r : Reading) (spec : ArgSpec) (values : List String) : Except UsageError Reading := do
  (← r.settle).accept spec values

/-- Begins an option whose values follow. -/
def begin (r : Reading) (spec : ArgSpec) : Except UsageError Reading := do
  pure { ← r.settle with pending := some (spec, []), waiting := true }

/-- Gives the waiting option another value. -/
def addValue (r : Reading) (word : String) : Reading :=
  match r.pending with
  | none => r
  | some (spec, values) =>
    let values := values ++ [word]
    { r with pending := some (spec, values), waiting := values.length < spec.values }

end Reading

namespace Level

def named (level : Level) (long : String) : Option ArgSpec :=
  level.options.find? fun o => o.long == long

def lettered (level : Level) (short : Char) : Option ArgSpec :=
  level.options.find? fun o => o.short == some short

/-- A word that fits no place. -/
def stray (level : Level) (trailing : Bool) (word : String) : UsageError :=
  if level.commands.isEmpty then .unknownArgument
  else if trailing && level.commands.contains word then .unknownArgument
  else .invalidSubcommand

/-- Takes a word into the next place. -/
def takePlace (level : Level) (r : Reading) (word : String) : Except UsageError Reading :=
  match level.places[r.placesTaken]? with
  | none => .error (level.stray r.trailing word)
  | some spec => do
    let r ← r.settle
    pure
      { r with pending := some (spec, [word]), waiting := false, placesTaken := r.placesTaken + 1 }

/-- Takes in a long option, written without its dashes. -/
def takeLong (level : Level) (r : Reading) (body : List Char) : Except UsageError Reading :=
  let (name, rest) := body.span (· != '=')
  match level.named (String.ofList name) with
  | none => .error .unknownArgument
  | some spec =>
    match rest with
    | _ :: value =>
      if spec.values = 0 then .error .tooManyValues else r.take spec [String.ofList value]
    | [] => if spec.values = 0 then r.take spec [] else r.begin spec

/-- Takes in short options, written without their dash. -/
def takeShort (level : Level) : Reading → List Char → Except UsageError Reading
  | r, [] => .ok r
  | r, c :: cs =>
    match level.lettered c with
    | none => .error .unknownArgument
    | some spec =>
      if spec.values = 0 then
        match r.take spec [] with
        | .ok r => takeShort level r cs
        | .error e => .error e
      else match cs with
        | [] => r.begin spec
        | '=' :: value => r.take spec [String.ofList value]
        | value => r.take spec [String.ofList value]

/-- Takes in a word that does not name a command. -/
def takeWord (level : Level) (r : Reading) (word : String) : Except UsageError Reading :=
  if r.trailing then level.takePlace r word
  else match word.toList with
    | ['-', '-'] => .ok { r with trailing := true }
    | '-' :: '-' :: body => level.takeLong r body
    | '-' :: c :: cs => level.takeShort r (c :: cs)
    | _ => if r.waiting then .ok (r.addValue word) else level.takePlace r word

/-- Takes in words up to the name of a command, which is given back with the words after it. -/
def read (level : Level) : Reading → List String →
    Except UsageError (Reading × Option (String × List String))
  | r, [] => .ok (r, none)
  | r, word :: words =>
    if !r.trailing && !r.waiting && level.commands.contains word then
      .ok (r, some (word, words))
    else match level.takeWord r word with
      | .ok r => read level r words
      | .error e => .error e

end Level

/-! ## What the options mean -/

namespace Reading

def count? (r : Reading) (name : ArgName) : Option Nat :=
  (r.value? name).bind fun v => Numeral.count? v.toList

def real? (r : Reading) (name : ArgName) : Option Float :=
  (r.value? name).bind fun v => Decimal.float? v.toList

def searchArgs (r : Reading) : SearchArgs :=
  { config := r.value? .config
    maxIterations := r.count? .maxIterations
    localRate := r.real? .localRate
    seed := (r.count? .seed).map UInt64.ofNat
    noTrace := r.has .noTrace
    overrides := r.values .override }

/-- Refuses options that exclude one another. -/
def checkConflicts (r : Reading) : Except UsageError Unit :=
  if r.has .quiet && r.has .verbose || r.has .file && (r.has .random || r.has .clauses) then
    .error .argumentConflict
  else .ok ()

/-- The value of an option that has to be given. -/
def required (r : Reading) (name : ArgName) : Except UsageError String :=
  match r.value? name with
  | some v => .ok v
  | none => .error .missingRequiredArgument

def solveArgs (r : Reading) : Except UsageError SolveArgs :=
  if !r.has .random && (!r.has .file || r.has .clauses) then .error .missingRequiredArgument
  else .ok
    { file := r.value? .file
      random := r.count? .random
      clauses := r.count? .clauses
      search := r.searchArgs
      jsonOut := r.value? .jsonOut
      traceOut := r.value? .traceOut
      progress := r.has .progress }

def batchArgs (r : Reading) : Except UsageError BatchArgs := do
  pure
    { indir := ← r.required .indir
      outfile := ← r.required .outfile
      search := r.searchArgs
      progress := r.has .progress }

def sweepArgs (r : Reading) : Except UsageError SweepArgs := do
  let _ ← r.required .range
  pure
    { range := (r.values .range).filterMap fun v => Numeral.count? v.toList
      runs := r.count? .runs
      clausesPerVar := r.real? .clausesPerVar
      outfile := ← r.required .outfile
      search := r.searchArgs
      progress := r.has .progress }

def analyseArgs (r : Reading) : Except UsageError AnalyseArgs := do
  pure { csv := ← r.required .csv }

end Reading

/-- The level of a command, and what its options mean. -/
def commandNamed : String → Option (Level × (Reading → Except UsageError Command))
  | "solve" => some (solveLevel, fun r => Command.solve <$> r.solveArgs)
  | "batch" => some (batchLevel, fun r => Command.batch <$> r.batchArgs)
  | "sweep" => some (sweepLevel, fun r => Command.sweep <$> r.sweepArgs)
  | "analyse" => some (analyseLevel, fun r => Command.analyse <$> r.analyseArgs)
  | _ => none

/-- What asking for help leads to: help exists for every command and for asking itself. -/
def helpFor : List String → UsageError
  | [] => .help
  | [topic] => if topLevel.commands.contains topic then .help else .invalidSubcommand
  | _ => .invalidSubcommand

/-- A command line without a command. -/
def withoutCommand (top : Reading) : UsageError :=
  if top.given.isEmpty then .helpOnMissing else .missingSubcommand

/-- The most that repeating an option counts. -/
def maxCount : Nat := 255

/-- Common options count where the command was given them, else where the whole line was. -/
def invocation (top inner : Reading) (command : Command) : Invocation :=
  { verbosity := min maxCount
      (if inner.has .verbose then inner.count .verbose else top.count .verbose)
    quiet := inner.has .quiet || top.has .quiet
    logFile := (inner.value? .logFile).or (top.value? .logFile)
    threads := (inner.count? .threads).or (top.count? .threads)
    command }

/-- Reads the words of a command line, without the program's name. The command's own words are
judged before the end of what precedes it. -/
def parse (words : List String) : Except UsageError Invocation := do
  match ← topLevel.read {} words with
  | (top, none) => .error (withoutCommand (← top.settle))
  | (top, some (name, rest)) =>
    match commandNamed name with
    | none => .error (helpFor rest)
    | some (level, meaning) =>
      let (inner, _) ← level.read {} rest
      let inner ← inner.settle
      inner.checkConflicts
      let command ← meaning inner
      let top ← top.settle
      top.checkConflicts
      pure (invocation top inner command)

end Usage

end SatSearch
