import SatSearch.Command.Error
/-!
# What commands ask of their surroundings, and what they do to them

A command reads files and directories, has its work timed and takes generators for runs without a
seed; a `Host` is a monad that gives it these. It makes files, adds to them and prints while it is at
work, each where it comes to it; an `Outlet` is a monad that lets it. A command that is kept from its
end leaves behind what it had done before.
-/

namespace SatSearch

class Host (m : Type → Type) where
  contents : (path : String) → m (Except FileError ByteArray)
  isDirectory : (path : String) → m Bool
  /-- The names of the regular files in a directory, in any order. -/
  listFiles : (path : String) → m (Except FileError (List String))
  /-- A value, and the seconds it takes to find it. -/
  timed {α : Type} : (Unit → α) → m (α × Float)
  /-- A family of generators without a seed. -/
  fresh : m (Nat → Generator)

class Outlet (m : Type → Type) where
  /-- Makes an empty file, also in place of one that is there. -/
  create : (path : String) → m (Except FileError Unit)
  /-- Adds a text at the end of a file. -/
  append : (path text : String) → m (Except FileError Unit)
  print : (text : String) → m Unit

/-- A file of a command's results is a document or a table. -/
inductive OutputKind where
  | document
  | table
  deriving DecidableEq, Repr

/-- The error of a command whose output cannot be written. -/
def OutputKind.failure : OutputKind → FileError → CommandError
  | .document => .file
  | .table => .table

/-- The work of a command, which ends with a value or is stopped. -/
abbrev Work (m : Type → Type) := ExceptT Stop m

namespace Work

variable {m : Type → Type} [Monad m]

def ofHost {α : Type} (ask : m α) : Work m α := ExceptT.lift ask

/-- Ends the work with an error. -/
def fail {α : Type} (e : CommandError) : Work m α := throw (.error e)

/-- The value, or the end of the work with the error that `f` makes of another. -/
def orFail {α ε : Type} (f : ε → CommandError) : Except ε α → Work m α
  | .ok a => pure a
  | .error e => fail (f e)

/-- The value, or the end of the work with a fault. -/
def orFault {α : Type} : Except Fault α → Work m α
  | .ok a => pure a
  | .error fault => throw (.fault fault)

section
variable [Host m]

/-- The bytes of a file. -/
def bytes (failure : FileError → CommandError) (path : String) : Work m ByteArray := do
  let answer ← ofHost (Host.contents path)
  orFail failure answer

/-- A value found while the time is taken. -/
def timed {α : Type} (find : Unit → Except Fault α) : Work m (α × Float) := do
  let (answer, seconds) ← ofHost (Host.timed find)
  let a ← orFault answer
  pure (a, seconds)

end

/-- A draw from a generator. -/
def draw {α : Type} (d : Draw α) (g : Generator) : Work m α := do
  let (a, _) ← orFault (d g)
  pure a

/-! ## Results -/

variable [Outlet m]

/-- Makes an empty file for results. -/
def create (kind : OutputKind) (path : String) : Work m Unit := do
  let answer ← ofHost (Outlet.create path)
  orFail kind.failure answer

/-- Adds a text at the end of a file of results. -/
def append (kind : OutputKind) (path text : String) : Work m Unit := do
  let answer ← ofHost (Outlet.append path text)
  orFail kind.failure answer

/-- Writes a file as a whole. -/
def write (kind : OutputKind) (path text : String) : Work m Unit := do
  create kind path
  append kind path text

def print (text : String) : Work m Unit := ofHost (Outlet.print text)

/-- Prints a line. -/
def printLine (line : String) : Work m Unit := print (line ++ "\n")

end Work

end SatSearch
