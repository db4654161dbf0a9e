import SatSearch.Command.Host
import SatSearch.Text.Pieces
/-!
# Directory trees

Files and directories as a value: the entries of a tree by their places, each place the names on the
way to it from the root, and the directory from which other paths start. Writing to a tree gives a
tree, or tells why it cannot be done.
-/

namespace SatSearch

inductive FileNode where
  | file (bytes : ByteArray)
  | directory

structure FileTree where
  entries : List (List String × FileNode) := []
  start : List String := []

namespace FileTree

/-- What there is at a place; the root is a directory. -/
def node? (t : FileTree) : List String → Option FileNode
  | [] => some .directory
  | place => t.entries.lookup place

/-- The tree with a node at a place, instead of the one that was there. -/
def put (t : FileTree) (place : List String) (node : FileNode) : FileTree :=
  if t.entries.any (·.1 == place) then
    { t with entries := t.entries.map fun e => if e.1 == place then (place, node) else e }
  else { t with entries := t.entries ++ [(place, node)] }

/-! ## Paths -/

/-- The directory that is reached from another one by names in order. -/
def enter (t : FileTree) : (place names : List String) → Except FileError (List String)
  | place, [] => .ok place
  | place, name :: names =>
    if name = "" ∨ name = "." then enter t place names
    else if name = ".." then enter t place.dropLast names
    else match t.node? (place ++ [name]) with
      | some .directory => enter t (place ++ [name]) names
      | some (.file _) => .error .notDirectory
      | none => .error .missing

/-- A path as far as it leads through directories: the last of them, the name that is asked for in
it, and whether slashes follow the name. The name is missing when the path is that directory
itself. -/
structure Target where
  directory : List String
  name : Option String
  slashed : Bool

/-- The names in a path. -/
def names (path : String) : List String := (Pieces.pieces '/' path.toList).map String.ofList

/-- Whether a name stands for a way between directories. -/
def isStep (name : String) : Bool := name = "." || name = ".."

/-- Where a path leads to. -/
def target (t : FileTree) (path : String) : Except FileError Target :=
  if path.isEmpty then .error .missing
  else
    let all := names path
    let reversed := all.reverse.dropWhile (· = "")
    let slashed := reversed.length < all.length
    let origin := if path.startsWith "/" then [] else t.start
    match reversed with
    | [] => .ok ⟨[], none, slashed⟩
    | last :: before =>
      if isStep last then (enter t origin reversed.reverse).map fun place => ⟨place, none, slashed⟩
      else (enter t origin before.reverse).map fun place => ⟨place, some last, slashed⟩

/-- What a path leads to. -/
def find (t : FileTree) (path : String) : Except FileError (List String × FileNode) := do
  let target ← t.target path
  match target.name with
  | none => .ok (target.directory, .directory)
  | some name =>
    let place := target.directory ++ [name]
    match t.node? place with
    | none => .error .missing
    | some (.file bytes) =>
      if target.slashed then .error .notDirectory else .ok (place, .file bytes)
    | some .directory => .ok (place, .directory)

/-! ## Reading and writing -/

def contents (t : FileTree) (path : String) : Except FileError ByteArray :=
  match t.find path with
  | .ok (_, .file bytes) => .ok bytes
  | .ok (_, .directory) => .error .isDirectory
  | .error e => .error e

def isDirectory (t : FileTree) (path : String) : Bool :=
  match t.find path with
  | .ok (_, .directory) => true
  | _ => false

/-- The name of an entry that is a file directly in a directory. -/
def nameIn (directory : List String) : List String × FileNode → Option String
  | (place, .file _) =>
    match place.getLast? with
    | some name => if place.dropLast = directory then some name else none
    | none => none
  | (_, .directory) => none

def listFiles (t : FileTree) (path : String) : Except FileError (List String) :=
  match t.find path with
  | .ok (place, .directory) => .ok (t.entries.filterMap (nameIn place))
  | .ok (_, .file _) => .error .notDirectory
  | .error e => .error e

/-- The tree after a file was written. Only the directory that is to hold it must be there. -/
def write (t : FileTree) (path : String) (bytes : ByteArray) : Except FileError FileTree := do
  let target ← t.target path
  match target.name with
  | none => .error .isDirectory
  | some name =>
    if target.slashed then .error .isDirectory
    else
      let place := target.directory ++ [name]
      match t.node? place with
      | some .directory => .error .isDirectory
      | _ => .ok (t.put place (.file bytes))

/-- The tree after bytes were added at the end of a file that is there. -/
def append (t : FileTree) (path : String) (bytes : ByteArray) : Except FileError FileTree := do
  match ← t.find path with
  | (place, .file before) => .ok (t.put place (.file (before ++ bytes)))
  | (_, .directory) => .error .isDirectory

/-- A tree that stays as it is can be read. -/
instance : Host (ReaderM FileTree) where
  contents path := fun t => t.contents path
  isDirectory path := fun t => t.isDirectory path
  listFiles path := fun t => t.listFiles path
  timed find := fun _ => (find (), 0.0)
  fresh := fun _ i => .ofSeed (UInt64.ofNat i)

end FileTree

end SatSearch
