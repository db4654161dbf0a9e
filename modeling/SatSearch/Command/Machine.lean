import SatSearch.Command.FileTree
/-!
# Machines

What commands run on, as a value: a tree of files, a clock that may show anything, generators that
need no seed, and what was printed. Whatever a command does changes the machine right away.
-/

namespace SatSearch

structure Machine where
  tree : FileTree
  /-- What the clock shows when it is read for the `n`-th time. -/
  clock : Nat → Float := fun _ => 0.0
  /-- The generators that need no seed. -/
  fresh : Nat → Generator := fun i => .ofSeed (UInt64.ofNat i)
  /-- How often the clock was read. -/
  readings : Nat := 0
  printed : String := ""

namespace Machine

/-- Changes the files of a machine, unless that cannot be done. -/
def change (f : FileTree → Except FileError FileTree) : StateM Machine (Except FileError Unit) := fun M =>
  match f M.tree with
  | .ok tree => (.ok (), { M with tree })
  | .error e => (.error e, M)

instance : Host (StateM Machine) where
  contents path := fun M => (M.tree.contents path, M)
  isDirectory path := fun M => (M.tree.isDirectory path, M)
  listFiles path := fun M => (M.tree.listFiles path, M)
  timed find := fun M => ((find (), M.clock M.readings), { M with readings := M.readings + 1 })
  fresh := fun M => (M.fresh, M)

instance : Outlet (StateM Machine) where
  create path := change fun t => t.write path .empty
  append path text := change fun t => t.append path text.toUTF8
  print text := fun M => ((), { M with printed := M.printed ++ text })

/-- How work ends on a machine, and the machine that it leaves. -/
def ends {α : Type} (M : Machine) (work : Work (StateM Machine) α) : Except Stop α × Machine := work.run M

end Machine

/-- What is left after a command: the error if it failed, the text it printed, and the tree. -/
structure FileTree.Result where
  error : Option CommandError := none
  printed : String := ""
  tree : FileTree

/-- Does the work of a command on a machine. -/
def Machine.run (M : Machine) (work : Work (StateM Machine) Unit) : Except Fault FileTree.Result :=
  match M.ends work with
  | (.ok _, M) => .ok { printed := M.printed, tree := M.tree }
  | (.error (.error e), M) => .ok { error := some e, printed := M.printed, tree := M.tree }
  | (.error (.fault fault), _) => .error fault

/-- Does the work of a command on a tree, where it takes no time. -/
def FileTree.run (t : FileTree) (work : Work (StateM Machine) Unit) : Except Fault Result :=
  Machine.run { tree := t } work

end SatSearch
