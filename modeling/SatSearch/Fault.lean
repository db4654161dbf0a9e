/-!
# Faults

What can stop an operation apart from the errors of its domain: an index past the end of a table,
a table that cannot be laid out in memory, and a random draw that no word of the generator's
period satisfies. The main runs of the library are stated in `Except Fault`, so that "no index is
ever out of range" is a statement about their results.
-/

namespace SatSearch

inductive Fault where
  /-- A table of `length` entries was asked for entry `index`. -/
  | outOfRange (length index : Nat)
  /-- A table would need more than `2 ^ 63 - 1` bytes. -/
  | capacityOverflow
  /-- Every word of the generator's period was rejected. -/
  | endlessDraw
  deriving DecidableEq, Repr, Inhabited

def Fault.message : Fault → String
  | .outOfRange length index =>
    s!"index out of bounds: the len is {length} but the index is {index}"
  | .capacityOverflow => "capacity overflow"
  | .endlessDraw => "no draw is accepted"

/-- The entry at `i`, or the fault that says there is none. -/
def entryAt {α : Type} (table : Array α) (i : Nat) : Except Fault α :=
  match table[i]? with
  | some a => .ok a
  | none => .error (.outOfRange table.size i)

theorem entryAt_eq_ok_iff {α : Type} {table : Array α} {i : Nat} {a : α} :
    entryAt table i = .ok a ↔ table[i]? = some a := by
  unfold entryAt
  split <;> simp_all

theorem entryAt_eq_error_iff {α : Type} {table : Array α} {i : Nat} {f : Fault} :
    entryAt table i = .error f ↔ table.size ≤ i ∧ f = .outOfRange table.size i := by
  unfold entryAt
  split
  · next h =>
    have := (Array.getElem?_eq_some_iff.1 h).1
    simp
    omega
  · next h => simp [Array.getElem?_eq_none_iff.1 h, eq_comm]

/-- The largest number of bytes that one table may take, `2 ^ 63 - 1`. -/
def maxTableBytes : Nat := 9223372036854775807

/-- Refuses a table of `count` entries of `entryBytes` bytes each that no memory can hold. -/
def reserve (count entryBytes : Nat) : Except Fault Unit :=
  if count * entryBytes ≤ maxTableBytes then .ok () else .error .capacityOverflow

end SatSearch
