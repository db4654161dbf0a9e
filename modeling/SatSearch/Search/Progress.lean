/-!
# Progress events

What a run tells a listener: phases, and within them tasks that advance by steps. A reporter keeps
the events in order; without a listener it keeps none.

Models `Progress` and `ProgressReporter`.
-/

namespace SatSearch

inductive ProgressEvent where
  | phaseStart (name : String)
  | phaseFinish
  | taskStart (totalSteps : Nat)
  | taskAdvance (steps : Nat)
  | taskFinish
  deriving DecidableEq, Repr

structure Reporter where
  listening : Bool
  events : Array ProgressEvent := #[]

namespace Reporter

def silent : Reporter := { listening := false }

def attentive : Reporter := { listening := true }

def report (r : Reporter) (event : ProgressEvent) : Reporter :=
  if r.listening then { r with events := r.events.push event } else r

end Reporter

end SatSearch
