/-!
# Process and turn states

The two enumerations of `state/mod.rs` with their predicates and the texts that
`StateChange` events carry.
-/

namespace Ccgonext

inductive ProcessState
  | stopped
  | starting
  | running
  | dead
  deriving DecidableEq, Repr

namespace ProcessState

def toText : ProcessState → String
  | .stopped => "STOPPED"
  | .starting => "STARTING"
  | .running => "RUNNING"
  | .dead => "DEAD"

def canStart : ProcessState → Bool
  | .stopped | .dead => true
  | .starting | .running => false

end ProcessState

inductive TurnState
  | idle
  | prompting
  | cancelling
  deriving DecidableEq, Repr

namespace TurnState

def toText : TurnState → String
  | .idle => "IDLE"
  | .prompting => "PROMPTING"
  | .cancelling => "CANCELLING"

def canPrompt : TurnState → Bool
  | .idle => true
  | .prompting | .cancelling => false

end TurnState

end Ccgonext
