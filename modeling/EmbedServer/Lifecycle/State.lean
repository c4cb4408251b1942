/-
The states a server goes through.  It never goes back.
-/

namespace EmbedServer.Lifecycle

inductive State where
  | created
  | starting
  | running
  | stopping
  | stopped
  deriving DecidableEq, Repr

namespace State

def all : List State := [.created, .starting, .running, .stopping, .stopped]

/-- The place of a state in the order in which they are gone through. -/
def rank : State → Nat
  | .created => 0
  | .starting => 1
  | .running => 2
  | .stopping => 3
  | .stopped => 4

def name : State → String
  | .created => "Created"
  | .starting => "Starting"
  | .running => "Running"
  | .stopping => "Stopping"
  | .stopped => "Stopped"

instance : Ord State := ⟨fun a b => compare a.rank b.rank⟩

/-- The later of two states. -/
def advance (current next : State) : State := if current.rank < next.rank then next else current

end State

end EmbedServer.Lifecycle
