/-
What a history of operations says of a key, and of a follower, by itself.

A key is there once it has been set, if that was before the first freeze.  From then on it goes along
with whatever is set for all keys, and before that it does not.

A key is written whenever a status is put under it, be it the one it had.  What a follower hears is the
answers to its own polls.
-/
import EmbedServer.Health.Session

namespace EmbedServer.Health.Session

/-- Whether an operation freezes the registry. -/
def Op.isFreeze : Op → Bool
  | .freeze => true
  | _ => false

/-- Whether an operation sets this key by itself. -/
def Op.sets (key : String) : Op → Bool
  | .set k _ => k == key
  | _ => false

/-- The status that an operation gives to a key that is there. -/
def Op.gives? (key : String) : Op → Option Status
  | .set k status => if k = key then some status else none
  | .setAll status => some status
  | _ => none

/-- What comes before the first freeze. -/
def live (history : List Op) : List Op := history.takeWhile (!·.isFreeze)

/-- Whether a key is there after a history. -/
def adds (history : List Op) (key : String) : Bool := (live history).any (Op.sets key)

/-- The status that a key has been given last in a history without a freeze, from the first time on
that it was set by itself. -/
def lastGiven? (history : List Op) (key : String) : Option Status :=
  ((history.dropWhile (!Op.sets key ·)).filterMap (Op.gives? key)).getLast?

/-- Whether an operation writes to a key of a registry. -/
def Op.writes (r : Registry) (key : String) : Op → Bool
  | .set k _ => !r.frozen && k == key
  | .setAll _ => !r.frozen && decide (key ∈ r.keys)
  | .freeze => decide (key ∈ r.keys)
  | _ => false

/-- Whether a key is written in a run. -/
def written (key : String) (s : Session) : List Op → Bool
  | [] => false
  | op :: rest => op.writes s.registry key || written key (s.step op).2 rest

/-- Whether an operation polls a follower. -/
def Op.polls (id : String) : Op → Bool
  | .poll i => i == id
  | _ => false

/-- Whether an operation leaves a follower open, and the same. -/
def Op.leaves (id : String) : Op → Bool
  | .open i _ | .close i => i != id
  | _ => true

/-- Whether an operation is about a follower only. -/
def Op.concerns (id : String) : Op → Bool
  | .open i _ | .poll i | .close i => i == id
  | _ => false

/-- The answers to the polls of a follower in a run. -/
def heard (id : String) (s : Session) (ops : List Op) : List Answer :=
  ((ops.zip (s.run ops).1).filter fun entry => entry.1.polls id).map Prod.snd

/-- The answers to a number of polls: a status once, if there is one, and then the end. -/
def onceThenEnd (last : Option Status) (polls : Nat) : List Answer :=
  (last.toList.map (fun status => Answer.poll (.yields status)) ++
    List.replicate polls (Answer.poll .ended)).take polls

end EmbedServer.Health.Session
