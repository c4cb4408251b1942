/-
A registry that is written while somebody follows it.

What a stream has before it is the registry, and the signal that no more calls are taken.  Both may change
at any time, and in between the stream is polled.  A history says in which order all this happens, and the
answers to the polls follow from it: those of the stream, and those of a follower of the registry itself
that is polled at the same moments.

The registry is written by calls that do everything at once, or key by key by calls that others come in
between.  Nobody who follows can tell one from the other.
-/
import EmbedServer.Cancellation
import EmbedServer.Health.Writers
import EmbedServer.Http.Follow

namespace EmbedServer.Http

open Health (Registry Watch Write)
open Health.Watch (Poll)

/-- What there is to see for somebody who follows a key. -/
structure Scene where
  registry : Registry
  /-- Fires when no more calls are taken. -/
  draining : Cancellation.Signal
  deriving DecidableEq, Repr

namespace Scene

/-- Something in a history. -/
inductive Move where
  /-- A call writes the registry. -/
  | write (w : Write)
  /-- A call that has looked at the flag before writes one of its keys. -/
  | store (key : String) (status : Health.Status)
  /-- No more calls are taken. -/
  | drain
  /-- Whoever follows is polled. -/
  | poll
  deriving DecidableEq, Repr

def step (c : Scene) : Move → Scene
  | .write w => { c with registry := w.atOnce c.registry }
  | .store key status => { c with registry := c.registry.store key status }
  | .drain => { c with draining := c.draining.fire.2 }
  | .poll => c

def run (c : Scene) (moves : List Move) : Scene := moves.foldl step c

/-- The answer to a move, if it is a poll, of somebody who is asked in this way; and what he is then. -/
def answer {α : Type} (ask : Scene → α → Poll × α) (c : Scene) (a : α) : Move → List Poll × α
  | .poll => ([(ask c a).1], (ask c a).2)
  | .write _ | .store .. | .drain => ([], a)

/-- The answers to the polls in a history, and what he who gave them is in the end. -/
def polled {α : Type} (ask : Scene → α → Poll × α) : Scene → α → List Move → List Poll × α
  | _, a, [] => ([], a)
  | c, a, m :: rest =>
    let (answers, a) := answer ask c a m
    let (more, a) := polled ask (c.step m) a rest
    (answers ++ more, a)

/-- One poll of a stream. -/
def askStream (c : Scene) (f : Follow) : Poll × Follow := f.poll c.registry c.draining.ready

/-- One poll of a follower of the registry. -/
def askWatch (c : Scene) (w : Watch) : Poll × Watch := w.poll c.registry

/-- The answers of a stream that follows a key from now on, and what is left of it. -/
def stream (c : Scene) (key : String) (moves : List Move) : List Poll × Follow :=
  polled askStream c (.start c.registry key) moves

/-- The answers of a stream that follows a key from now on. -/
def told (c : Scene) (key : String) (moves : List Move) : List Poll := (c.stream key moves).1

/-- The answers of a follower of the registry that follows a key from now on. -/
def heard (c : Scene) (key : String) (moves : List Move) : List Poll :=
  (polled askWatch c (.start c.registry key) moves).1

/-- Whether all polls in a history come before the signal. -/
def inTime (c : Scene) : List Move → Bool
  | [] => true
  | m :: rest => (m != .poll || !c.draining.ready) && inTime (c.step m) rest

end Scene

/-- The status that an answer tells, if it tells one. -/
def toldStatus? : Poll → Option Health.Status
  | .yields s => some s
  | .pending | .ended => none

/-- The statuses that answers tell. -/
def toldStatuses (answers : List Poll) : List Health.Status := answers.filterMap toldStatus?

namespace Follow

/-- How often a look polls a stream; `fuel` bounds the number of polls. -/
def polls (r : Registry) (draining : Bool) : (fuel : Nat) → Follow → Nat
  | 0, _ => 0
  | fuel + 1, f =>
    match f.poll r draining with
    | (.yields _, f) => polls r draining fuel f + 1
    | _ => 1

/-- A piece of what a stream sends: a status, or a sign of life. -/
def piece : Option Health.Status → String
  | some s => event s
  | none => comment

/-- Whether a text is what a stream sends that tells these statuses: one event for each, and signs of life
in between. -/
def Sends (text : String) (statuses : List Health.Status) : Prop :=
  ∃ pieces : List (Option Health.Status),
    text = String.join (pieces.map piece) ∧ pieces.filterMap id = statuses

end Follow

end EmbedServer.Http
