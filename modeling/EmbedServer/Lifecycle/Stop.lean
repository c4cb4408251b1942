/-
Stopping, as the supervisor goes about it.

The supervisor sleeps until something makes it stop the server: the first stop request, the loss of
everybody who could make one, or the end of the transport.  It then freezes health, ends the taking
of calls, and waits for the transport; when the drain timeout is over it cancels what is left, waits
until the deadline, and gives up on the transport if it has to.  Last it closes the backend, again no
longer than to the deadline.

A step is what the supervisor does between two waits.
-/
import EmbedServer.Lifecycle.Act

namespace EmbedServer.Lifecycle

/-- What makes the supervisor stop the server. -/
inductive Cue where
  | request (drain : Duration)
  /-- Nobody is left who could ask. -/
  | abandoned
  /-- The transport has ended by itself. -/
  | exited
  deriving DecidableEq, Repr

/-- How long calls are waited for. -/
def Cue.drain : Cue → Duration
  | .request d => d
  | .abandoned | .exited => .zero

/-- Where the supervisor waits. -/
inductive Stage where
  | serving
  /-- For the transport, with this timeout up to `limit`. -/
  | draining (timeout : Duration) (limit deadline : Nat)
  /-- For the transport, after the cancellation. -/
  | cancelling (deadline : Nat)
  /-- For the backend, which will have let go at `endsAt`. -/
  | closing (endsAt : Option Nat) (deadline : Nat)
  | finished
  /-- The deadline was beyond the end of time, and the supervisor is no more. -/
  | lost
  deriving DecidableEq, Repr

/-- What the supervisor sees when it is awake. -/
structure Sight where
  now : Nat
  cue : Option Cue
  /-- Whether the transport has ended. -/
  transportDone : Bool
  inFlight : Nat
  backend : String
  /-- How long the backend takes to let go; `none` if it never does. -/
  closing : Option Duration
  deriving DecidableEq, Repr

/-- The end of time: moments count whole seconds in sixty-three bits. -/
def endOfTime : Nat := (Duration.ofSecs 0x8000000000000000).nanos

/-- The moment at which a stop has to be over, if there is such a moment. -/
def deadline? (now : Nat) (drain grace : Duration) : Option Nat :=
  let t := now + drain.nanos + grace.nanos
  if t < endOfTime then some t else none

namespace Stage

/-- The last acts, and the last wait if there is one. -/
def release (v : Sight) (deadline : Nat) : List Act × Stage :=
  if v.closing = some .zero then ([.close, .closed, .advance .stopped], .finished)
  else if deadline ≤ v.now then
    ([.close, late v.backend, .advance .stopped], .finished)
  else ([.close], .closing (v.closing.map (v.now + ·.nanos)) deadline)
where
  /-- The warning about a backend that is still not done. -/
  late (backend : String) : Act :=
    .tell .warn ("Backend '" ++ backend ++ "' did not close before the deadline")

/-- What is noted when the transport is done. -/
def drained : Act := .tell .debug "Transport drained"

/-- Waits no longer for the transport. -/
def giveUp (v : Sight) (deadline : Nat) : List Act × Stage :=
  let (acts, stage) := release v deadline
  (.tell .warn "Transport still busy after grace margin; aborting" :: .abort :: acts, stage)

/-- The first acts of a stop. -/
def beginning (cue : Cue) : List Act :=
  (match cue with
    | .exited => [.tell .error "Transport exited while running: Ok(Ok(()))"]
    | .request _ | .abandoned => [])
    ++ [.advance .stopping, .freeze, .drain,
      .tell .info ("Health set to NOT_SERVING; draining for up to " ++ cue.drain.text)]

/-- One step, if it is time for one. -/
def step (grace : Duration) (v : Sight) : Stage → Option (List Act × Stage)
  | .serving =>
    v.cue.map fun cue =>
      match deadline? v.now cue.drain grace with
      | none => ([], .lost)
      | some deadline =>
        if v.transportDone then
          let (acts, stage) := release v deadline
          (beginning cue ++ acts, stage)
        else (beginning cue, .draining cue.drain (v.now + cue.drain.nanos) deadline)
  | .draining timeout limit deadline =>
    if v.transportDone then
      let (acts, stage) := release v deadline
      some (drained :: acts, stage)
    else if limit ≤ v.now then
      if deadline ≤ v.now then
        let (acts, stage) := giveUp v deadline
        some (.exceed v.inFlight timeout :: .cancel :: acts, stage)
      else some ([.exceed v.inFlight timeout, .cancel], .cancelling deadline)
    else none
  | .cancelling deadline =>
    if v.transportDone then
      let (acts, stage) := release v deadline
      some (drained :: acts, stage)
    else if deadline ≤ v.now then some (giveUp v deadline)
    else none
  | .closing endsAt deadline =>
    if endsAt.any (· ≤ v.now) then some ([.closed, .advance .stopped], .finished)
    else if deadline ≤ v.now then some ([release.late v.backend, .advance .stopped], .finished)
    else none
  | .finished | .lost => none

/-- The next moment at which there may be a step without anything else happening. -/
def nextMoment : Stage → Option Nat
  | .draining _ limit _ => some limit
  | .cancelling deadline => some deadline
  | .closing endsAt deadline => some (match endsAt with
      | some t => min t deadline
      | none => deadline)
  | .serving | .finished | .lost => none

end Stage

end EmbedServer.Lifecycle
