/-
Following a key over the wire.

What a follower of the registry yields becomes one event each, until that follower ends or the server
begins to drain.  Then one more event tells the status of that moment, and the stream is over.  While
nothing happens, a comment every fifteen seconds shows that somebody is still there.
-/
import EmbedServer.Health.Watch
import EmbedServer.Http.Message

namespace EmbedServer.Http

structure Follow where
  key : String
  /-- The follower; `none` once the stream is over. -/
  watch : Option Health.Watch
  deriving DecidableEq, Repr

namespace Follow

open Health (Registry)
open Health.Watch (Poll)

/-- Starts to follow a key. -/
def start (r : Registry) (key : String) : Follow := ⟨key, some (.start r key)⟩

/-- One poll. -/
def poll (r : Registry) (draining : Bool) (f : Follow) : Poll × Follow :=
  match f.watch with
  | none => (.ended, f)
  | some w =>
    if draining then (.yields (r.get f.key), { f with watch := none })
    else match w.poll r with
      | (.yields s, w) => (.yields s, { f with watch := some w })
      | (.pending, w) => (.pending, { f with watch := some w })
      | (.ended, _) => (.yields (r.get f.key), { f with watch := none })

/-- Polls until nothing more comes; `fuel` bounds the number of polls. -/
def pollAll (r : Registry) (draining : Bool) : (fuel : Nat) → Follow → List Health.Status × Follow
  | 0, f => ([], f)
  | fuel + 1, f =>
    match f.poll r draining with
    | (.yields s, f) =>
      let (more, f) := pollAll r draining fuel f
      (s :: more, f)
    | (_, f) => ([], f)

/-- What has come since the last look.  Three polls are always enough: a follower that has yielded
is pending or ends, and after its end one status comes. -/
def take (r : Registry) (draining : Bool) (f : Follow) : List Health.Status × Follow :=
  f.pollAll r draining 3

/-- Whether the stream is over. -/
def isOver (f : Follow) : Bool := f.watch.isNone

/-- A status as an event. -/
def event (s : Health.Status) : String := "data: " ++ (Call.HealthReport.toJson ⟨s⟩).render ++ "\n\n"

/-- The sign of life of a stream that has nothing to tell. -/
def comment : String := ":\n\n"

/-- How long a stream may be silent. -/
def silence : Duration := .ofSecs 15

end Follow

end EmbedServer.Http
