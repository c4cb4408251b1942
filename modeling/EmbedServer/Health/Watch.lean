/-
Following one key of a registry.

A follower yields the present status at its first poll, and later on whenever the key has been
written since it last yielded.  Statuses in between are lost, the last one never is.  When the
registry is gone, a status not yet seen is yielded once more before the end.  A key that does not
exist yields one "unknown" and ends, whatever is written later.
-/
import EmbedServer.Health.Registry

namespace EmbedServer.Health

/-- A follower of one key. -/
inductive Watch where
  /-- Follows a key that exists; `seen` counts the writes at the last yield. -/
  | following (key : String) (seen : Option Nat)
  /-- Has at most one more status to yield. -/
  | ending (last : Option Status)
  deriving DecidableEq, Repr

/-- The answer to a poll. -/
inductive Watch.Poll where
  | yields (status : Status)
  | pending
  | ended
  deriving DecidableEq, Repr

namespace Watch

/-- Starts to follow a key. -/
def start (r : Registry) (key : String) : Watch :=
  match r.find? key with
  | some _ => .following key none
  | none => .ending (some .unknown)

/-- What the log says about following a key. -/
def startEvents (r : Registry) (key : String) : List Log.Event :=
  match r.find? key with
  | some _ => []
  | none => [.plain .health .debug ("Watch on unregistered health key '" ++ key ++ "'")]

/-- One poll. -/
def poll (r : Registry) : Watch → Poll × Watch
  | .following key seen =>
    match r.find? key with
    | none => (.pending, .following key seen)
    | some e =>
      if seen = some e.version then (.pending, .following key seen)
      else (.yields e.status, .following key (some e.version))
  | .ending (some s) => (.yields s, .ending none)
  | .ending none => (.ended, .ending none)

/-- The follower once the registry is gone. -/
def release (r : Registry) : Watch → Watch
  | .following key seen =>
    match r.find? key with
    | none => .ending none
    | some e => .ending (if seen = some e.version then none else some e.status)
  | .ending last => .ending last

end Watch

end EmbedServer.Health
