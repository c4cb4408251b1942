/-
What the server says about the health of its services.

A registry holds one status per key, in the order of the keys, and a count of the writes to each
key.  The count is what a follower compares to tell whether it has missed something; a write of an
equal status counts as well.  Freezing writes "not serving" to every key, and from then on no status
changes and no key is added.
-/
import EmbedServer.Log

namespace EmbedServer.Health

/-- The status of one key. -/
inductive Status where
  | unknown
  | serving
  | notServing
  deriving DecidableEq, Repr, Inhabited

namespace Status

/-- The word for a status in messages between client and server. -/
def wire : Status → String
  | .unknown => "UNKNOWN"
  | .serving => "SERVING"
  | .notServing => "NOT_SERVING"

/-- The word for a status in the log. -/
def shown : Status → String
  | .unknown => "Unknown"
  | .serving => "Serving"
  | .notServing => "NotServing"

/-- The words a message may use. -/
def choices : List (String × Status) :=
  [("UNKNOWN", .unknown), ("SERVING", .serving), ("NOT_SERVING", .notServing)]

end Status

/-- A key's status and the number of writes that led to it. -/
structure Entry where
  status : Status
  version : Nat
  deriving DecidableEq, Repr

/-- Statuses by key, the keys in increasing order. -/
structure Registry where
  entries : List (String × Entry)
  frozen : Bool
  deriving DecidableEq, Repr

namespace Registry

def empty : Registry := ⟨[], false⟩

/-- Writes one key's status into sorted entries, adding the key if it is new. -/
def write (key : String) (status : Status) : List (String × Entry) → List (String × Entry)
  | [] => [(key, ⟨status, 1⟩)]
  | (k, e) :: rest =>
    if key = k then (k, ⟨status, e.version + 1⟩) :: rest
    else if key < k then (key, ⟨status, 1⟩) :: (k, e) :: rest
    else (k, e) :: write key status rest

/-- Writes every key's status. -/
def writeAll (status : Status) (entries : List (String × Entry)) : List (String × Entry) :=
  entries.map fun (k, e) => (k, ⟨status, e.version + 1⟩)

/-- The keys there are. -/
def keys (r : Registry) : List String := r.entries.map Prod.fst

/-- The entry of a key. -/
def find? (r : Registry) (key : String) : Option Entry := r.entries.lookup key

/-- The status of a key; one that was never set is unknown. -/
def get (r : Registry) (key : String) : Status := ((r.find? key).map Entry.status).getD .unknown

/-- Writes a key's status, frozen or not. -/
def store (r : Registry) (key : String) (status : Status) : Registry :=
  { r with entries := write key status r.entries }

/-- Sets a key's status unless the registry is frozen. -/
def set (r : Registry) (key : String) (status : Status) : Registry :=
  if r.frozen then r else r.store key status

/-- Sets the status of every key there is, unless the registry is frozen. -/
def setAll (r : Registry) (status : Status) : Registry :=
  if r.frozen then r else { r with entries := writeAll status r.entries }

/-- Freezes the registry with every key not serving. -/
def freeze (r : Registry) : Registry := ⟨writeAll .notServing r.entries, true⟩

/-- Every key with its status, in the order of the keys. -/
def snapshot (r : Registry) : List (String × Status) := r.entries.map fun (k, e) => (k, e.status)

/-- What the log says about setting a key. -/
def setEvent (r : Registry) (key : String) (status : Status) : Log.Event :=
  .plain .health .debug <|
    if r.frozen then "Ignoring health update for '" ++ key ++ "' during shutdown"
    else "Health status for '" ++ key ++ "' set to " ++ status.shown

end Registry

end EmbedServer.Health
