/-
A registry together with its followers, and everything that can be done to them.
-/
import EmbedServer.Health.Watch

namespace EmbedServer.Health

/-- A registry and the followers opened on it or on one before it, by name. -/
structure Session where
  registry : Registry
  watches : List (String × Watch)
  deriving DecidableEq, Repr

namespace Session

/-- What can be done. -/
inductive Op where
  | set (key : String) (status : Status)
  | setAll (status : Status)
  | freeze
  | get (key : String)
  | isFrozen
  | snapshot
  | open (id key : String)
  | poll (id : String)
  | close (id : String)
  /-- Drops the registry and begins a new one. -/
  | reset

/-- Whether something is done that writes nothing. -/
def Op.looks : Op → Bool
  | .get _ | .isFrozen | .snapshot | .open .. | .poll _ | .close _ => true
  | .set .. | .setAll _ | .freeze | .reset => false

/-- What is answered. -/
inductive Answer where
  | status (s : Status)
  | flag (b : Bool)
  | snapshot (entries : List (String × Status))
  | poll (p : Watch.Poll)
  | unknownWatch
  | done

def empty : Session := ⟨Registry.empty, []⟩

/-- The followers without the named one. -/
def without (s : Session) (id : String) : List (String × Watch) :=
  s.watches.filter fun w => w.1 != id

def step (s : Session) : Op → Answer × Session
  | .set key status =>
    let r := s.registry.set key status
    (.status (r.get key), { s with registry := r })
  | .setAll status =>
    let r := s.registry.setAll status
    (.snapshot r.snapshot, { s with registry := r })
  | .freeze =>
    let r := s.registry.freeze
    (.snapshot r.snapshot, { s with registry := r })
  | .get key => (.status (s.registry.get key), s)
  | .isFrozen => (.flag s.registry.frozen, s)
  | .snapshot => (.snapshot s.registry.snapshot, s)
  | .open id key => (.done, { s with watches := (id, Watch.start s.registry key) :: s.without id })
  | .poll id =>
    match s.watches.lookup id with
    | none => (.unknownWatch, s)
    | some w =>
      let (answer, w) := w.poll s.registry
      (.poll answer, { s with watches := (id, w) :: s.without id })
  | .close id => (.flag (s.watches.lookup id).isSome, { s with watches := s.without id })
  | .reset =>
    (.snapshot [], ⟨Registry.empty, s.watches.map fun (id, w) => (id, w.release s.registry)⟩)

/-- The answers to a sequence of operations, and what is left. -/
def run (s : Session) : List Op → List Answer × Session
  | [] => ([], s)
  | op :: rest =>
    let (answer, s) := s.step op
    let (answers, s) := run s rest
    (answer :: answers, s)

end Session

end EmbedServer.Health
