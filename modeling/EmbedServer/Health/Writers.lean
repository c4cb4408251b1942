/-
Writers of one registry that come in between one another.

`Registry.set`, `Registry.setAll` and `Registry.freeze` do everything at once.  Here each of them is a
call that takes turns with the others.  In its first turn a call looks at the flag, or puts it up, and
finds the keys that it has to write; in every later turn it writes one of them.  Nobody looks at the
flag again before he writes.

The order of the turns is open, and so is the order in which a call writes its keys.  A turn that does
not make sense where it comes changes nothing.
-/
import EmbedServer.Health.Registry

namespace EmbedServer.Health

/-- What a call writes. -/
inductive Write where
  | set (key : String) (status : Status)
  | setAll (status : Status)
  | freeze
  deriving DecidableEq, Repr

namespace Write

/-- The status that is written. -/
def status : Write → Status
  | .set _ status | .setAll status => status
  | .freeze => .notServing

/-- The registry after the first turn of a call. -/
def look (r : Registry) : Write → Registry
  | .set .. | .setAll _ => r
  | .freeze => { r with frozen := true }

/-- The keys that a call has to write after its first turn. -/
def finds (r : Registry) : Write → List String
  | .set key _ => if r.frozen then [] else [key]
  | .setAll _ => if r.frozen then [] else r.keys
  | .freeze => r.keys

/-- The registry after a call that has done everything at once. -/
def atOnce (r : Registry) : Write → Registry
  | .set key status => r.set key status
  | .setAll status => r.setAll status
  | .freeze => r.freeze

end Write

/-- A call, and the keys that it still has to write: `none` before its first turn, none left once it
has returned. -/
structure Writer where
  write : Write
  pending : Option (List String)
  deriving DecidableEq, Repr

/-- A registry and the calls that have been made on it, numbered from the first. -/
structure Writing where
  registry : Registry
  writers : List Writer
  deriving DecidableEq, Repr

/-- One turn. -/
inductive Writing.Turn where
  /-- One more call is made. -/
  | begin (w : Write)
  /-- The call with this number has its first turn. -/
  | look (i : Nat)
  /-- The call with this number writes a key. -/
  | store (i : Nat) (key : String)
  deriving DecidableEq, Repr

namespace Writing

def step (s : Writing) : Turn → Writing
  | .begin w => { s with writers := s.writers ++ [⟨w, none⟩] }
  | .look i =>
    match s.writers[i]? with
    | some ⟨w, none⟩ =>
      ⟨w.look s.registry, s.writers.set i ⟨w, some (w.finds s.registry)⟩⟩
    | _ => s
  | .store i key =>
    match s.writers[i]? with
    | some ⟨w, some keys⟩ =>
      if key ∈ keys then
        ⟨s.registry.store key w.status, s.writers.set i ⟨w, some (keys.erase key)⟩⟩
      else s
    | _ => s

def run (s : Writing) (turns : List Turn) : Writing := turns.foldl step s

/-- Some freeze has returned. -/
def Returned (s : Writing) : Prop := ⟨.freeze, some []⟩ ∈ s.writers

instance (s : Writing) : Decidable s.Returned :=
  inferInstanceAs (Decidable (_ ∈ s.writers))

/-- The writes of calls that have looked at the flag and are not done. -/
def owed (s : Writing) : List (String × Status) :=
  s.writers.flatMap fun w => (w.pending.getD []).map (·, w.write.status)

end Writing

end EmbedServer.Health
