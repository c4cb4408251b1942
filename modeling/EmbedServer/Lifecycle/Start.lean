/-
Starting: the address is bound, health is published, and only then the server runs.

A key with an override is never published as anything but its overrides.
-/
import EmbedServer.Lifecycle.Act
import EmbedServer.Net.Listen

namespace EmbedServer.Lifecycle

/-- What becomes of the attempt to bind an address. -/
inductive Binding where
  | failed (e : StartupError)
  /-- The address is bound, but cannot be told. -/
  | nameless (e : StartupError)
  | bound (address : Net.SocketAddress)
  deriving DecidableEq, Repr

/-- Binds the address that a text stands for. -/
def bind (m : Net.Machine) (text : String) : Binding :=
  match Net.resolve text with
  | .error reason => .failed (.invalidAddress text reason)
  | .ok a =>
    match m.listen a with
    | .error cause => .failed (.bind a.text cause)
    | .ok place => .bound place

/-- The health that is published: the keys without overrides serve, and overrides say what they
say. -/
def publishing (keys : List String) (overrides : List (String × Health.Status)) : List Act :=
  (keys.filter fun k => !(overrides.map Prod.fst).contains k).map (.publish · .serving)
    ++ overrides.map fun (k, s) => .publish k s

/-- The acts of a start. -/
def startActs (stages : List Call.Stage) (keys : List String)
    (overrides : List (String × Health.Status)) : Binding → List Act
  | .failed e =>
    [.advance .starting, .tell .error ("Startup failed: " ++ e.message), .advance .stopped]
  | .nameless _ => [.advance .starting, .advance .stopped]
  | .bound a =>
    [.advance .starting,
        .tell .info ("Interceptors: " ++ Text.quotedList (stages.map Call.Stage.name))]
      ++ publishing keys overrides
      ++ [.advance .running, .tell .info ("Serving on " ++ a.text)]

end EmbedServer.Lifecycle
