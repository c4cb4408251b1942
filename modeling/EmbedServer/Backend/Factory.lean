/-
The backend that the settings ask for.
-/
import EmbedServer.Backend.Cache
import EmbedServer.Backend.Remote
import EmbedServer.Backend.Simple
import EmbedServer.Settings.Model

namespace EmbedServer.Backend

/-- Why a backend cannot be built. -/
inductive Refusal where
  /-- Answers would have to be remembered for longer than a cache can. -/
  | lifetimeTooLong (ttl : Duration)
  deriving DecidableEq, Repr

/-- What is said of it. -/
def Refusal.message : Refusal → String
  | .lifetimeTooLong _ => "time_to_live is longer than 1000 years"

/-- The longest time a cache can be told to remember answers for: a thousand years of 365 days. -/
def longestLifetime : Duration := .ofSecs (1000 * 365 * 24 * 3600)

/-- What the log says about a new backend. -/
def builtEvent (name : String) (cache : Bool) : Log.Event :=
  ⟨.backend, .info, "Compute backend initialized", [("backend", .text name), ("cache", .flag cache)]⟩

/-- How the settings have the remote executor reached. -/
def Remote.Options.ofSettings (b : Settings.Backend) : Remote.Options :=
  ⟨b.url, b.apiToken, b.model, b.maxRetries, b.timeout⟩

/-- The backend of the kind asked for, and what the log says about it; `peer` is the world outside. -/
def ofKind {σ : Type} (peer : Http.Peer σ) (s : σ) (b : Settings.Backend) :
    Packed × List Log.Event :=
  match b.kind with
  | .stub => (⟨Unit, stub b.stubVector (.ofMillis b.stubDelayMs), ()⟩, [])
  | .random => (⟨UInt64, random b.dimension, 0⟩, [])
  | .remote =>
    let o := Remote.Options.ofSettings b
    (⟨σ, remote o peer, s⟩, [o.openedEvent])

/-- The backend that the settings ask for, or why there is none, and what the log says until then. -/
def ofSettings {σ : Type} (peer : Http.Peer σ) (s : σ) (b : Settings.Backend) :
    Except Refusal Packed × List Log.Event :=
  let (p, events) := ofKind peer s b
  if b.cacheEnabled then
    let ttl := Duration.ofSecs b.cacheTtlSecs
    let events := events ++ [cacheEvent b.cacheSize ttl]
    if longestLifetime < ttl then (.error (.lifetimeTooLong ttl), events)
    else
      let c := cached p.backend
      (.ok ⟨CacheState p.State, c, ⟨p.state, []⟩⟩, events ++ [builtEvent c.name true])
  else (.ok p, events ++ [builtEvent p.backend.name false])

end EmbedServer.Backend
