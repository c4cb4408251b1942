/-
Remembering answers.

A cache stands in front of another backend and remembers the vectors it answered, by the digest of
the text.  Failures are not remembered.  Closing forgets everything and closes the backend behind.
-/
import EmbedServer.Backend.Basic
import EmbedServer.Digest.Sha256
import EmbedServer.Text.Utf8

namespace EmbedServer.Backend

/-- The state of the backend behind, and the vectors remembered. -/
structure CacheState (σ : Type) where
  inner : σ
  known : List (String × List Float)

/-- The key under which the answer to a text is remembered. -/
def cacheKey (text : String) : String := "emb_" ++ Sha256.hexDigest (Utf8.encode text)

/-- Remembers a success. -/
def remember (key : String) (a : Answer) (known : List (String × List Float)) :
    List (String × List Float) :=
  match a with
  | .ok vector => (key, vector) :: known
  | .error _ => known

/-- A cache in front of a backend. -/
def cached {σ : Type} (inner : Backend σ) : Backend (CacheState σ) where
  name := "cached"
  compute state text :=
    let key := cacheKey text
    match state.known.lookup key with
    | some vector =>
      { begun := state
        events := [.plain .cache .debug ("Cache hit for key: " ++ key)]
        takes := some .zero
        answer := .ok vector }
    | none =>
      let c := inner.compute state.inner text
      { begun := { state with inner := c.begun }
        events := c.events
        takes := c.takes
        answer := c.answer
        finalEvents := c.finalEvents
        settle := fun s =>
          { s with inner := c.settle s.inner, known := remember key c.answer s.known } }
  close state :=
    let c := inner.close state.inner
    ⟨c.events, c.takes, fun s => ⟨c.settle s.inner, []⟩⟩

/-- What the log says about a new cache. -/
def cacheEvent (size : Nat) (ttl : Duration) : Log.Event :=
  .plain .cache .info
    ("Initializing backend cache with max_size=" ++ toString size ++ ", ttl=" ++ ttl.text)

end EmbedServer.Backend
