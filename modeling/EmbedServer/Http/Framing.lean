/-
How long a body may be, and how it comes.

A request may declare the size of its body, and the body comes in pieces.  `Fits` says what the two sizes
have to be for a body to get in under a limit, without a word on who looks at them.  Whoever reads a body
has room for so many bytes and takes piece after piece, and the first piece that does not fit ends it all.
-/
import EmbedServer.Http.Server

namespace EmbedServer.Http

/-- A body is within the limit, and within the size that the request declares, which is within the limit
itself.  A limit of zero is none, and then it does not matter what is declared. -/
def Request.Fits (r : Request) (limit : Limit) : Prop :=
  limit = 0 ∨ r.body.length ≤ limit ∧ ∀ d, r.declared? = some d → d ≤ limit ∧ r.body.length ≤ d

/-- Reads the pieces of a body with room for so many bytes, or for any number; nothing if one of them does
not fit. -/
def gather? : (room : Option Nat) → List (List UInt8) → Option (List UInt8)
  | _, [] => some []
  | none, piece :: rest => (gather? none rest).map (piece ++ ·)
  | some n, piece :: rest =>
    if n < piece.length then none else (gather? (some (n - piece.length)) rest).map (piece ++ ·)

/-- The message of a call to this place in these bytes, if there is one. -/
def Route.decode? (bytes : List UInt8) : Route → Option Call.Request
  | .predict => (Json.Reader.runFront Call.Chunk.shape bytes).toOption.map .predict
  | .check => (Json.Reader.runFront Call.HealthQuery.shape bytes).toOption.map .check
  | .watch | .probeAll | .probe _ | .metrics => none

/-- The call that a request makes under a limit, with its context: the message in a body that gets in. -/
def Request.call? (r : Request) (limit : Limit) : Option (Call.Context × Call.Request) := do
  let route ← Route.ofPath? r.target.path
  if route.takes r.method && !r.declaresTooMuch limit && r.saysJson then
    let body ← gather? (r.allowance? limit) r.pieces
    let request ← route.decode? body
    some (⟨request.method, r.metadata⟩, request)
  else none

/-- The headers that tell how a body comes. -/
def framing : List String := ["content-length", "transfer-encoding"]

/-- The other headers of a request. -/
def Request.unframed (r : Request) : List Header := r.headers.filter fun h => !framing.contains h.1

/-- The second request is the first one with its body streamed: it does not declare a size, and the body may
come in any pieces. -/
structure Request.Streams (r r' : Request) : Prop where
  method : r'.method = r.method
  target : r'.target = r.target
  headers : r'.unframed = r.unframed
  undeclared : r'.header? "content-length" = none
  body : r'.body = r.body

end EmbedServer.Http
