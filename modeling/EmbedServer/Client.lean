/-
A client of the services.

It posts requests as JSON and reads the answers back: a success is the message that was asked for, a
failure is either an error of the services or, when the body is none, the status and the body as
they are.
-/
import EmbedServer.Call.Message
import EmbedServer.Http.Peer
import EmbedServer.Text.Marked

namespace EmbedServer

/-- A client that sends its requests to one place. -/
structure Client where
  baseUrl : String
  deriving DecidableEq, Repr

namespace Client

/-- Why a call has no answer to show. -/
inductive Error where
  /-- The services answered with an error. -/
  | rpc (e : Call.Error)
  /-- Somebody answered who does not speak for the services. -/
  | unexpectedStatus (status : Http.Status) (body : String)
  /-- Nobody answered. -/
  | unreachable
  /-- The answer to a successful call cannot be read. -/
  | unreadable (cause : String)
  deriving DecidableEq, Repr

def Error.message : Error → String
  | .rpc e => "Call failed: " ++ e.text
  | .unexpectedStatus status body =>
    "Unexpected HTTP status " ++ toString status ++ ": " ++ body
  | .unreachable => "Transport error: no response"
  | .unreadable cause => "Transport error: error decoding response body: " ++ cause

/-- A client for the server at an address; slashes at its end do not count. -/
def ofBaseUrl (url : String) : Client := ⟨String.ofList (Text.dropEndWhile (· = '/') url.toList)⟩

/-- A client for the server at a host and port. -/
def ofHostPort (host : String) (port : Nat) : Client :=
  ofBaseUrl ("http://" ++ host ++ ":" ++ toString port)

/-- The body of a request. -/
def bodyOf : Call.Request → String
  | .predict chunk => chunk.toJson.render
  | .check query => query.toJson.render

/-- What is sent for a request, if the client's address is one. -/
def posting? (c : Client) (r : Call.Request) : Option Http.Posting := do
  let url ← Net.Url.read? (c.baseUrl ++ r.method)
  some ⟨url, none, bodyOf r⟩

/-- What a failed call says. -/
def readFailure (status : Http.Status) (body : List UInt8) : Error :=
  let text := Text.decodeMarked body
  match Json.Reader.run Call.Error.shape (Utf8.encode text) with
  | .ok e => .rpc e
  | .error _ => .unexpectedStatus status text

/-- What a response, or its absence, says to somebody who asked for a message of the given shape. -/
def read {α : Type} (shape : Json.Reader α) : Option Http.Received → Except Error α
  | none => .error .unreachable
  | some r =>
    if r.status.isSuccess then
      match Json.Reader.run shape r.content with
      | .ok a => .ok a
      | .error e => .error (.unreadable (e.message r.content))
    else .error (readFailure r.status r.content)

/-- What a response says to somebody who asked for an embedding. -/
def readEmbedding (r : Option Http.Received) : Except Error Call.Embedding :=
  read Call.Embedding.shape r

/-- What a response says to somebody who asked for the health of a service. -/
def readStatus (r : Option Http.Received) : Except Error Health.Status :=
  (read Call.HealthReport.shape r).map Call.HealthReport.status

/-- Sends a request. -/
def send {σ : Type} (c : Client) (peer : Http.Peer σ) (s : σ) (r : Call.Request) :
    σ × Option Http.Received :=
  match c.posting? r with
  | some p => peer.answer s p
  | none => (s, none)

/-- Asks for the vector of a chunk. -/
def predict {σ : Type} (c : Client) (peer : Http.Peer σ) (s : σ) (chunk : Call.Chunk) :
    σ × Except Error Call.Embedding :=
  let (s, r) := c.send peer s (.predict chunk)
  (s, readEmbedding r)

/-- Asks for the health of a service; the empty name stands for the whole server. -/
def check {σ : Type} (c : Client) (peer : Http.Peer σ) (s : σ) (service : String) :
    σ × Except Error Health.Status :=
  let (s, r) := c.send peer s (.check ⟨service⟩)
  (s, readStatus r)

end Client

end EmbedServer
