/-
The errors a caller can be answered with.
-/
import EmbedServer.Backend.Error
import EmbedServer.Json.Value

namespace EmbedServer.Call

/-- The class of an error. -/
inductive Code where
  | invalidArgument
  | backendUnavailable
  | shuttingDown
  | cancelled
  | internal
  deriving DecidableEq, Repr, Inhabited

namespace Code

/-- The word for a class in messages between client and server. -/
def wire : Code → String
  | .invalidArgument => "INVALID_ARGUMENT"
  | .backendUnavailable => "BACKEND_UNAVAILABLE"
  | .shuttingDown => "SHUTTING_DOWN"
  | .cancelled => "CANCELLED"
  | .internal => "INTERNAL"

/-- The word for a class in the log. -/
def shown : Code → String
  | .invalidArgument => "InvalidArgument"
  | .backendUnavailable => "BackendUnavailable"
  | .shuttingDown => "ShuttingDown"
  | .cancelled => "Cancelled"
  | .internal => "Internal"

def all : List Code := [.invalidArgument, .backendUnavailable, .shuttingDown, .cancelled, .internal]

/-- The words a message may use. -/
def choices : List (String × Code) := all.map fun c => (c.wire, c)

/-- The HTTP status that carries an error of this class. -/
def httpStatus : Code → Nat
  | .invalidArgument => 400
  | .backendUnavailable => 502
  | .shuttingDown | .cancelled => 503
  | .internal => 500

end Code

/-- An error as the caller sees it. -/
structure Error where
  code : Code
  message : String
  deriving DecidableEq, Repr, Inhabited

namespace Error

/-- The answer to a computation asked for while the server does not run. -/
def shuttingDown : Error := ⟨.shuttingDown, "server is shutting down"⟩

/-- What the caller sees of a failed computation. -/
def ofBackend : Backend.Error → Error
  | .cancelled => ⟨.cancelled, "call cancelled by server shutdown"⟩
  | e => ⟨.backendUnavailable, e.message⟩

/-- The error on one line. -/
def text (e : Error) : String := e.code.shown ++ ": " ++ e.message

def toJson (e : Error) : Json.Value :=
  .object [("code", .text e.code.wire), ("message", .text e.message)]

/-- The shape in which the error travels. -/
def shape {R : Type → Type} [Schema.Source R] : R Error :=
  Schema.Source.record "RpcError" default [
    .of "code" .required (Schema.Source.choice "RpcCode" Code.choices) fun code e => { e with code },
    .of "message" .required Schema.Source.text fun message e => { e with message }]

end Error

end EmbedServer.Call
