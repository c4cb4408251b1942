/-
Log events.

An event says where in the server it comes from, how severe it is, and what happened, with fields
beside the message.  What becomes of it (a line, a JSON object, nothing) is decided elsewhere.
-/
import EmbedServer.Text.Quoted

namespace EmbedServer.Log

/-- Severity, the mildest first. -/
inductive Level where
  | trace
  | debug
  | info
  | warn
  | error
  deriving DecidableEq, Repr

namespace Level

/-- The place of a level among the others. -/
def rank : Level → Nat
  | .trace => 0
  | .debug => 1
  | .info => 2
  | .warn => 3
  | .error => 4

def name : Level → String
  | .trace => "TRACE"
  | .debug => "DEBUG"
  | .info => "INFO"
  | .warn => "WARN"
  | .error => "ERROR"

end Level

/-- The part of the server an event comes from. -/
inductive Origin where
  | program
  | backend
  | stub
  | cache
  | remote
  | callLog
  | handler
  | health
  | transport
  | lifecycle
  | signals
  deriving DecidableEq, Repr

/-- The name under which a part's events can be selected. -/
def Origin.target : Origin → String
  | .program => "softgrep_server"
  | .backend => "softgrep_server::backend"
  | .stub => "softgrep_server::backend::stub"
  | .cache => "softgrep_server::backend::cache"
  | .remote => "softgrep_server::backend::remote"
  | .callLog => "softgrep_server::interceptor::logging"
  | .handler => "softgrep_server::rpc::handler"
  | .health => "softgrep_server::observability::health"
  | .transport => "softgrep_server::server"
  | .lifecycle => "softgrep_server::lifecycle"
  | .signals => "softgrep_server::shutdown"

/-- The value of a field. -/
inductive Value where
  | text (s : String)
  | flag (b : Bool)
  | whole (n : Nat)
  /-- A value that is shown by its structure; the text is ready. -/
  | shown (s : String)
  deriving DecidableEq, Repr

/-- The value as plain text. -/
def Value.plain : Value → String
  | .text s | .shown s => s
  | .flag b => if b then "true" else "false"
  | .whole n => toString n

structure Event where
  origin : Origin
  level : Level
  message : String
  fields : List (String × Value)
  deriving DecidableEq, Repr

/-- An event without fields. -/
def Event.plain (origin : Origin) (level : Level) (message : String) : Event :=
  ⟨origin, level, message, []⟩

/-- The events of at least the given severity. -/
def atLeast (level : Level) (events : List Event) : List Event :=
  events.filter fun e => level.rank ≤ e.level.rank

end EmbedServer.Log
