/-
What can go wrong when the server starts and stops, and the errors of the server as a whole.
-/
import EmbedServer.Backend.Error

namespace EmbedServer

namespace Lifecycle

/-- Why a server never came to serve. -/
inductive StartupError where
  | invalidAddress (address reason : String)
  | bind (address cause : String)
  deriving DecidableEq, Repr

def StartupError.message : StartupError → String
  | .invalidAddress address reason => "Invalid listen address '" ++ address ++ "': " ++ reason
  | .bind address cause => "Failed to bind " ++ address ++ ": " ++ cause

/-- What is noticed while stopping.  It is logged and never answered. -/
inductive ShutdownError where
  | drainExceeded (inFlight : Nat) (timeout : Duration)
  | transport (cause : String)
  deriving DecidableEq, Repr

def ShutdownError.message : ShutdownError → String
  | .drainExceeded n timeout =>
    toString n ++ " call(s) still in flight after drain timeout of " ++ timeout.text
  | .transport cause => "Transport terminated with error: " ++ cause

end Lifecycle

/-- Any error of the server. -/
inductive ServerError where
  | startup (e : Lifecycle.StartupError)
  | backend (e : Backend.Error)
  | shutdown (e : Lifecycle.ShutdownError)
  | config (message : String)
  | internal (message : String)
  deriving DecidableEq, Repr

def ServerError.message : ServerError → String
  | .startup e => "Startup error: " ++ e.message
  | .backend e => "Backend error: " ++ e.message
  | .shutdown e => "Shutdown error: " ++ e.message
  | .config m => "Configuration error: " ++ m
  | .internal m => "Internal error: " ++ m

end EmbedServer
