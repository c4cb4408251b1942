/-
Why a computation has no vector to show.
-/
import EmbedServer.Duration

namespace EmbedServer.Backend

inductive Error where
  | failed (message : String)
  | timeout (limit : Duration)
  | cancelled
  | invalidResponse (message : String)
  | network (message : String)
  deriving DecidableEq, Repr

def Error.message : Error → String
  | .failed m => "Backend request failed: " ++ m
  | .timeout limit => "Backend timed out after " ++ limit.text
  | .cancelled => "Backend call cancelled"
  | .invalidResponse m => "Invalid backend response: " ++ m
  | .network m => "Network error: " ++ m

end EmbedServer.Backend
