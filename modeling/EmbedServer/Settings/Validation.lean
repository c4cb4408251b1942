/-
Which settings a server accepts.

Each rule is a condition that must not hold; the rules are tried in order, and the first one broken
is reported.  Some rules apply only to the kind of backend in use, or only with a cache.
-/
import EmbedServer.Settings.Model
import EmbedServer.Text.Blank

namespace EmbedServer.Settings

/-- A broken rule. -/
inductive Violation where
  | emptyHost
  | drainTimeout
  | graceMargin
  | bodySize
  | noBackendTimeout
  | backendTimeout
  | backendUrl
  | retries
  | noDimension
  | noCacheSize
  | noCacheTtl
  | logFormat (format : String)
  deriving DecidableEq, Repr

def Violation.message : Violation → String
  | .emptyHost => "Server host cannot be empty"
  | .drainTimeout => "Drain timeout too large (max: 300 seconds)"
  | .graceMargin => "Grace margin too large (max: 60000 ms)"
  | .bodySize => "Max body size too large (max: 100 MB)"
  | .noBackendTimeout => "Backend timeout must be greater than 0"
  | .backendTimeout => "Backend timeout too large (max: 300 seconds)"
  | .backendUrl => "Backend URL must start with http:// or https://"
  | .retries => "Max retries too large (max: 10)"
  | .noDimension => "Random backend dimension must be greater than 0"
  | .noCacheSize => "Cache size must be greater than 0 when cache is enabled"
  | .noCacheTtl => "Cache TTL must be greater than 0 when cache is enabled"
  | .logFormat format =>
    "Unknown log format '" ++ format ++ "' (expected json, compact or pretty)"

/-- Whether the text names a place that can be reached over HTTP. -/
def isHttpUrl (url : String) : Bool :=
  Text.startsWith url "http://" || Text.startsWith url "https://"

def Server.violation (s : Server) : Option Violation :=
  if (Text.trim s.host).isEmpty then some .emptyHost
  else if 300 < s.drainTimeoutSecs then some .drainTimeout
  else if 60000 < s.graceMarginMs then some .graceMargin
  else if 100 < s.maxBodySizeMb then some .bodySize
  else none

/-- The rules for one kind of backend. -/
def Backend.kindViolation (b : Backend) : Option Violation :=
  match b.kind with
  | .remote =>
    if !isHttpUrl b.url then some .backendUrl
    else if 10 < b.maxRetries then some .retries
    else none
  | .random => if b.dimension = 0 then some .noDimension else none
  | .stub => none

def Backend.violation (b : Backend) : Option Violation :=
  if b.timeoutSecs = 0 then some .noBackendTimeout
  else if 300 < b.timeoutSecs then some .backendTimeout
  else
    b.kindViolation.or
      (if !b.cacheEnabled then none
       else if b.cacheSize = 0 then some .noCacheSize
       else if b.cacheTtlSecs = 0 then some .noCacheTtl
       else none)

def Logging.violation (l : Logging) : Option Violation :=
  if l.format = "json" ∨ l.format = "compact" ∨ l.format = "pretty" then none
  else some (.logFormat l.format)

/-- The first broken rule, if any. -/
def violation (s : Settings) : Option Violation :=
  s.server.violation.or (s.backend.violation.or s.logging.violation)

/-- Whether the settings are accepted. -/
def isValid (s : Settings) : Bool := s.violation.isNone

end EmbedServer.Settings
