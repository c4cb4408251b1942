/-
The settings of a server: how it listens, what computes its vectors, how it logs.

Every setting has a default, so a record of settings is read from any source by changing the
defaults.
-/
import EmbedServer.Duration
import EmbedServer.Json.Value

namespace EmbedServer.Settings

open Schema

/-- How the server listens and stops. -/
structure Server where
  host : String
  port : Nat
  /-- How long calls in flight may run after a stop request, in seconds. -/
  drainTimeoutSecs : Nat
  /-- The time after that for cancelled calls to unwind, in milliseconds. -/
  graceMarginMs : Nat
  /-- The largest request body, in units of 2 ^ 20 bytes; zero for no limit. -/
  maxBodySizeMb : Nat
  /-- The health keys that are serving while the server runs. -/
  healthKeys : List String
  deriving DecidableEq, Repr

namespace Server

def default : Server := ⟨"localhost", 50051, 5, 500, 10, ["", "softgrep.Model"]⟩

def listenAddress (s : Server) : String := s.host ++ ":" ++ toString s.port

def drainTimeout (s : Server) : Duration := .ofSecs s.drainTimeoutSecs

def graceMargin (s : Server) : Duration := .ofMillis s.graceMarginMs

/-- The largest request body, in bytes. -/
def maxBodySize (s : Server) : Nat := s.maxBodySizeMb * 1024 * 1024

def shape {R : Type → Type} [Source R] : R Server :=
  Source.record "ServerConfig" default [
    .of "host" .free Source.text fun host s => { s with host },
    .of "port" .free (Source.natural .w16) fun port s => { s with port },
    .of "drain_timeout_secs" .free (Source.natural .w64)
      fun drainTimeoutSecs s => { s with drainTimeoutSecs },
    .of "grace_margin_ms" .free (Source.natural .w64)
      fun graceMarginMs s => { s with graceMarginMs },
    .of "max_body_size_mb" .free (Source.natural .size)
      fun maxBodySizeMb s => { s with maxBodySizeMb },
    .of "health_keys" .free (Source.list Source.text) fun healthKeys s => { s with healthKeys }]

def toJson (s : Server) : Json.Value :=
  .object [("host", .text s.host), ("port", .whole s.port),
    ("drain_timeout_secs", .whole s.drainTimeoutSecs),
    ("grace_margin_ms", .whole s.graceMarginMs), ("max_body_size_mb", .whole s.maxBodySizeMb),
    ("health_keys", .list (s.healthKeys.map .text))]

end Server

/-- What computes the vectors. -/
inductive BackendKind where
  | stub
  | random
  | remote
  deriving DecidableEq, Repr

namespace BackendKind

def name : BackendKind → String
  | .stub => "stub"
  | .random => "random"
  | .remote => "remote"

def choices : List (String × BackendKind) :=
  [("stub", .stub), ("random", .random), ("remote", .remote)]

end BackendKind

structure Backend where
  kind : BackendKind
  /-- Where the remote executor answers. -/
  url : String
  apiToken : Option String
  /-- The model the remote executor is asked for. -/
  model : Option String
  /-- The length of random vectors. -/
  dimension : Nat
  timeoutSecs : Nat
  /-- How often a failed request to the remote executor is repeated. -/
  maxRetries : Nat
  cacheEnabled : Bool
  cacheSize : Nat
  cacheTtlSecs : Nat
  /-- The vector of the stub. -/
  stubVector : List Float
  /-- How long the stub takes, in milliseconds. -/
  stubDelayMs : Nat

namespace Backend

def default : Backend where
  kind := .random
  url := "http://localhost:8000/v1/embeddings"
  apiToken := none
  model := none
  dimension := 100
  timeoutSecs := 30
  maxRetries := 3
  cacheEnabled := false
  cacheSize := 1000
  cacheTtlSecs := 3600
  stubVector := [0.1, 0.2, 0.3]
  stubDelayMs := 0

def timeout (b : Backend) : Duration := .ofSecs b.timeoutSecs

def shape {R : Type → Type} [Source R] : R Backend :=
  Source.record "BackendConfig" default [
    .of "kind" .free (Source.choice "BackendKind" BackendKind.choices) fun kind b => { b with kind },
    .of "url" .free Source.text fun url b => { b with url },
    .of "api_token" .free (Source.optional Source.text) fun apiToken b => { b with apiToken },
    .of "model" .free (Source.optional Source.text) fun model b => { b with model },
    .of "dimension" .free (Source.natural .size) fun dimension b => { b with dimension },
    .of "timeout_secs" .free (Source.natural .w64) fun timeoutSecs b => { b with timeoutSecs },
    .of "max_retries" .free (Source.natural .w32) fun maxRetries b => { b with maxRetries },
    .of "cache_enabled" .free Source.flag fun cacheEnabled b => { b with cacheEnabled },
    .of "cache_size" .free (Source.natural .size) fun cacheSize b => { b with cacheSize },
    .of "cache_ttl_secs" .free (Source.natural .w64) fun cacheTtlSecs b => { b with cacheTtlSecs },
    .of "stub_vector" .free (Source.list Source.real) fun stubVector b => { b with stubVector },
    .of "stub_delay_ms" .free (Source.natural .w64) fun stubDelayMs b => { b with stubDelayMs }]

def toJson (b : Backend) : Json.Value :=
  .object [("kind", .text b.kind.name), ("url", .text b.url), ("api_token", .ofOption b.apiToken),
    ("model", .ofOption b.model), ("dimension", .whole b.dimension),
    ("timeout_secs", .whole b.timeoutSecs), ("max_retries", .whole b.maxRetries),
    ("cache_enabled", .flag b.cacheEnabled), ("cache_size", .whole b.cacheSize),
    ("cache_ttl_secs", .whole b.cacheTtlSecs), ("stub_vector", .reals b.stubVector),
    ("stub_delay_ms", .whole b.stubDelayMs)]

end Backend

/-- How the server logs. -/
structure Logging where
  level : String
  format : String
  deriving DecidableEq, Repr

namespace Logging

def default : Logging := ⟨"info", "pretty"⟩

def shape {R : Type → Type} [Source R] : R Logging :=
  Source.record "LoggingConfig" default [
    .of "level" .free Source.text fun level l => { l with level },
    .of "format" .free Source.text fun format l => { l with format }]

def toJson (l : Logging) : Json.Value :=
  .object [("level", .text l.level), ("format", .text l.format)]

end Logging

end Settings

/-- All settings. -/
structure Settings where
  server : Settings.Server
  backend : Settings.Backend
  logging : Settings.Logging

namespace Settings

def default : Settings := ⟨Server.default, Backend.default, Logging.default⟩

def shape {R : Type → Type} [Schema.Source R] : R Settings :=
  Schema.Source.record "Config" default [
    .of "server" .free Server.shape fun server s => { s with server },
    .of "backend" .free Backend.shape fun backend s => { s with backend },
    .of "logging" .free Logging.shape fun logging s => { s with logging }]

def toJson (s : Settings) : Json.Value :=
  .object [("server", s.server.toJson), ("backend", s.backend.toJson),
    ("logging", s.logging.toJson)]

end Settings

end EmbedServer
