/-
The messages of the services: what a caller sends, and what it is answered.

Every message has a JSON form and the shape that the form is read with.
-/
import EmbedServer.Call.Error
import EmbedServer.Health.Registry

namespace EmbedServer.Call

open Schema

/-- The paths of the services' methods. -/
def predictPath : String := "/softgrep.Model/Predict"

def checkPath : String := "/grpc.health.v1.Health/Check"

def watchPath : String := "/grpc.health.v1.Health/Watch"

/-- A piece of text to embed, with the file it was cut from and its place there. -/
structure Chunk where
  content : String
  path : Option String
  index : Option Nat
  deriving DecidableEq, Repr, Inhabited

namespace Chunk

def ofContent (content : String) : Chunk := ⟨content, none, none⟩

def toJson (c : Chunk) : Json.Value :=
  .object (("content", .text c.content)
    :: (c.path.map fun p => ("path", Json.Value.text p)).toList
    ++ (c.index.map fun (i : Nat) => ("index", Json.Value.whole i)).toList)

def shape {R : Type → Type} [Source R] : R Chunk :=
  Source.record "Chunk" (ofContent "") [
    .of "content" .free Source.text fun content c => { c with content },
    .of "path" .free (Source.optional Source.text) fun path c => { c with path },
    .of "index" .free (Source.optional (Source.natural .w64)) fun index c => { c with index }]

end Chunk

/-- The vector of a chunk. -/
structure Embedding where
  vec : List Float
  deriving Inhabited

namespace Embedding

def toJson (e : Embedding) : Json.Value := .object [("vec", .reals e.vec)]

def shape {R : Type → Type} [Source R] : R Embedding :=
  Source.record "Embedding" default [
    .of "vec" .required (Source.list Source.real) fun vec _ => ⟨vec⟩]

/-- The embedding with its structure visible. -/
def shown (e : Embedding) : String :=
  "Embedding \x7b vec: [" ++ String.intercalate ", " (e.vec.map Decimal.shown.text) ++ "] \x7d"

end Embedding

/-- A question about the health of a service. -/
structure HealthQuery where
  service : String
  deriving DecidableEq, Repr, Inhabited

namespace HealthQuery

def toJson (q : HealthQuery) : Json.Value := .object [("service", .text q.service)]

def shape {R : Type → Type} [Source R] : R HealthQuery :=
  Source.record "HealthCheckRequest" ⟨""⟩ [
    .of "service" .free Source.text fun service _ => ⟨service⟩]

end HealthQuery

/-- The answer to a question about health. -/
structure HealthReport where
  status : Health.Status
  deriving DecidableEq, Repr, Inhabited

namespace HealthReport

def toJson (r : HealthReport) : Json.Value := .object [("status", .text r.status.wire)]

def shape {R : Type → Type} [Source R] : R HealthReport :=
  Source.record "HealthCheckResponse" default [
    .of "status" .required (Source.choice "ServingStatus" Health.Status.choices)
      fun status _ => ⟨status⟩]

/-- The answer with its structure visible. -/
def shown (r : HealthReport) : String :=
  "HealthCheckResponse \x7b status: " ++ r.status.shown ++ " \x7d"

end HealthReport

/-- A call, decoded. -/
inductive Request where
  | predict (chunk : Chunk)
  | check (query : HealthQuery)
  deriving DecidableEq, Repr

def Request.method : Request → String
  | .predict _ => predictPath
  | .check _ => checkPath

/-- The successful answer to a call. -/
inductive Reply where
  | embedding (e : Embedding)
  | health (r : HealthReport)

/-- The reply with its structure visible. -/
def Reply.shown : Reply → String
  | .embedding e => "Embedding(" ++ e.shown ++ ")"
  | .health r => "Health(" ++ r.shown ++ ")"

/-- The outcome of a call. -/
abbrev Outcome := Except Error Reply

end EmbedServer.Call
