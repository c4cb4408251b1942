/-
The places on the server, and the methods each of them takes.
-/
import EmbedServer.Http.Message

namespace EmbedServer.Http

/-- A place on the server. -/
inductive Route where
  | predict
  | check
  | watch
  /-- The health of the server as a whole. -/
  | probeAll
  /-- The health under a key; the key is as it stands in the path. -/
  | probe (key : String)
  | metrics
  deriving DecidableEq, Repr

namespace Route

/-- The place that a path names. -/
def ofPath? (path : String) : Option Route :=
  if path = Call.predictPath then some .predict
  else if path = Call.checkPath then some .check
  else if path = Call.watchPath then some .watch
  else if path = "/health" then some .probeAll
  else if path = "/metrics" then some .metrics
  else match Text.dropStart? path "/health/" with
    | some key => if key.isEmpty || key.toList.contains '/' then none else some (.probe key)
    | none => none

/-- Whether the place is posted to; the others are got from. -/
def isPosted : Route → Bool
  | .predict | .check => true
  | _ => false

/-- The methods of the place, as a refusal lists them. -/
def allowed (r : Route) : String := if r.isPosted then "POST" else "GET,HEAD"

/-- Whether the place takes a method. -/
def takes (r : Route) (method : String) : Bool :=
  if r.isPosted then method == "POST" else method == "GET" || method == "HEAD"

end Route

/-- The key that a part of a path stands for, if it is text. -/
def pathKey? (part : String) : Option String :=
  Utf8.decode? (Text.Percent.decode (Utf8.encode part))

/-- The key that a query asks about: the empty one if it names none, nothing if it names two. -/
def queryKey? (t : Target) : Option String :=
  match (t.parameters.filter (·.1 == "service")).map Prod.snd with
  | [] => some ""
  | [key] => some key
  | _ => none

/-- The health under a key as a response. -/
def probed (health : Health.Registry) (key : String) : Response :=
  let status := health.get key
  .json (if status = .serving then 200 else 503) (Call.HealthReport.toJson ⟨status⟩)

/-- The response to a call whose answer should be an embedding. -/
def predicted : Call.Outcome → Response
  | .ok (.embedding e) => .json 200 e.toJson
  | .ok other => .ofError ⟨.internal, "unexpected reply " ++ other.shown⟩
  | .error e => .ofError e

/-- The response to a call whose answer should be about health. -/
def checked : Call.Outcome → Response
  | .ok (.health r) => .json 200 r.toJson
  | .ok other => .ofError ⟨.internal, "unexpected reply " ++ other.shown⟩
  | .error e => .ofError e

/-- The response to a call by the kind of its request. -/
def responseTo (request : Call.Request) (o : Call.Outcome) : Response :=
  match request with
  | .predict _ => predicted o
  | .check _ => checked o

end EmbedServer.Http
