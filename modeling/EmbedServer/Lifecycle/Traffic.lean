/-
Everything that can go on at a server, in any order.

`Http.Event` is followed by a look at every request, and `Tasks` has a supervisor that keeps an order of
its own.  Here nobody keeps any: requests come, requests are looked at, callers go away, and the
lifecycle does whatever it can do, each whenever it likes.  What is said of traffic therefore holds of
every schedule, and the two others are schedules.
-/
import EmbedServer.Call.Session
import EmbedServer.Http.Event
import EmbedServer.Lifecycle.Act

namespace EmbedServer

namespace Lifecycle

/-- Something that goes on at a server. -/
inductive Happening where
  | meet (e : Http.Event)
  /-- The request with this number is looked at. -/
  | look (id : Nat)
  | act (a : Act)

end Lifecycle

namespace Http

open Lifecycle (Act Happening)

variable {σ : Type}

/-- The message of a call to this place in the body of a request, if there is one. -/
def Request.message? (r : Request) (limit : Limit) : Route → Option Call.Request
  | .predict => (r.readBody limit Call.Chunk.shape).toOption.map .predict
  | .check => (r.readBody limit Call.HealthQuery.shape).toOption.map .check
  | .watch | .probeAll | .probe _ | .metrics => none

namespace Server

def undergo (s : Server σ) : Happening → Server σ
  | .meet e => s.meet e
  | .look id => s.look id
  | .act a => Act.apply s a

/-- The server after all of it. -/
def undergoAll (s : Server σ) (traffic : List Happening) : Server σ := traffic.foldl undergo s

/-- How often what goes on is of a kind, seen by the server as it is then. -/
def tally (p : Server σ → Happening → Bool) : Server σ → List Happening → Nat
  | _, [] => 0
  | s, x :: rest => (p s x).toNat + tally p (s.undergo x) rest

/-! ### Kinds of requests -/

/-- Whether a request has nothing to do with calls: it declares too much, names no place, comes with
another method than the place takes, or is for a place that is not posted to. -/
def passesBy (s : Server σ) (r : Request) : Bool :=
  r.declaresTooMuch s.limit ||
    match Route.ofPath? r.target.path with
    | none => true
    | some route => !route.takes r.method || !route.isPosted

/-- The message in the body of a request that does not pass the calls by, if it can be decoded. -/
def decoded? (s : Server σ) (r : Request) : Option Call.Request :=
  if s.passesBy r then none else (Route.ofPath? r.target.path).bind (r.message? s.limit)

/-- Whether a request comes whose body is decoded. -/
def decodes (s : Server σ) : Happening → Bool
  | .meet (.request r) => (s.decoded? r).isSome
  | _ => false

/-- Whether a request comes that is admitted to a computation. -/
def admits (s : Server σ) : Happening → Bool
  | .meet (.request r) => (s.decoded? r).any s.core.admits
  | _ => false

end Server

/-! ### Errors in responses -/

/-- The error of the services in a response with this status and this text. -/
def errorIn? (status : Status) (text : String) : Option Call.Error :=
  if status.isSuccess then none
  else (Json.Reader.run Call.Error.shape (Utf8.encode text)).toOption

/-- The error that the response carries, if there is one yet. -/
def Exchange.error? (e : Exchange σ) : Option Call.Error :=
  e.head.bind fun (status, _) => errorIn? status e.sent

/-- Whether the response says that the call was cancelled. -/
def Exchange.saysCancelled (e : Exchange σ) : Bool := e.error?.any (·.code == .cancelled)

end Http

end EmbedServer
