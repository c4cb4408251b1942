/-
Questions about health, among everything else that comes to a server.

A question is a request to a place that tells the health of something.  The questions in a history are
what is left of it without the other requests, without the loss of their callers, and without the
cancellation of computations.  Callers are numbered by all requests; in the questions they are numbered
among those who ask.
-/
import EmbedServer.Http.Event

namespace EmbedServer.Http

/-- Whether a place tells the health of something. -/
def Route.tellsHealth : Route → Bool
  | .check | .watch | .probeAll | .probe _ => true
  | .predict | .metrics => false

/-- Whether a request is a question. -/
def Request.asksHealth (r : Request) : Bool := (Route.ofPath? r.target.path).any Route.tellsHealth

/-- Of the request in an event, if there is one, whether it is a question. -/
def Event.asks : Event → List Bool
  | .request r => [r.asksHealth]
  | _ => []

/-- Of every request in a history, whether it is a question. -/
def asked (history : List Event) : List Bool := history.flatMap Event.asks

/-- The number of a question among the questions; `asks` tells of every request whether it is one. -/
def rank (asks : List Bool) (id : Nat) : Nat := (asks.take id).count true

/-- What an event is among the questions; `asks` tells of the requests before. -/
def question? (asks : List Bool) : Event → Option Event
  | .request r => if r.asksHealth then some (.request r) else none
  | .leave id => if asks[id]? = some true then some (.leave (rank asks id)) else none
  | .cancel => none
  | e => some e

/-- The questions in a history; `asks` tells of the requests before. -/
def questions (asks : List Bool) : List Event → List Event
  | [] => []
  | e :: rest => (question? asks e).toList ++ questions (asks ++ e.asks) rest

/-- The exchanges of the questions; `asks` tells of every request whether it is one. -/
def told {σ : Type} : (asks : List Bool) → List (Exchange σ) → List (Exchange σ)
  | true :: asks, e :: rest => e :: told asks rest
  | false :: asks, _ :: rest => told asks rest
  | _, _ => []

end EmbedServer.Http
