/-
Stages around an endpoint.

On its way in, a call meets the stages in order; each either answers by itself or hands on a context
and a request, possibly changed.  The answer passes back through the stages that were entered, the
innermost first, and each may change it, and the context with it.  A stage is therefore two functions,
and it runs what is inside it at most once because that is not among what it is given.

The endpoint either answers at once or asks for a computation; then the way back is taken later.  So
what a service makes of a call is a `Course`: what happened on the way in, where the call stands, and
the way back as a function of the time the call took and of its outcome.
-/
import EmbedServer.Call.Context
import EmbedServer.Call.Effect
import EmbedServer.Call.Message

namespace EmbedServer.Call

/-- What a stage makes of a call that enters it. -/
inductive Entry where
  /-- The stage answers by itself. -/
  | answer (context : Context) (outcome : Outcome)
  /-- The call goes on. -/
  | forward (context : Context) (request : Request)

/-- A call on its way back, as it comes to a stage that handed it on. -/
structure Returning where
  /-- The context and the request with which it entered the stage. -/
  given : Context × Request
  /-- The context with which it comes back. -/
  context : Context
  /-- How long the call has taken. -/
  elapsed : Duration
  /-- The outcome inside the stage. -/
  outcome : Outcome

/-- A call that goes back further. -/
structure Returned where
  /-- What happened on the way back. -/
  effects : List Effect
  context : Context
  outcome : Outcome

structure Stage where
  name : String
  enter : Context → Request → List Effect × Entry
  leave : Returning → Returned

/-- Where a call stands after its way in. -/
inductive Reached where
  | answered (outcome : Outcome)
  /-- The vector of this chunk is wanted. -/
  | computing (chunk : Chunk)

/-- What a service makes of a call. -/
structure Course where
  /-- What happened on the way in. -/
  effects : List Effect
  reached : Reached
  /-- The way back. -/
  leave : Duration → Outcome → Returned

/-- Anything that takes calls. -/
abbrev Service := Context → Request → Course

/-- A course that is answered at once and has no way back. -/
def Course.answered (context : Context) (outcome : Outcome) : Course :=
  ⟨[], .answered outcome, fun _ o => ⟨[], context, o⟩⟩

/-- One stage around a service. -/
def Stage.around (s : Stage) (inner : Service) : Service := fun context request =>
  match s.enter context request with
  | (fx, .answer after outcome) => { Course.answered after outcome with effects := fx }
  | (fx, .forward after handed) =>
    let course := inner after handed
    { course with
      effects := fx ++ course.effects
      leave := fun elapsed outcome =>
        let inside := course.leave elapsed outcome
        let outside := s.leave ⟨(context, request), inside.context, elapsed, inside.outcome⟩
        { outside with effects := inside.effects ++ outside.effects } }

/-- Stages around an endpoint, the first one outermost. -/
def compose (stages : List Stage) (endpoint : Service) : Service := stages.foldr Stage.around endpoint

@[simp] theorem compose_nil (e : Service) : compose [] e = e := rfl

@[simp] theorem compose_cons (s : Stage) (ss : List Stage) (e : Service) :
    compose (s :: ss) e = s.around (compose ss e) := rfl

theorem compose_append (xs ys : List Stage) (e : Service) :
    compose (xs ++ ys) e = compose xs (compose ys e) := by
  simp [compose, List.foldr_append]

/-- The names of the stages, with the structure of the list visible. -/
def showStages (stages : List Stage) : String :=
  "Pipeline \x7b stages: " ++ Text.quotedList (stages.map Stage.name) ++ " \x7d"

end EmbedServer.Call
