/-
The stages there are.

Two of them come with the server and change nothing: one logs each call as it comes and goes, the
other counts calls and failures.  The rest are building blocks: they demand or set metadata, change
requests, answer by themselves, or turn one outcome into another; `traced` records the passage
through any stage.
-/
import EmbedServer.Call.Pipeline

namespace EmbedServer.Call.Stage

/-- The way back that changes nothing. -/
def unchanged (b : Returning) : Returned := ⟨[], b.context, b.outcome⟩

/-- A stage that hands on what it is given. -/
def identity (name : String) : Stage := ⟨name, fun c r => ([], .forward c r), unchanged⟩

/-- An event of the logging stage. -/
def callEvent (level : Log.Level) (message : String) (fields : List (String × Log.Value)) : Effect :=
  .log ⟨.callLog, level, message, fields⟩

/-- Logs each call on its way in and on its way back. -/
def logging : Stage where
  name := "logging"
  enter c r := ([callEvent .info "call received" [("method", .text c.method)]], .forward c r)
  leave b :=
    let event := match b.outcome with
      | .ok _ => callEvent .info "call completed" [("method", .text b.context.method)]
      | .error e =>
        callEvent .warn ("call failed: " ++ e.message)
          [("method", .text b.context.method), ("code", .shown e.code.shown)]
    ⟨[event], b.context, b.outcome⟩

/-- Counts each call on its way back, and each failure. -/
def metrics : Stage where
  name := "metrics"
  enter c r := ([], .forward c r)
  leave b :=
    let failures := match b.outcome with
      | .ok _ => []
      | .error _ => [Effect.sample .error]
    ⟨.sample (.request b.elapsed) :: failures, b.context, b.outcome⟩

/-- Whether an outcome is a success, as the trace puts it. -/
def verdict : Outcome → String
  | .ok _ => "ok"
  | .error _ => "err"

/-- The same stage, with the passage through it in the trace. -/
def traced (s : Stage) : Stage where
  name := s.name
  enter c r :=
    let first := Effect.trace ("enter " ++ s.name ++ " " ++ c.method)
    match s.enter c r with
    | (fx, .answer c o) => (first :: fx ++ [.trace ("exit " ++ s.name ++ " " ++ verdict o)], .answer c o)
    | (fx, .forward c r) => (first :: fx, .forward c r)
  leave b :=
    let after := s.leave b
    { after with
      effects := after.effects ++ [.trace ("exit " ++ s.name ++ " " ++ verdict after.outcome)] }

/-- Refuses calls whose metadata lack a key. -/
def requireKey (name key : String) (e : Error) : Stage :=
  { identity name with
    enter := fun c r =>
      ([], if (c.metadata.get? key).isSome then .forward c r else .answer c (.error e)) }

/-- Sets metadata. -/
def annotate (name key value : String) : Stage :=
  { identity name with
    enter := fun c r => ([], .forward { c with metadata := c.metadata.set key value } r) }

/-- Replaces the content of chunks. -/
def replaceContent (name content : String) : Stage :=
  { identity name with
    enter := fun c r => ([], .forward c (match r with
      | .predict chunk => .predict { chunk with content }
      | .check q => .check q)) }

/-- Turns errors into a vector. -/
def recover (name : String) (vector : List Float) : Stage :=
  { identity name with
    leave := fun b => ⟨[], b.context, match b.outcome with
      | .ok reply => .ok reply
      | .error _ => .ok (.embedding ⟨vector⟩)⟩ }

/-- Turns successes into an error. -/
def failAfter (name : String) (e : Error) : Stage :=
  { identity name with
    leave := fun b => ⟨[], b.context, match b.outcome with
      | .ok _ => .error e
      | .error e => .error e⟩ }

/-- Answers every call by itself. -/
def answerWith (name : String) (reply : Reply) : Stage :=
  { identity name with enter := fun c _ => ([], .answer c (.ok reply)) }

end EmbedServer.Call.Stage
