/-
Client and server understand each other.

What a message is written as is read back as that message, whoever reads it.  An answer comes with a
status and a body: a success with the message that was asked for, and a failure, whatever its status,
with the error in a body that nothing else could have written.  So a client is told the very error, and
it makes no difference to it where on the server's side it came up.
-/
import EmbedServer.Client
import EmbedServer.Proofs.Call.Message
import EmbedServer.Proofs.Http.Carried

namespace EmbedServer.Client

open Json.Reader Http

/-! ### Reading answers

Every body is the text of an object, so it begins with a brace and bears no mark of an encoding; what is
left is that the text of a message is read back as the message.
-/

/-- A text that begins with a bracket begins with no mark of an encoding. -/
theorem decodeMarked_object (fields : List (String × Json.Value)) :
    Text.decodeMarked (Utf8.encode (Json.Value.object fields).render) =
      (Json.Value.object fields).render := by
  obtain ⟨more, hmore⟩ := object_begins fields
  have hlossy : Text.decodeMarked (123 :: more) = Utf8.decodeLossy (123 :: more) := rfl
  rw [hmore, hlossy, ← hmore, Utf8.decodeLossy_encode]

private theorem readFailure_error (status : Status) (e : Call.Error) :
    readFailure status (Utf8.encode e.toJson.render) = .rpc e := by
  have hread := (Call.reads_error e).run
  rw [Call.Error.toJson] at hread ⊢
  rw [readFailure, decodeMarked_object, hread]

private theorem read_error {α : Type} (shape : Json.Reader α) (e : Call.Error) :
    read shape (some ⟨e.code.httpStatus, Utf8.encode e.toJson.render⟩) = .error (.rpc e) := by
  have hbody : Status.hasBody e.code.httpStatus = true := by
    cases e.code <;> rfl
  simp only [read, Received.content, httpStatus_fails, hbody, if_true, Bool.false_eq_true, if_false,
    readFailure_error]

private theorem read_success {α : Type} {shape : Json.Reader α} {v : Json.Value} {a : α}
    (h : Reads shape v a) : read shape (some ⟨200, Utf8.encode v.render⟩) = .ok a := by
  have hsuccess : Status.isSuccess 200 = true := rfl
  have hbody : Status.hasBody 200 = true := rfl
  simp only [read, Received.content, hsuccess, hbody, if_true, h.run]

/-! ### The answer to a call

An answer is written down by the exchange and read by the client.  Between the two stands a response, and
nothing but this response.
-/

/-- What a client gets of an outcome, if it asked for more than the headers. -/
def answered {σ : Type} (s : Server σ) (phase : Phase σ) (request : Call.Request) (o : Call.Outcome) :
    Option Received :=
  (s.respond ⟨false, phase, none, ""⟩ (responseTo request o)).received?

/-- An answer with more than its headers is received as it was written. -/
theorem received?_answered {σ : Type} {e : Exchange σ} (hfull : e.headOnly = false)
    {request : Call.Request} {o : Call.Outcome} {status : Status} {v : Json.Value}
    (h : responseTo request o = .json status v) :
    (e.answered request o).received? = some ⟨status, Utf8.encode v.render⟩ := by
  rw [Exchange.received?, Exchange.answered, h, hfull]
  rfl

private theorem answered_of {σ : Type} (s : Server σ) (phase : Phase σ) {request : Call.Request}
    {o : Call.Outcome} {status : Status} {v : Json.Value}
    (h : responseTo request o = .json status v) :
    answered s phase request o = some ⟨status, Utf8.encode v.render⟩ := by
  rw [answered, Server.respond_call]
  exact received?_answered rfl h

/-- What a client receives depends on the response alone, and not on who sends it or when. -/
theorem answered_congr {σ τ : Type} (s : Server σ) (s' : Server τ) (phase : Phase σ) (phase' : Phase τ)
    {request request' : Call.Request} {o : Call.Outcome}
    (h : responseTo request o = responseTo request' o) :
    answered s phase request o = answered s' phase' request' o := by
  rw [answered, answered, Server.respond_call, Server.respond_call]
  simp only [Exchange.received?, Exchange.answered, h]
  rfl

/-- What both sides of the wire make of messages and outcomes. -/
structure Agree (answer : Call.Request → Call.Outcome → Option Received) : Prop where
  /-- A chunk is read back, by itself and in front of anything else. -/
  chunk : ∀ c : Call.Chunk, (∀ i ∈ c.index, i < UInt64.size) →
    Json.Reader.run Call.Chunk.shape (Utf8.encode c.toJson.render) = .ok c ∧
      Json.Reader.runFront Call.Chunk.shape (Utf8.encode c.toJson.render) = .ok c
  query : ∀ q : Call.HealthQuery,
    Json.Reader.run Call.HealthQuery.shape (Utf8.encode q.toJson.render) = .ok q ∧
      Json.Reader.runFront Call.HealthQuery.shape (Utf8.encode q.toJson.render) = .ok q
  executor : ∀ q : Backend.Remote.Query,
    Json.Reader.run Backend.Remote.Query.shape (Utf8.encode q.toJson.render) = .ok q ∧
      Json.Reader.runFront Backend.Remote.Query.shape (Utf8.encode q.toJson.render) = .ok q
  /-- Whoever asked for a vector is told the very error, and that something went wrong inside if there
  was no error and no vector. -/
  predictFailed : ∀ chunk e, readEmbedding (answer (.predict chunk) (.error e)) = .error (.rpc e)
  predictHealth : ∀ chunk r, readEmbedding (answer (.predict chunk) (.ok (.health r))) =
    .error (.rpc ⟨.internal, "unexpected reply " ++ (Call.Reply.health r).shown⟩)
  /-- Nothing but the outcome counts: another server, in another phase of another call, is understood to
  say the same. -/
  predictTold : ∀ {τ : Type} (s' : Server τ) (phase' : Phase τ) chunk chunk' o,
    readEmbedding (answer (.predict chunk) o) =
      readEmbedding (answered s' phase' (.predict chunk') o)
  /-- Whoever asked about health is told the very status or the very error. -/
  checkHealth : ∀ q r, readStatus (answer (.check q) (.ok (.health r))) = .ok r.status
  checkFailed : ∀ q e, readStatus (answer (.check q) (.error e)) = .error (.rpc e)
  checkEmbedding : ∀ q v, readStatus (answer (.check q) (.ok (.embedding v))) =
    .error (.rpc ⟨.internal, "unexpected reply " ++ (Call.Reply.embedding v).shown⟩)
  checkTold : ∀ {τ : Type} (s' : Server τ) (phase' : Phase τ) q q' o,
    readStatus (answer (.check q) o) = readStatus (answered s' phase' (.check q') o)

end EmbedServer.Client
