/-
The backend that has its vectors computed by a remote executor.

A computation sends the same question again and again until the executor answers with a vector, or
with a failure that another attempt cannot mend, or until the retries are used up.  Between two
attempts it pauses, twice as long each time.
-/
import EmbedServer.Backend.Basic
import EmbedServer.Backend.Remote.Message
import EmbedServer.Http.Peer
import EmbedServer.Text.Marked

namespace EmbedServer.Backend.Remote

/-- How the executor is reached and asked. -/
structure Options where
  url : String
  token : Option String
  model : Option String
  /-- How many failed attempts may be repeated. -/
  retries : Nat
  /-- How long an answer is waited for. -/
  timeout : Duration
  deriving DecidableEq, Repr

/-- What becomes of a question that is sent. -/
inductive Fate where
  /-- Nobody is there to be asked, or whoever is there hangs up. -/
  | lost
  /-- No answer comes in time. -/
  | late
  | answered (r : Http.Received)
  /-- An answer begins to come, and its body breaks off. -/
  | brokenOff (status : Http.Status) (cause : String)
  deriving DecidableEq, Repr

/-- What becomes of a question that is answered in time and to the end, if at all. -/
def Fate.ofReceived : Option Http.Received → Fate
  | none => .lost
  | some r => .answered r

/-- An executor with a state, as those who ask it know it. -/
structure Executor (σ : Type) where
  answer : σ → Http.Posting → σ × Fate

/-- The executor that a peer is. -/
def Executor.ofPeer {σ : Type} (peer : Http.Peer σ) : Executor σ where
  answer s p :=
    let (s, received) := peer.answer s p
    (s, .ofReceived received)

/-- What came of one attempt. -/
inductive Attempt where
  | vector (v : List Float)
  /-- `again` says whether another attempt may mend it. -/
  | failure (e : Error) (again : Bool)

/-- What a successful response says. -/
def readVector (body : List UInt8) : Except Error (List Float) :=
  match Json.Reader.run Answer.shape body with
  | .error e => .error (.invalidResponse ("error decoding response body: " ++ e.message body))
  | .ok a =>
    match a.first with
    | some v => .ok v
    | none => .error (.invalidResponse "response contained no embedding")

/-- The attempt that is refused with a status and a text. -/
def Attempt.refused (status : Http.Status) (text : String) : Attempt :=
  .failure (.failed ("executor returned " ++ status.text ++ ": " ++ text))
    (status = Http.Status.tooManyRequests || status.isServerError)

/-- The attempt that a response, or its absence, makes. -/
def Attempt.ofReceived : Option Http.Received → Attempt
  | none => .failure (.network "no response") true
  | some r =>
    if r.status.isSuccess then
      match readVector r.content with
      | .ok v => .vector v
      | .error e => .failure e false
    else .refused r.status (Text.decodeMarked r.content)

/-- The attempt that the fate of its question makes; `limit` is how long an answer is waited for. -/
def Attempt.ofFate (limit : Duration) : Fate → Attempt
  | .lost => .ofReceived none
  | .late => .failure (.timeout limit) true
  | .answered r => .ofReceived (some r)
  | .brokenOff status cause =>
    if status.isSuccess then .failure (.invalidResponse cause) false else .refused status ""

/-- The posting that asks for the vector of a text; none if there is nowhere to send it. -/
def Options.posting? (o : Options) (text : String) : Option Http.Posting := do
  let url ← Net.Url.read? o.url
  let body := (Query.toJson ⟨text, o.model⟩).render
  match o.token with
  | none => some ⟨url, none, body⟩
  | some token => do
    let authorization ← Http.bearer? token
    some ⟨url, some authorization, body⟩

/-- Asks once. -/
def Options.ask {σ : Type} (o : Options) (x : Executor σ) (text : String) (s : σ) : σ × Fate :=
  match o.posting? text with
  | none => (s, .lost)
  | some p => x.answer s p

/-- One attempt. -/
def Options.attempt {σ : Type} (o : Options) (x : Executor σ) (text : String) (s : σ) :
    σ × Attempt :=
  let (s, fate) := o.ask x text s
  (s, .ofFate o.timeout fate)

/-- The pause after the `n`th attempt, counted from one. -/
def pauseAfter (n : Nat) : Duration := .ofMillis (100 * Nat.pow 2 n)

/-- A computation as it went. -/
structure Course (σ : Type) where
  /-- Where the executor stands afterwards. -/
  executor : σ
  /-- How many attempts were made. -/
  attempts : Nat
  /-- The pauses in order. -/
  pauses : List Duration
  events : List Log.Event
  answer : Backend.Answer

/-- What the log says about attempt `n` when another one follows. -/
def retryEvent (n : Nat) (e : Error) : Log.Event :=
  .plain .remote .warn ("Remote backend attempt " ++ toString n ++ " failed: " ++ e.message
    ++ "; retrying in " ++ (pauseAfter n).text)

/-- What the log says when attempt `n` brings the vector. -/
def successEvent (n : Nat) : Log.Event :=
  .plain .remote .debug ("Remote embedding succeeded after " ++ toString n ++ " attempt(s)")

/-- What the log says when attempt `n` is the last one and fails. -/
def failureEvent (n : Nat) (e : Error) : Log.Event :=
  .plain .remote .error
    ("Remote backend failed after " ++ toString n ++ " attempt(s): " ++ e.message)

/-- The attempts from the `n`th on, at most `left` of them followed by another. -/
def attempts {σ : Type} (send : σ → σ × Attempt) : (left n : Nat) → σ → Course σ
  | left, n, s =>
    match send s, left with
    | (s, .vector v), _ => ⟨s, n, [], [successEvent n], .ok v⟩
    | (s, .failure e true), left + 1 =>
      let rest := attempts send left (n + 1) s
      { rest with pauses := pauseAfter n :: rest.pauses, events := retryEvent n e :: rest.events }
    | (s, .failure e _), _ => ⟨s, n, [], [failureEvent n e], .error e⟩

/-- The whole computation. -/
def Options.course {σ : Type} (o : Options) (x : Executor σ) (text : String) (s : σ) : Course σ :=
  attempts (o.attempt x text) o.retries 1 s

/-- How long pauses are together. -/
def total (pauses : List Duration) : Duration := pauses.foldl (· + ·) .zero

/-- What the log says about a new remote backend. -/
def Options.openedEvent (o : Options) : Log.Event :=
  .plain .remote .info ("Initialized remote backend for " ++ o.url)

/-- What the log says when the backend lets go of its connections. -/
def Options.closedEvent (o : Options) : Log.Event :=
  .plain .remote .info ("Remote backend for " ++ o.url ++ " closed")

end Remote

/-- Asks an executor.  The executor's share of a computation is taken to happen when it begins; the
pauses are the time it takes. -/
def asking {σ : Type} (o : Remote.Options) (x : Remote.Executor σ) : Backend σ where
  name := "remote"
  compute s text :=
    let c := o.course x text s
    { begun := c.executor
      events := []
      takes := some (Remote.total c.pauses)
      answer := c.answer
      finalEvents := c.events }
  close _ := ⟨[o.closedEvent], some .zero, id⟩

/-- Asks the executor that a peer is. -/
def remote {σ : Type} (o : Remote.Options) (peer : Http.Peer σ) : Backend σ :=
  asking o (.ofPeer peer)

end EmbedServer.Backend
