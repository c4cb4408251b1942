/-
The attempts of a computation, one round at a time, with numbers that have to fit their words.

`attempts` says at once all that comes of a computation, and counts without a bound.  Here a round
counts its attempt in thirty-two bits, asks, and either ends the loop or works out in sixty-four bits
how long to pause.  A number that does not fit its word ends the loop without an answer.

Beside the loop stands what it may be compared with: the fates of the questions one after the other,
as if they were asked for ever, and what each fate says by itself.
-/
import EmbedServer.Backend.Remote

namespace EmbedServer.Backend.Remote

/-- A number, if it fits a word. -/
def fitting (w : Schema.Width) (n : Nat) : Option Nat := if w.fits n then some n else none

/-- The pause after the `n`th attempt, if the power and its multiple fit sixty-four bits. -/
def pauseInWords? (n : Nat) : Option Duration := do
  let power ← fitting .w64 (Nat.pow 2 n)
  let millis ← fitting .w64 (100 * power)
  some (.ofMillis millis)

/-- What the loop does. -/
inductive Loop.Step where
  | send
  | pause (d : Duration)
  deriving DecidableEq, Repr

/-- How the loop ends. -/
inductive Loop.Ending where
  | answer (a : Backend.Answer)
  /-- A number did not fit its word. -/
  | overflow

/-- The loop between two rounds. -/
structure Loop (σ : Type) where
  executor : σ
  /-- The attempts counted so far. -/
  count : Nat
  /-- What has been done; the latest last. -/
  steps : List Loop.Step
  ending : Option Loop.Ending

namespace Loop

variable {σ : Type}

def start (s : σ) : Loop σ := ⟨s, 0, [], none⟩

/-- What attempt `n` leads to, after these steps. -/
def settle (retries n : Nat) (steps : List Step) : σ × Attempt → Loop σ
  | (s, .vector v) => ⟨s, n, steps ++ [.send], some (.answer (.ok v))⟩
  | (s, .failure e again) =>
    if again && n ≤ retries then
      match pauseInWords? n with
      | some d => ⟨s, n, steps ++ [.send, .pause d], none⟩
      | none => ⟨s, n, steps ++ [.send], some .overflow⟩
    else ⟨s, n, steps ++ [.send], some (.answer (.error e))⟩

/-- One round, unless the loop has ended. -/
def round (send : σ → σ × Attempt) (retries : Nat) (l : Loop σ) : Loop σ :=
  match l.ending, fitting .w32 (l.count + 1) with
  | some _, _ => l
  | none, none => { l with ending := some .overflow }
  | none, some n => settle retries n l.steps (send l.executor)

/-- The loop after a number of rounds. -/
def run (send : σ → σ × Attempt) (retries : Nat) (s : σ) : (rounds : Nat) → Loop σ
  | 0 => start s
  | rounds + 1 => round send retries (run send retries s rounds)

/-- What is done in `n` rounds that are each followed by another. -/
def repeats (n : Nat) : List Step :=
  (List.range n).flatMap fun i => [.send, .pause (.ofMillis (100 * Nat.pow 2 (i + 1)))]

end Loop

/-! ### The questions, one after the other -/

/-- An executor whose questions have these fates, one after the other. -/
def Executor.scripted (fates : Nat → Fate) : Executor Nat where
  answer i _ := (i + 1, fates i)

/-- An executor that notes what it is sent. -/
def Executor.noting {σ : Type} (x : Executor σ) : Executor (σ × List Http.Posting) where
  answer s p :=
    let (s', fate) := x.answer s.1 p
    ((s', s.2 ++ [p]), fate)

/-- Where the executor stands after a number of questions about a text. -/
def Options.after {σ : Type} (o : Options) (x : Executor σ) (text : String) (s : σ) : Nat → σ
  | 0 => s
  | i + 1 => (o.ask x text (o.after x text s i)).1

/-- The fate of the question about a text that comes after `i` others. -/
def Options.fate {σ : Type} (o : Options) (x : Executor σ) (text : String) (s : σ) (i : Nat) : Fate :=
  (o.ask x text (o.after x text s i)).2

/-- What is sent in so many attempts: always the same, if there is anything to send. -/
def Options.sent (o : Options) (text : String) (attempts : Nat) : List Http.Posting :=
  (o.posting? text).elim [] (List.replicate attempts)

/-- What is answered when an attempt is the last one. -/
def Attempt.answer : Attempt → Backend.Answer
  | .vector v => .ok v
  | .failure e _ => .error e

/-- Whether a response with this status leaves nothing to be mended. -/
def isFinalStatus (status : Http.Status) : Bool := status != 429 && status / 100 != 5

/-- Whether another attempt can make nothing better. -/
def Fate.isFinal : Fate → Bool
  | .lost | .late => false
  | .answered r => isFinalStatus r.status
  | .brokenOff status _ => isFinalStatus status

/-- The first fate that is final, if there is one. -/
def FirstFinal (fate : Nat → Fate) : Option Nat → Prop
  | some k => (fate k).isFinal = true ∧ ∀ i < k, (fate i).isFinal = false
  | none => ∀ i, (fate i).isFinal = false

/-- What the fate of a question says by itself; `limit` is how long an answer is waited for. -/
inductive Fate.Says (limit : Duration) : Fate → Backend.Answer → Prop where
  | lost : Says limit .lost (.error (.network "no response"))
  | late : Says limit .late (.error (.timeout limit))
  /-- Of the vectors with the least index the first one counts. -/
  | vector {r : Http.Received} {a : Answer} {before after : List Item} {item : Item}
      (status : r.status / 100 = 2) (body : Json.Reader.run Answer.shape r.content = .ok a)
      (data : a.data = before ++ item :: after) (earlier : ∀ i ∈ before, item.index < i.index)
      (later : ∀ i ∈ after, item.index ≤ i.index) : Says limit (.answered r) (.ok item.embedding)
  | empty {r : Http.Received} {a : Answer} (status : r.status / 100 = 2)
      (body : Json.Reader.run Answer.shape r.content = .ok a) (data : a.data = []) :
      Says limit (.answered r) (.error (.invalidResponse "response contained no embedding"))
  | unreadable {r : Http.Received} {e : Json.Failure} (status : r.status / 100 = 2)
      (body : Json.Reader.run Answer.shape r.content = .error e) :
      Says limit (.answered r)
        (.error (.invalidResponse ("error decoding response body: " ++ e.message r.content)))
  | brokenOff {status : Http.Status} {cause : String} (h : status / 100 = 2) :
      Says limit (.brokenOff status cause) (.error (.invalidResponse cause))
  | refused {r : Http.Received} (status : r.status / 100 ≠ 2) :
      Says limit (.answered r) (.error (.failed
        ("executor returned " ++ r.status.text ++ ": " ++ Text.decodeMarked r.content)))
  | refusedShort {status : Http.Status} {cause : String} (h : status / 100 ≠ 2) :
      Says limit (.brokenOff status cause)
        (.error (.failed ("executor returned " ++ status.text ++ ": ")))

end EmbedServer.Backend.Remote
