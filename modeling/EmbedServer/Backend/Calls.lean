/-
What a backend is called for, one call after the other, and what comes of it.

A call that is made runs to its end before the next one.  What has come of the calls so far is the history;
from it alone follows which vectors a backend that remembers would have to know.
-/
import EmbedServer.Backend.Cache

namespace EmbedServer.Backend

/-- What a backend is called for. -/
inductive Call where
  | compute (text : String)
  | close
  deriving DecidableEq, Repr

/-- What came of a call. -/
inductive Done where
  | computed (text : String) (a : Answer)
  | closed

variable {σ : Type}

/-- Makes a call: the state after it, and what came of it. -/
def perform (b : Backend σ) (s : σ) : Call → σ × Done
  | .compute text =>
    let c := b.compute s text
    (c.finished.1, .computed text c.answer)
  | .close => ((b.closed s).1, .closed)

/-- Makes calls: the state after them, and the history. -/
def performAll (b : Backend σ) (s : σ) : List Call → σ × List Done
  | [] => (s, [])
  | call :: rest =>
    let (s, d) := b.perform s call
    let (s, history) := performAll b s rest
    (s, d :: history)

/-- A backend that is overheard: every call of it is noted, the latest last. -/
def overheard (b : Backend σ) : Backend (σ × List Call) where
  name := b.name
  compute state text :=
    let c := b.compute state.1 text
    { begun := (c.begun, state.2 ++ [.compute text])
      events := c.events
      takes := c.takes
      answer := c.answer
      finalEvents := c.finalEvents
      settle := fun s => (c.settle s.1, s.2) }
  close state :=
    let c := b.close state.1
    ⟨c.events, c.takes, fun s => (c.settle s.1, s.2 ++ [.close])⟩

/-! ### What a history says -/

def Done.isClosed : Done → Bool
  | .computed _ _ => false
  | .closed => true

/-- What has come of the calls since the last close. -/
def sinceClose (history : List Done) : List Done :=
  (history.reverse.takeWhile (!·.isClosed)).reverse

/-- The vector that this is, if it is one for the text. -/
def Done.vector? (text : String) : Done → Option (List Float)
  | .computed text' (.ok v) => if text' = text then some v else none
  | _ => none

/-- The vector that came first for a text since the last close. -/
def recalled? (history : List Done) (text : String) : Option (List Float) :=
  (sinceClose history).findSome? (·.vector? text)

/-- What comes of a call of a cache, `now` being its state before and `next` its state after it: what
the backend behind says, which is asked once, if no vector for the text has come since the last close,
and else that vector. -/
inductive Memo (inner : Backend σ) (history : List Done) (now next : CacheState (σ × List Call)) :
    Call → Done → Prop where
  | asked {text : String} {a : Answer} (fresh : recalled? history text = none)
      (answer : inner.perform now.inner.1 (.compute text) = (next.inner.1, .computed text a))
      (once : next.inner.2 = now.inner.2 ++ [.compute text])
      (kept : ∀ e, a = .error e → next.known = now.known) :
      Memo inner history now next (.compute text) (.computed text a)
  | recalled {text : String} {v : List Float} (known : recalled? history text = some v)
      (same : next = now) : Memo inner history now next (.compute text) (.computed text (.ok v))
  | closed (closed : inner.perform now.inner.1 .close = (next.inner.1, .closed))
      (once : next.inner.2 = now.inner.2 ++ [.close]) (forgotten : next.known = []) :
      Memo inner history now next .close .closed

/-- A cache whose backend behind is seen otherwise. -/
def CacheState.map {τ : Type} (f : σ → τ) (c : CacheState σ) : CacheState τ := ⟨f c.inner, c.known⟩

/-- How a cache takes a call after others: `now` is its state and `history` what came of the others,
`next` is its state and `d` what came of the call. -/
structure Faithful (inner : Backend σ) (s : σ) (past : List Call) (call : Call)
    (now next : CacheState (σ × List Call)) (history : List Done) (d : Done) : Prop where
  before : (cached inner.overheard).performAll ⟨(s, []), []⟩ past = (now, history)
  after : (cached inner.overheard).perform now call = (next, d)
  memo : Memo inner history now next call d
  /-- The backend behind has performed what it was heard to be called for, and nothing else. -/
  behind : now.inner.1 = (inner.performAll s now.inner.2).1
  /-- It makes no difference that it is overheard. -/
  unnoticed : (cached inner).performAll ⟨s, []⟩ past = (now.map Prod.fst, history) ∧
    (cached inner).perform (now.map Prod.fst) call = (next.map Prod.fst, d)
  /-- If its answers go by the text alone, they are what it would answer without the cache. -/
  direct : ∀ f : String → Answer, (∀ s text, (inner.compute s text).answer = f text) →
    d = (inner.perform (inner.performAll s past).1 call).2

end EmbedServer.Backend
