/-
One call, from its arrival on, against a clock and a cancellation that fires when it fires.

Whoever runs the call looks at it as often as it likes.  The cancellation may fire at any moment, before the
call arrives or never; a look finds it fired if that moment has come.
-/
import EmbedServer.Call.Core

namespace EmbedServer.Call

variable {σ : Type}

/-- The core at a moment; `fires` is the moment at which the cancellation fires, if it ever does. -/
def Core.atMoment (c : Core σ) (fires : Option Nat) (moment : Nat) : Core σ :=
  { c with now := moment, cancel := { c.cancel with fired := fires.any (· ≤ moment) } }

/-- A look at a call at a moment.  A call that is done is left alone. -/
def Core.glance (fires : Option Nat) (moment : Nat) : Core σ × Progress σ → Core σ × Progress σ
  | (c, .waiting p) => (c.atMoment fires moment).poll p
  | (c, .done context o) => (c, .done context o)

/-- A call that arrives now and is looked at, at times measured from its arrival. -/
def Core.follow (c : Core σ) (fires : Option Nat) (context : Context) (request : Request)
    (looks : List Nat) : Core σ × Progress σ :=
  looks.foldl (fun s time => glance fires (c.now + time) s)
    ((c.atMoment fires c.now).take context request)

end EmbedServer.Call
