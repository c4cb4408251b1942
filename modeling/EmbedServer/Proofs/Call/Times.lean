/-
A computation is a race of three, and the order of their moments decides it.

Measured from the arrival of a call, the cancellation fires at some time or never, the computation ends at
some time or never, and the time is up at the timeout.  `Times` is these three numbers, and says by itself
when the race is over, who has won it and what the caller gets; a tie goes to the cancellation, then to the
computation.  The race that the handler runs finds at every moment what the times say (`winner?_times`).
-/
import EmbedServer.Call.Timeline
import EmbedServer.Proofs.Call.Core

namespace EmbedServer.Call

variable {σ : Type}

/-! ### Races by their times -/

/-- The times of a race, measured from its start; `none` for what never happens. -/
structure Times where
  cancelled : Option Nat
  ended : Option Nat
  timeout : Duration

namespace Times

/-- The time at which the race is over if nothing cancels it. -/
def ownFinish (x : Times) : Nat := min (x.ended.getD x.timeout.nanos) x.timeout.nanos

/-- The time at which the race is over. -/
def finish (x : Times) : Nat := min (x.cancelled.getD x.ownFinish) x.ownFinish

/-- Who wins the race. -/
def winner (x : Times) : Race.Winner :=
  if x.cancelled.any (· ≤ x.ownFinish) then .cancellation
  else if x.ended.any (· ≤ x.timeout.nanos) then .computation
  else .deadline

/-- The outcome of the race, if this is what the computation answers. -/
def outcome (x : Times) (a : Backend.Answer) : Outcome :=
  if x.cancelled.any (· ≤ x.ownFinish) then .error ⟨.cancelled, "call cancelled by server shutdown"⟩
  else if x.ended.any (· ≤ x.timeout.nanos) then
    match a with
    | .ok vec => .ok (.embedding ⟨vec⟩)
    | .error e => .error (.ofBackend e)
  else .error ⟨.backendUnavailable, (Backend.Error.timeout x.timeout).message⟩

/-- Who is found to have won by a time. -/
def winnerBy? (x : Times) (time : Nat) : Option Race.Winner :=
  if x.cancelled.any (· ≤ time) then some .cancellation
  else if x.ended.any (· ≤ time) then some .computation
  else if x.timeout.nanos ≤ time then some .deadline
  else none

theorem winnerBy?_early {x : Times} {time : Nat} (h : time < x.finish) : x.winnerBy? time = none := by
  obtain ⟨hcancelled, hown⟩ := Nat.lt_min.mp h
  obtain ⟨hended, htimeout⟩ := Nat.lt_min.mp hown
  have before : ∀ {event : Option Nat} {bound : Nat}, time < event.getD bound →
      ¬event.any (· ≤ time) = true := by
    rintro (- | moment) bound hlt
    · exact Bool.false_ne_true
    · exact fun hle => absurd (of_decide_eq_true hle) (Nat.not_le.mpr hlt)
  rw [winnerBy?, if_neg (before hcancelled), if_neg (before hended), if_neg (Nat.not_le.mpr htimeout)]

/-- What comes in time is what the earlier of the two times is. -/
theorem min_getD_of_any {event : Option Nat} {bound : Nat} (h : event.any (· ≤ bound) = true) :
    event.any (· ≤ min (event.getD bound) bound) = true := by
  obtain - | moment := event
  · exact absurd h Bool.false_ne_true
  · have hle : moment ≤ bound := of_decide_eq_true h
    exact decide_eq_true (Nat.le_min.mpr ⟨Nat.le_refl _, hle⟩)

private theorem min_getD_of_not_any {event : Option Nat} {bound : Nat} (h : ¬event.any (· ≤ bound) = true) :
    min (event.getD bound) bound = bound := by
  obtain - | moment := event
  · exact Nat.min_self _
  · exact Nat.min_eq_right (Nat.le_of_not_le fun hle => h (decide_eq_true hle))

theorem winnerBy?_finish (x : Times) : x.winnerBy? x.finish = some x.winner := by
  unfold winnerBy? winner
  by_cases hc : x.cancelled.any (· ≤ x.ownFinish) = true
  · have hcancelled : x.cancelled.any (· ≤ x.finish) = true := min_getD_of_any hc
    rw [if_pos hc, if_pos hcancelled]
  · have hfinish : x.finish = x.ownFinish := min_getD_of_not_any hc
    rw [hfinish, if_neg hc, if_neg hc]
    by_cases he : x.ended.any (· ≤ x.timeout.nanos) = true
    · have hended : x.ended.any (· ≤ x.ownFinish) = true := min_getD_of_any he
      rw [if_pos he, if_pos hended]
    · have hown : x.ownFinish = x.timeout.nanos := min_getD_of_not_any he
      rw [hown, if_neg he, if_neg he, if_pos (Nat.le_refl _)]

end Times

/-- The times of the race for a chunk that is asked for now. -/
def Core.times (c : Core σ) (fires : Option Nat) (chunk : Chunk) : Times where
  cancelled := fires.map (· - c.now)
  ended := (c.backend.compute c.compute chunk.content).takes.map (·.nanos)
  timeout := c.handler.timeout

namespace Core

theorem fired_times (c : Core σ) (fires : Option Nat) (chunk : Chunk) (time : Nat) :
    fires.any (· ≤ c.now + time) = (c.times fires chunk).cancelled.any (· ≤ time) := by
  cases fires with
  | none => rfl
  | some moment => exact decide_eq_decide.mpr (Nat.sub_le_iff_le_add'.symm)

private theorem ended_times (c : Core σ) (fires : Option Nat) (chunk : Chunk) (time : Nat) :
    ((c.backend.compute c.compute chunk.content).takes.map (c.now + ·.nanos)).any
        (· ≤ c.now + time) = (c.times fires chunk).ended.any (· ≤ time) := by
  unfold times
  cases (c.backend.compute c.compute chunk.content).takes with
  | none => rfl
  | some d => exact decide_eq_decide.mpr Nat.add_le_add_iff_left

/-- A look at the race finds who has won by then. -/
theorem winner?_times (c : Core σ) (fires : Option Nat) (chunk : Chunk) (time : Nat) :
    (c.handler.race (c.backend.compute c.compute chunk.content) c.now).winner? (c.now + time)
        (fires.any (· ≤ c.now + time)) = (c.times fires chunk).winnerBy? time := by
  unfold Race.winner? Times.winnerBy?
  simp only [Handler.race, fired_times c fires chunk time, ended_times c fires chunk time,
    Nat.add_le_add_iff_left]
  rfl

/-- The answer of the winner, as the caller sees it. -/
theorem outcome_times (c : Core σ) (fires : Option Nat) (chunk : Chunk) :
    outcomeOf ((c.handler.race (c.backend.compute c.compute chunk.content) c.now).answer c.handler
        (c.times fires chunk).winner) =
      (c.times fires chunk).outcome (c.backend.compute c.compute chunk.content).answer := by
  unfold Times.winner Times.outcome
  split
  · rfl
  · split
    · cases h : (c.backend.compute c.compute chunk.content).answer with
      | ok vec => simp only [Race.answer, Handler.race, h, outcomeOf]
      | error e => simp only [Race.answer, Handler.race, h, outcomeOf]
    · rfl

end Core

end EmbedServer.Call
