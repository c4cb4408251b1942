/-
Calls with one more stage that only watches.

Two cores, one of which has the stage, stay together whatever is done to both (`Core.Extends`).  A call that
comes in adds what the stage leaves behind on its way in, and on its way back if it turns back at once; a
look at a waiting call adds the latter if the call turns back now.  The record of a call is the same but
for the way back of a call that waits (`Taken.through`).
-/
import EmbedServer.Proofs.Call.Transparent

namespace EmbedServer.Call

variable {σ : Type}

/-! ### Waiting calls with another way back -/

/-- The same with another way back. -/
def Progress.withLeave (leave : Duration → Outcome → Returned) : Progress σ → Progress σ
  | .done context o => .done context o
  | .waiting p => .waiting { p with leave }

theorem done_congr {b b' : Returned} (h : b'.result = b.result) :
    (.done b'.context b'.outcome : Progress σ) = .done b.context b.outcome := by
  obtain ⟨hcontext, houtcome⟩ := Prod.mk.inj h
  rw [hcontext, houtcome]

namespace Core

theorem verdict?_eq {c c' : Core σ} (handler : c'.handler = c.handler) (cancel : c'.cancel = c.cancel)
    (now : c'.now = c.now) (r : Race σ) : c'.verdict? r = c.verdict? r := by
  simp only [verdict?, handler, cancel, now]

/-- What a look at a waiting call comes to. -/
theorem poll_progress (c : Core σ) (p : Pending σ) :
    (c.poll p).2 =
      match c.verdict? p.race with
      | none => .waiting p
      | some o =>
        .done (p.leave ⟨c.now - p.arrivedAt⟩ o).context (p.leave ⟨c.now - p.arrivedAt⟩ o).outcome := by
  cases h : p.race.winner? c.now c.cancel.ready with
  | none => simp [poll_none c p h, verdict?, h]
  | some w =>
      rw [poll_some c p h, conclude_progress, (same_decided c p w).now]
      simp [verdict?, h]

theorem same_poll (c : Core σ) (p : Pending σ) : Same c (c.poll p).1 := by
  rcases poll_cases c p with ⟨-, h⟩ | ⟨w, c', after, o, -, h, hs⟩ <;> rw [h]
  · exact Same.refl c
  · exact hs

/-- A call that turns back at once is done. -/
theorem take_turning {c : Core σ} {context : Context} {request : Request} {o : Outcome}
    (h : c.turning? context request = some o) :
    (c.take context request).2 =
      .done ((c.service context request).leave ⟨c.now - c.now⟩ o).context
        ((c.service context request).leave ⟨c.now - c.now⟩ o).outcome := by
  unfold turning? at h
  cases hreached : (c.service context request).reached with
  | answered o' =>
      rw [hreached] at h
      cases h
      rw [take_answered c context request hreached, finish_progress, (same_applyAll c _).now]
  | computing chunk =>
      have hs := same_opened c (c.service context request) chunk
      rw [hreached] at h
      cases hc : c.cancel.ready with
      | true =>
          obtain rfl : outcomeOf (.error .cancelled) = o := by simpa [hc] using h
          rw [take_cancelled c context request hreached hc, conclude_progress, hs.now]
      | false =>
          have hverdict : c.verdict? (c.awaited (c.service context request) chunk).race = some o := by
            rw [awaited_race]
            simpa [hc] using h
          have hb := same_begun c (c.service context request) chunk
          rw [take_begun c context request hreached hc, poll_progress,
            verdict?_eq hb.handler hb.cancel hb.now, hverdict, hb.now]
          rfl

/-- A call that does not turn back at once waits. -/
theorem take_waiting {c : Core σ} {context : Context} {request : Request}
    (h : c.turning? context request = none) :
    ∃ chunk, (c.service context request).reached = .computing chunk ∧ c.cancel.ready = false ∧
      (c.take context request).2 = .waiting (c.awaited (c.service context request) chunk) := by
  unfold turning? at h
  cases hreached : (c.service context request).reached with
  | answered o' =>
      rw [hreached] at h
      cases h
  | computing chunk =>
      rw [hreached] at h
      cases hc : c.cancel.ready with
      | true => simp [hc] at h
      | false =>
          have hverdict : c.verdict? (c.awaited (c.service context request) chunk).race = none := by
            rw [awaited_race]
            simpa [hc] using h
          have hb := same_begun c (c.service context request) chunk
          refine ⟨chunk, rfl, rfl, ?_⟩
          rw [take_begun c context request hreached hc, poll_progress,
            verdict?_eq hb.handler hb.cancel hb.now, hverdict]

/-! ### Cores that stay together

What the stage leaves behind comes at some point in between, and the point is not remembered: the counters
do not depend on it, and the log is compared as what is there besides.
-/

variable {extra mid : List Effect} {c c' : Core σ}

theorem Extends.logAll (h : Extends extra c c') (events : List Log.Event) :
    Extends extra (c.logAll events) (c'.logAll events) := by
  have hlogged : ∀ c : Core σ, c.logAll events = c.applyAll (events.map .log) := by
    intro c
    have hevents : Effect.events (events.map .log) = events := by
      induction events with
      | nil => rfl
      | cons e rest ih => exact congrArg (e :: ·) ih
    have htraces : Effect.traces (events.map .log) = [] := by simp [Effect.traces]
    have hsamples : Effect.samples (events.map .log) = [] := by simp [Effect.samples]
    rw [applyAll_eq, hevents, htraces, hsamples, List.append_nil]
    rfl
  rw [hlogged, hlogged]
  exact h.applyAll _

theorem Extends.compute_to (h : Extends extra c c') (compute : σ) :
    Extends extra { c with compute } { c' with compute } :=
  { h with compute := rfl }

theorem Extends.finish (h : Extends extra c c') (arrivedAt : Nat) (o : Outcome)
    {leave leave' : Duration → Outcome → Returned}
    (hl : Inserts mid (leave ⟨c.now - arrivedAt⟩ o).effects (leave' ⟨c.now - arrivedAt⟩ o).effects)
    (hmid : Effect.traces mid = []) :
    Extends (extra ++ mid) (c.finish arrivedAt leave o).1 (c'.finish arrivedAt leave' o).1 := by
  show Extends _ (c.applyAll _) (c'.applyAll _)
  rw [h.now]
  exact h.inserts hl hmid

theorem Extends.conclude (h : Extends extra c c') (startedAt arrivedAt : Nat) (a : Backend.Answer)
    {leave leave' : Duration → Outcome → Returned}
    (hl : Inserts mid (leave ⟨c.now - arrivedAt⟩ (outcomeOf a)).effects
      (leave' ⟨c.now - arrivedAt⟩ (outcomeOf a)).effects)
    (hmid : Effect.traces mid = []) :
    Extends (extra ++ mid) (c.conclude startedAt arrivedAt leave a).1
      (c'.conclude startedAt arrivedAt leave' a).1 := by
  rw [Core.conclude, Core.conclude, h.handler, h.now]
  refine (h.applyAll _).finish arrivedAt (outcomeOf a) ?_ hmid
  rw [(same_applyAll c _).now]
  exact hl

theorem Extends.decided (h : Extends extra c c') (p : Pending σ)
    (leave : Duration → Outcome → Returned) (w : Race.Winner) :
    Extends extra (c.decided p w) (c'.decided { p with leave } w) := by
  cases w with
  | computation =>
      simp only [Core.decided, h.compute]
      exact (h.compute_to _).logAll _
  | cancellation => exact h
  | deadline => exact h

/-- A look at the same waiting call, with what its way back leaves behind besides. -/
theorem Extends.poll (h : Extends extra c c') (p : Pending σ)
    (leave : Duration → Outcome → Returned) {mids : Outcome → List Effect}
    (hl : ∀ o, Inserts (mids o) (p.leave ⟨c.now - p.arrivedAt⟩ o).effects
      (leave ⟨c.now - p.arrivedAt⟩ o).effects)
    (hmid : ∀ o, Effect.traces (mids o) = []) :
    Extends (extra ++ (c.verdict? p.race).elim [] mids) (c.poll p).1 (c'.poll { p with leave }).1 := by
  cases hw : p.race.winner? c.now c.cancel.ready with
  | none =>
      have hw' : p.race.winner? c'.now c'.cancel.ready = none := by rw [h.now, h.cancel, hw]
      rw [poll_none c p hw, poll_none c' { p with leave } hw']
      simpa [verdict?, hw] using h
  | some w =>
      have hw' : p.race.winner? c'.now c'.cancel.ready = some w := by rw [h.now, h.cancel, hw]
      have hmids : (c.verdict? p.race).elim [] mids = mids (outcomeOf (p.race.answer c.handler w)) := by
        simp [verdict?, hw]
      rw [poll_some c p hw, poll_some c' { p with leave } hw', hmids, h.handler]
      refine (h.decided p leave w).conclude _ _ _ ?_ (hmid _)
      rw [(same_decided c p w).now]
      exact hl _

end Core

/-! ### Calls with one more stage -/

namespace Taken

/-- What a call comes with. -/
def given (k : Taken σ) : Context × Request := (k.context, k.request)

/-- The course of a call through these stages. -/
def course (stages : List Stage) (k : Taken σ) : Course :=
  compose stages k.endpoint k.context k.request

/-- Where a call has come back between these stages and those inside, if it has been there and has
turned back. -/
def comeback? (xs ys : List Stage) (k : Taken σ) : Option Returning :=
  k.turned.bind fun turn =>
    Call.comeback? xs ys k.endpoint k.given ⟨turn.moment - k.arrivedAt⟩ turn.outcome

/-- What a stage between these stages and those inside leaves behind for a call. -/
def added (t : Stage) (xs ys : List Stage) (k : Taken σ) : List Effect :=
  entering t xs k.given ++ leaving t (k.comeback? xs ys)

/-- The same call on its way through other stages. -/
def through (stages : List Stage) (k : Taken σ) : Taken σ :=
  { k with progress := k.progress.withLeave (k.course stages).leave }

/-- A call as it has been recorded: it waits with the way back of its course, or has come back that
way from where it turned. -/
def Sound (stages : List Stage) (k : Taken σ) : Prop :=
  match k.progress with
  | .waiting p => p.leave = (k.course stages).leave ∧ p.arrivedAt = k.arrivedAt ∧ k.turned = none
  | .done context o => ∃ turn, k.turned = some turn ∧
      (context, o) = ((k.course stages).leave ⟨turn.moment - k.arrivedAt⟩ turn.outcome).result

end Taken

namespace Core

variable {extra : List Effect} {c c' : Core σ} {t : Stage} {xs ys : List Stage}

theorem Extends.service (h : Extends extra c c') (ht : t.Transparent) (hs : c.stages = xs ++ ys)
    (hs' : c'.stages = xs ++ t :: ys) (context : Context) (request : Request) :
    Course.Inserts t xs ys (dispatch c.state c.health) (context, request) (c.service context request)
      (c'.service context request) := by
  rw [Core.service, Core.service, h.state, h.health, hs, hs']
  exact compose_inserts ht xs ys _ (context, request)

private theorem turning?_computing {context : Context} {request : Request} {chunk : Chunk}
    (h : (c.service context request).reached = .computing chunk) (hc : c.cancel.ready = false) :
    c.turning? context request = c.verdict? (c.awaited (c.service context request) chunk).race := by
  rw [awaited_race, turning?, h]
  simp [hc]

theorem Extends.awaited (h : Extends extra c c') (course course' : Course) (chunk : Chunk) :
    c'.awaited course' chunk = { c.awaited course chunk with leave := course'.leave } := by
  have hrace : (c'.awaited course' chunk).race = (c.awaited course chunk).race := by
    rw [awaited_race, awaited_race, h.handler, h.backend, h.compute, h.now]
  show Pending.mk c'.now (c'.awaited course' chunk).race course'.leave = _
  rw [h.now, hrace]
  rfl

/-- A call comes in. -/
theorem Extends.take (h : Extends extra c c') (ht : t.Transparent) (hs : c.stages = xs ++ ys)
    (hs' : c'.stages = xs ++ t :: ys) (context : Context) (request : Request) :
    Extends (extra ++ (c.taken context request).added t xs ys) (c.take context request).1
      (c'.take context request).1 := by
  have hi := h.service ht hs hs' context request
  -- What the stage leaves behind on the way back, by the outcome with which the call turns.
  let mids := fun o =>
    leaving t (comeback? xs ys (dispatch c.state c.health) (context, request) ⟨c.now - c.now⟩ o)
  have hmids : ∀ o, Effect.traces (mids o) = [] := fun o => leaving_trace ht _
  have hadded : (c.taken context request).added t xs ys =
      entering t xs (context, request) ++ (c.turning? context request).elim [] mids := by
    show entering t xs _ ++ leaving t ((Option.map _ (c.turning? context request)).bind _) = _
    cases c.turning? context request <;> rfl
  have hstart := h.inserts hi.effects (entering_trace ht xs (context, request))
  rw [hadded, ← List.append_assoc]
  cases hreached : (c.service context request).reached with
  | answered o =>
      have hturning : c.turning? context request = some o := by simp only [turning?, hreached]
      rw [take_answered c context request hreached,
        take_answered c' context request (hi.reached.trans hreached), hturning, h.now]
      refine hstart.finish c.now o ?_ (hmids o)
      rw [(same_applyAll c _).now]
      exact hi.leave _ _
  | computing chunk =>
      have hopened : Extends (extra ++ entering t xs (context, request))
          (c.opened (c.service context request) chunk)
          (c'.opened (c'.service context request) chunk) := by
        rw [opened, opened, h.backend]
        exact hstart.applyAll _
      have hnow := (same_opened c (c.service context request) chunk).now
      cases hc : c.cancel.ready with
      | true =>
          have hturning : c.turning? context request = some (outcomeOf (.error .cancelled)) := by
            simp [turning?, hreached, hc]
          rw [take_cancelled c context request hreached hc,
            take_cancelled c' context request (hi.reached.trans hreached) (by rw [h.cancel, hc]),
            hturning, hopened.now, h.now]
          refine hopened.conclude _ c.now _ ?_ (hmids _)
          rw [hnow]
          exact hi.leave _ _
      | false =>
          have hsame := same_begun c (c.service context request) chunk
          have hbegun : Extends (extra ++ entering t xs (context, request))
              (c.begun (c.service context request) chunk)
              (c'.begun (c'.service context request) chunk) := by
            have hcomputation :
                (c'.opened (c'.service context request) chunk).backend.compute
                    (c'.opened (c'.service context request) chunk).compute chunk.content =
                  (c.opened (c.service context request) chunk).backend.compute
                    (c.opened (c.service context request) chunk).compute chunk.content := by
              rw [hopened.backend, hopened.compute]
            simp only [begun, hcomputation]
            exact (hopened.compute_to _).logAll _
          rw [take_begun c context request hreached hc,
            take_begun c' context request (hi.reached.trans hreached) (by rw [h.cancel, hc]),
            turning?_computing hreached hc, ← verdict?_eq hsame.handler hsame.cancel hsame.now,
            h.awaited]
          refine hbegun.poll _ _ ?_ hmids
          intro o
          rw [hsame.now]
          exact hi.leave _ _

theorem Extends.turning? (h : Extends extra c c') (ht : t.Transparent) (hs : c.stages = xs ++ ys)
    (hs' : c'.stages = xs ++ t :: ys) (context : Context) (request : Request) :
    c'.turning? context request = c.turning? context request := by
  unfold Core.turning?
  rw [(h.service ht hs hs' context request).reached]
  simp only [h.cancel, h.handler, h.backend, h.compute, h.now, verdict?_eq h.handler h.cancel h.now]

theorem Extends.asked? (h : Extends extra c c') (ht : t.Transparent) (hs : c.stages = xs ++ ys)
    (hs' : c'.stages = xs ++ t :: ys) (context : Context) (request : Request) :
    c'.asked? context request = c.asked? context request := by
  unfold Core.asked?
  rw [(h.service ht hs hs' context request).reached, h.cancel]

/-- The record of a call that comes in. -/
theorem Extends.taken (h : Extends extra c c') (ht : t.Transparent) (hs : c.stages = xs ++ ys)
    (hs' : c'.stages = xs ++ t :: ys) (context : Context) (request : Request) :
    c'.taken context request = (c.taken context request).through (xs ++ t :: ys) := by
  have hi := h.service ht hs hs' context request
  have hturning := h.turning? ht hs hs' context request
  have hcourse : (c.taken context request).course (xs ++ t :: ys) = c'.service context request := by
    rw [Core.service, hs', h.state, h.health]
    rfl
  have hprogress : (c'.take context request).2 =
      (c.take context request).2.withLeave (c'.service context request).leave := by
    cases hturn : c.turning? context request with
    | some o =>
        rw [take_turning hturn, take_turning (hturning.trans hturn), h.now, done_congr (hi.result _ _)]
        rfl
    | none =>
        obtain ⟨chunk, hreached, -, hwait⟩ := take_waiting hturn
        obtain ⟨chunk', hreached', -, hwait'⟩ := take_waiting (hturning.trans hturn)
        obtain rfl : chunk = chunk' := by
          rw [hi.reached, hreached] at hreached'
          exact Reached.computing.inj hreached'
        rw [hwait, hwait', h.awaited (c.service context request)]
        rfl
  unfold Taken.through
  rw [hcourse]
  show Taken.mk context request (dispatch c'.state c'.health) c'.now _ _ = _
  rw [hprogress, hturning, h.state, h.health, h.now]
  rfl

theorem sound_taken (c : Core σ) (context : Context) (request : Request) :
    (c.taken context request).Sound c.stages := by
  have hcourse : (c.taken context request).course c.stages = c.service context request := rfl
  have hprogress : (c.taken context request).progress = (c.take context request).2 := rfl
  unfold Taken.Sound
  rw [hcourse, hprogress]
  cases hturn : c.turning? context request with
  | some o =>
      rw [take_turning hturn]
      exact ⟨⟨c.now, o⟩, by simp [taken, hturn], rfl⟩
  | none =>
      obtain ⟨chunk, -, -, hwait⟩ := take_waiting hturn
      rw [hwait]
      exact ⟨rfl, rfl, by simp [taken, hturn]⟩

end Core

end EmbedServer.Call
