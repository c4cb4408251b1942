/-
What a call does to the core that takes it.

Two things are needed of it later.

  * A call never moves the clock, the lifecycle, the cancellation or the registry, whatever becomes of
    it.  So of everything else in the server only the backend, the counters and the log can tell that
    a call has been there.
  * Only a server that runs begins a computation.  A call that comes later is answered on its way in,
    and the backend never hears of it.
-/
import EmbedServer.Call.Core

namespace EmbedServer.Call

variable {σ : Type}

/-! ### Races -/

namespace Race

/-- A race goes on until it is cancelled or its moment has come. -/
theorem winner?_eq_none {r : Race σ} {now : Nat} {cancelled : Bool} :
    r.winner? now cancelled = none ↔ cancelled = false ∧ now < r.nextMoment := by
  cases cancelled with
  | true => simp [winner?]
  | false =>
      cases hends : r.endsAt with
      | none => simp [winner?, nextMoment, hends]
      | some x =>
          by_cases hx : x ≤ now
          · have hmin : ¬now < min x r.deadline := by omega
            simp [winner?, nextMoment, hends, hx, hmin]
          · by_cases hd : r.deadline ≤ now
            · have hmin : ¬now < min x r.deadline := by omega
              simp [winner?, nextMoment, hends, hx, hd, hmin]
            · have hmin : now < min x r.deadline := by omega
              simp [winner?, nextMoment, hends, hx, hd, hmin]

/-- The answer of a race that nobody cancels, looked at no sooner than it is over. -/
def ownAnswer (r : Race σ) (h : Handler) (moment : Nat) : Backend.Answer :=
  if r.endsAt.any (· ≤ moment) then r.computation.answer else .error (.timeout h.timeout)

theorem answer_eq_ownAnswer {r : Race σ} {h : Handler} {now : Nat} {w : Winner}
    (hw : r.winner? now false = some w) : r.answer h w = r.ownAnswer h now := by
  simp only [winner?, Bool.false_eq_true, if_false] at hw
  unfold ownAnswer
  split at hw
  · rename_i hends
    rw [if_pos hends, ← Option.some.inj hw]
    rfl
  · rename_i hends
    split at hw
    · rw [if_neg hends, ← Option.some.inj hw]
      rfl
    · cases hw

end Race

/-- The outcome of a waiting call that has an answer at a moment, after its way back. -/
def Pending.outcome (p : Pending σ) (moment : Nat) (a : Backend.Answer) : Outcome :=
  (p.leave ⟨moment - p.arrivedAt⟩ (outcomeOf a)).outcome

/-! ### The frame of a call

Later statements are about whole servers.  They need to know of a call only what it does not touch, so
this is said once of every operation that calls are made of.
-/

/-- Two cores that differ in nothing but the backend's state, the counters, the log and the trace. -/
structure Core.Same (c c' : Core σ) : Prop where
  stages : c'.stages = c.stages
  handler : c'.handler = c.handler
  backend : c'.backend = c.backend
  health : c'.health = c.health
  state : c'.state = c.state
  cancel : c'.cancel = c.cancel
  now : c'.now = c.now

namespace Core

theorem Same.refl (c : Core σ) : Same c c := ⟨rfl, rfl, rfl, rfl, rfl, rfl, rfl⟩

theorem Same.trans {a b c : Core σ} (h₁ : Same a b) (h₂ : Same b c) : Same a c where
  stages := h₂.stages.trans h₁.stages
  handler := h₂.handler.trans h₁.handler
  backend := h₂.backend.trans h₁.backend
  health := h₂.health.trans h₁.health
  state := h₂.state.trans h₁.state
  cancel := h₂.cancel.trans h₁.cancel
  now := h₂.now.trans h₁.now

theorem same_apply (c : Core σ) (f : Effect) : Same c (c.apply f) := by
  cases f <;> exact ⟨rfl, rfl, rfl, rfl, rfl, rfl, rfl⟩

theorem same_applyAll (c : Core σ) (fx : List Effect) : Same c (c.applyAll fx) := by
  induction fx generalizing c with
  | nil => exact Same.refl c
  | cons f rest ih => exact (same_apply c f).trans (ih (c.apply f))

theorem compute_applyAll (c : Core σ) (fx : List Effect) : (c.applyAll fx).compute = c.compute := by
  induction fx generalizing c with
  | nil => rfl
  | cons f rest ih =>
      have hf : (c.apply f).compute = c.compute := by cases f <;> rfl
      exact (ih (c.apply f)).trans hf

theorem same_logAll (c : Core σ) (events : List Log.Event) : Same c (c.logAll events) :=
  ⟨rfl, rfl, rfl, rfl, rfl, rfl, rfl⟩

private theorem same_compute (c : Core σ) (compute : σ) : Same c { c with compute } :=
  ⟨rfl, rfl, rfl, rfl, rfl, rfl, rfl⟩

theorem same_finish (c : Core σ) (arrivedAt : Nat) (leave : Duration → Outcome → Returned)
    (o : Outcome) : Same c (c.finish arrivedAt leave o).1 :=
  same_applyAll c _

theorem finish_progress (c : Core σ) (arrivedAt : Nat) (leave : Duration → Outcome → Returned)
    (o : Outcome) :
    (c.finish arrivedAt leave o).2 =
      .done (leave ⟨c.now - arrivedAt⟩ o).context (leave ⟨c.now - arrivedAt⟩ o).outcome := rfl

theorem conclude_progress (c : Core σ) (startedAt arrivedAt : Nat)
    (leave : Duration → Outcome → Returned) (a : Backend.Answer) :
    (c.conclude startedAt arrivedAt leave a).2 =
      .done (leave ⟨c.now - arrivedAt⟩ (outcomeOf a)).context
        (leave ⟨c.now - arrivedAt⟩ (outcomeOf a)).outcome := by
  rw [conclude, finish_progress, (same_applyAll c _).now]

private theorem same_conclude (c : Core σ) (startedAt arrivedAt : Nat)
    (leave : Duration → Outcome → Returned) (a : Backend.Answer) :
    Same c (c.conclude startedAt arrivedAt leave a).1 :=
  (same_applyAll c _).trans (same_finish _ arrivedAt leave _)

/-! ### Looking at a waiting call -/

theorem poll_none (c : Core σ) (p : Pending σ)
    (h : p.race.winner? c.now c.cancel.ready = none) : c.poll p = (c, .waiting p) := by
  simp only [poll, h]

/-- The core on which the end of a race is settled. -/
def decided (c : Core σ) (p : Pending σ) : Race.Winner → Core σ
  | .computation =>
    { c with compute := p.race.computation.settle c.compute }.logAll p.race.computation.finalEvents
  | .cancellation | .deadline => c

theorem same_decided (c : Core σ) (p : Pending σ) (w : Race.Winner) : Same c (c.decided p w) := by
  cases w with
  | computation => exact (same_compute c _).trans (same_logAll _ _)
  | cancellation => exact Same.refl c
  | deadline => exact Same.refl c

theorem poll_some (c : Core σ) (p : Pending σ) {w : Race.Winner}
    (h : p.race.winner? c.now c.cancel.ready = some w) :
    c.poll p =
      (c.decided p w).conclude p.race.startedAt p.arrivedAt p.leave (p.race.answer c.handler w) := by
  cases w with
  | computation =>
      have hhandler := (same_decided c p .computation).handler
      simp only [poll, h, decided] at hhandler ⊢
      rw [hhandler]
  | cancellation => simp only [poll, h, decided]
  | deadline => simp only [poll, h, decided]

theorem poll_outcome (c : Core σ) (p : Pending σ) {w : Race.Winner}
    (h : p.race.winner? c.now c.cancel.ready = some w) :
    ∃ c' after, c.poll p = (c', .done after (p.outcome c.now (p.race.answer c.handler w))) := by
  have hprogress := conclude_progress (c.decided p w) p.race.startedAt p.arrivedAt p.leave
    (p.race.answer c.handler w)
  rw [(same_decided c p w).now] at hprogress
  exact ⟨_, _, (poll_some c p h).trans (Prod.ext rfl hprogress)⟩

/-- A call that is looked at either waits on, with nothing changed, or is done. -/
theorem poll_cases (c : Core σ) (p : Pending σ) :
    (p.race.winner? c.now c.cancel.ready = none ∧ c.poll p = (c, .waiting p)) ∨
      ∃ w c' after o, p.race.winner? c.now c.cancel.ready = some w ∧
        c.poll p = (c', .done after o) ∧ Same c c' := by
  cases h : p.race.winner? c.now c.cancel.ready with
  | none => exact Or.inl ⟨rfl, poll_none c p h⟩
  | some w =>
      exact Or.inr ⟨w, _, _, _, rfl, poll_some c p h,
        (same_decided c p w).trans (same_conclude _ _ _ _ _)⟩

/-! ### Taking a call

A call that comes in is answered on its way in, cancelled before its computation begins, or left waiting,
and these are the cases that everything later is split by (`take_cases`).
-/

/-- The core on which a computation has begun. -/
def opened (c : Core σ) (course : Course) (chunk : Chunk) : Core σ :=
  (c.applyAll course.effects).applyAll (Handler.opening c.backend.name chunk)

theorem same_opened (c : Core σ) (course : Course) (chunk : Chunk) :
    Same c (c.opened course chunk) :=
  (same_applyAll c _).trans (same_applyAll _ _)

/-- The core on which a computation is in progress. -/
def begun (c : Core σ) (course : Course) (chunk : Chunk) : Core σ :=
  let c := c.opened course chunk
  let computation := c.backend.compute c.compute chunk.content
  { c with compute := computation.begun }.logAll computation.events

theorem same_begun (c : Core σ) (course : Course) (chunk : Chunk) :
    Same c (c.begun course chunk) :=
  (same_opened c course chunk).trans ((same_compute _ _).trans (same_logAll _ _))

/-- The call whose computation is in progress. -/
def awaited (c : Core σ) (course : Course) (chunk : Chunk) : Pending σ :=
  let o := c.opened course chunk
  ⟨c.now, o.handler.race (o.backend.compute o.compute chunk.content) o.now, course.leave⟩

theorem awaited_race (c : Core σ) (course : Course) (chunk : Chunk) :
    (c.awaited course chunk).race =
      c.handler.race (c.backend.compute c.compute chunk.content) c.now := by
  have hs := same_opened c course chunk
  have hcompute : (c.opened course chunk).compute = c.compute := by
    rw [opened, compute_applyAll, compute_applyAll]
  simp only [awaited, hs.handler, hs.backend, hs.now, hcompute]

theorem take_answered (c : Core σ) (context : Context) (request : Request) {o : Outcome}
    (h : (c.service context request).reached = .answered o) :
    c.take context request =
      (c.applyAll (c.service context request).effects).finish c.now
        (c.service context request).leave o := by
  simp only [take, h]

theorem take_cancelled (c : Core σ) (context : Context) (request : Request) {chunk : Chunk}
    (h : (c.service context request).reached = .computing chunk) (hc : c.cancel.ready = true) :
    c.take context request =
      (c.opened (c.service context request) chunk).conclude
        (c.opened (c.service context request) chunk).now c.now
        (c.service context request).leave (.error .cancelled) := by
  have hs := same_opened c (c.service context request) chunk
  have hb := (same_applyAll c (c.service context request).effects).backend
  have hc' : (c.opened (c.service context request) chunk).cancel.ready = true := by
    rw [hs.cancel]; exact hc
  simp only [opened] at hc' ⊢
  simp only [take, h, hb, hc', if_true]

theorem take_begun (c : Core σ) (context : Context) (request : Request) {chunk : Chunk}
    (h : (c.service context request).reached = .computing chunk) (hc : c.cancel.ready = false) :
    c.take context request =
      (c.begun (c.service context request) chunk).poll
        (c.awaited (c.service context request) chunk) := by
  have hs := same_opened c (c.service context request) chunk
  have hb := (same_applyAll c (c.service context request).effects).backend
  have hc' : (c.opened (c.service context request) chunk).cancel.ready = false := by
    rw [hs.cancel]; exact hc
  simp only [opened] at hc'
  simp only [take, h, hb, hc', begun, awaited, opened]
  rfl

/-! ### Only a server that runs computes -/

/-- No stage asks for a computation by itself. -/
theorem reached_compose (stages : List Stage) {endpoint : Service}
    (h : ∀ context request, ∃ o, (endpoint context request).reached = .answered o) :
    ∀ context request, ∃ o, (compose stages endpoint context request).reached = .answered o := by
  induction stages with
  | nil => exact h
  | cons s rest ih =>
      intro context request
      simp only [compose_cons, Stage.around]
      split
      · exact ⟨_, rfl⟩
      · rename_i fx after handed _
        exact ih after handed

/-- A server that does not run answers every call on its way in. -/
theorem service_answers {c : Core σ} (h : c.state ≠ .running) (context : Context)
    (request : Request) : ∃ o, (c.service context request).reached = .answered o := by
  refine reached_compose c.stages ?_ context request
  intro context request
  cases request with
  | predict chunk => exact ⟨.error .shuttingDown, by simp [dispatch, h, Course.answered]⟩
  | check q => exact ⟨_, rfl⟩

/-- Only a server that runs asks its backend. -/
theorem running_of_computing {c : Core σ} {context : Context} {request : Request} {chunk : Chunk}
    (h : (c.service context request).reached = .computing chunk) : c.state = .running := by
  refine Decidable.byContradiction ?_
  intro hne
  obtain ⟨o, ho⟩ := service_answers hne context request
  rw [h] at ho
  cases ho

/-- What becomes of a call: it is done, or the server runs and the call waits for the computation that
has just begun. -/
theorem take_cases (c : Core σ) (context : Context) (request : Request) :
    (∃ c' after o, c.take context request = (c', .done after o) ∧ Same c c') ∨
      (∃ chunk, c.state = .running ∧ (c.service context request).reached = .computing chunk ∧
        c.cancel.ready = false ∧
        c.take context request =
          (c.begun (c.service context request) chunk,
            .waiting (c.awaited (c.service context request) chunk))) := by
  cases h : (c.service context request).reached with
  | answered o =>
      exact Or.inl ⟨_, _, _, take_answered c context request h,
        (same_applyAll c _).trans (same_finish _ _ _ _)⟩
  | computing chunk =>
      have hrun := running_of_computing h
      cases hc : c.cancel.ready with
      | true =>
          exact Or.inl ⟨_, _, _, take_cancelled c context request h hc,
            (same_opened c _ chunk).trans (same_conclude _ _ _ _ _)⟩
      | false =>
          have htake := take_begun c context request h hc
          have hsame := same_begun c (c.service context request) chunk
          rcases poll_cases (c.begun (c.service context request) chunk)
            (c.awaited (c.service context request) chunk) with ⟨-, hp⟩ | ⟨w, c', after, o, -, hp, hs⟩
          · exact Or.inr ⟨chunk, hrun, rfl, rfl, by rw [htake, hp]⟩
          · exact Or.inl ⟨c', after, o, by rw [htake, hp], hsame.trans hs⟩

theorem same_take (c : Core σ) (context : Context) (request : Request) :
    Same c (c.take context request).1 := by
  rcases take_cases c context request with ⟨c', after, o, h, hs⟩ | ⟨chunk, -, -, -, h⟩
  · rw [h]; exact hs
  · rw [h]; exact same_begun c _ chunk

end Core

end EmbedServer.Call
