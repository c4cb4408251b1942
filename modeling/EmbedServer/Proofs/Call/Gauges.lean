/-
What a call does to the gauges: how many calls are in flight, and how many have been cancelled.

The two are moved in one place only, around an admitted computation.  Stages that watch and do not
meddle, as the two that the server brings along do, neither move the gauges nor touch the outcome.  So
a call that waits counts as in flight, a call that is done counts as cancelled exactly if its outcome
says so, and no other call leaves a trace in the gauges.
-/
import EmbedServer.Call.Stages
import EmbedServer.Proofs.Call.Core

namespace EmbedServer.Call

variable {σ : Type}

/-- The counters that the endpoint moves. -/
structure Gauges where
  inFlight : UInt64
  cancelled : UInt64
  deriving DecidableEq

namespace Gauges

/-- The gauges after an effect. -/
def count (g : Gauges) : Effect → Gauges
  | .sample .started => { g with inFlight := g.inFlight + 1 }
  | .sample .finished => { g with inFlight := g.inFlight - 1 }
  | .sample .cancelled => { g with cancelled := g.cancelled + 1 }
  | .sample (.request _) | .sample (.backend _) | .sample .error | .log _ | .trace _ => g

/-- The gauges after several effects. -/
def countAll (g : Gauges) (fx : List Effect) : Gauges := fx.foldl count g

/-- The gauges once a call has this outcome. -/
def settle (g : Gauges) (o : Outcome) : Gauges :=
  { g with cancelled := g.cancelled + if isCancelled o then 1 else 0 }

/-- The gauges once a call is in flight. -/
def enlist (g : Gauges) : Gauges := { g with inFlight := g.inFlight + 1 }

/-- The gauges once a call is no longer in flight. -/
def dismiss (g : Gauges) : Gauges := { g with inFlight := g.inFlight - 1 }

@[simp] theorem countAll_nil (g : Gauges) : g.countAll [] = g := rfl

@[simp] theorem countAll_append (g : Gauges) (xs ys : List Effect) :
    g.countAll (xs ++ ys) = (g.countAll xs).countAll ys := List.foldl_append ..

@[simp] theorem dismiss_enlist (g : Gauges) : g.enlist.dismiss = g := by
  simp [enlist, dismiss]

@[simp] theorem settle_ok (g : Gauges) (r : Reply) : g.settle (.ok r) = g := by
  simp [settle, isCancelled]

@[simp] theorem settle_shuttingDown (g : Gauges) : g.settle (.error .shuttingDown) = g := by
  simp [settle, isCancelled, Error.shuttingDown]

theorem settle_dismiss (g : Gauges) (o : Outcome) : (g.settle o).dismiss = g.dismiss.settle o := rfl

end Gauges

/-- The gauges of a core. -/
def Core.gauges (c : Core σ) : Gauges := ⟨c.metrics.inFlight, c.metrics.cancelled⟩

theorem gauges_applyAll (c : Core σ) (fx : List Effect) :
    (c.applyAll fx).gauges = c.gauges.countAll fx := by
  induction fx generalizing c with
  | nil => rfl
  | cons f rest ih =>
      have hf : (c.apply f).gauges = c.gauges.count f := by
        cases f with
        | log e => rfl
        | trace line => rfl
        | sample s => cases s <;> rfl
      show ((c.apply f).applyAll rest).gauges = (c.gauges.count f).countAll rest
      rw [ih, hf]

private theorem countAll_opening (g : Gauges) (backend : String) (chunk : Chunk) :
    g.countAll (Handler.opening backend chunk) = g := rfl

private theorem countAll_closing (g : Gauges) (h : Handler) (elapsed : Duration) (a : Backend.Answer) :
    g.countAll (h.closing elapsed a) = g := by
  unfold Handler.closing
  cases h.counted <;> rfl

private theorem countAll_discharge (g : Gauges) (context : Context) (o : Outcome) :
    g.countAll (discharge context o).effects = (g.settle o).dismiss := by
  unfold discharge
  cases h : isCancelled o <;>
    simp [Gauges.countAll, Gauges.count, Gauges.settle, Gauges.dismiss, h]

/-! ### Stages that watch

Of a stage it matters that the outcome passes through it as it is, and that it counts nothing which the
gauges show.  This is put as a property of ways back, because a waiting call has nothing else left of its
stages.
-/

/-- A way back that changes no outcome and moves the gauges as `f` says. -/
def Returns (leave : Duration → Outcome → Returned) (f : Gauges → Outcome → Gauges) : Prop :=
  ∀ elapsed o, (leave elapsed o).outcome = o ∧
    ∀ g : Gauges, g.countAll (leave elapsed o).effects = f g o

/-- A stage that hands on what it is given, both ways, and leaves the gauges alone. -/
structure Stage.Watches (s : Stage) : Prop where
  enter : ∀ context request, ∃ fx, s.enter context request = (fx, .forward context request) ∧
    ∀ g : Gauges, g.countAll fx = g
  leave : ∀ given context, Returns (fun elapsed o => s.leave ⟨given, context, elapsed, o⟩) fun g _ => g

theorem logging_watches : Stage.Watches .logging where
  enter := fun _ _ => ⟨_, rfl, fun _ => rfl⟩
  leave := fun _ _ _ o => ⟨rfl, fun _ => by cases o <;> rfl⟩

theorem metrics_watches : Stage.Watches .metrics where
  enter := fun _ _ => ⟨_, rfl, fun _ => rfl⟩
  leave := fun _ _ _ o => ⟨rfl, fun _ => by cases o <;> rfl⟩

/-- The stages that the server brings along watch. -/
theorem watches_of_shipped {s : Stage} (h : s = .logging ∨ s = .metrics) : s.Watches := by
  rcases h with rfl | rfl
  · exact logging_watches
  · exact metrics_watches

/-- A course through stages that watch, around the course of the endpoint. -/
structure Course.Wraps (outer inner : Course) : Prop where
  reached : outer.reached = inner.reached
  effects : ∀ g : Gauges, g.countAll outer.effects = g.countAll inner.effects
  leave : ∀ {f}, Returns inner.leave f → Returns outer.leave f

theorem compose_wraps {stages : List Stage} (h : ∀ s ∈ stages, s.Watches) (endpoint : Service)
    (context : Context) (request : Request) :
    (compose stages endpoint context request).Wraps (endpoint context request) := by
  induction stages with
  | nil => exact ⟨rfl, fun _ => rfl, fun hf => hf⟩
  | cons s rest ih =>
      have hs := h s (by simp)
      obtain ⟨fx, henter, hfx⟩ := hs.enter context request
      have hrest := ih fun s' hs' => h s' (by simp [hs'])
      simp only [compose_cons, Stage.around, henter]
      refine ⟨hrest.reached, ?_, ?_⟩
      · intro g
        rw [Gauges.countAll_append, hfx, hrest.effects]
      · intro f hf elapsed o
        obtain ⟨hinner, hcount⟩ := hrest.leave hf elapsed o
        obtain ⟨houter, hcalm⟩ := hs.leave (context, request)
          ((compose rest endpoint context request).leave elapsed o).context elapsed
          ((compose rest endpoint context request).leave elapsed o).outcome
        refine ⟨houter.trans hinner, ?_⟩
        intro g
        show g.countAll (_ ++ _) = f g o
        rw [Gauges.countAll_append, hcount, hcalm]

/-! ### What becomes of the gauges -/

/-- A waiting call whose way back lets it out of flight and counts it as cancelled if it is. -/
def Pending.Counted (p : Pending σ) : Prop := Returns p.leave fun g o => (g.settle o).dismiss

theorem Pending.Counted.outcome {p : Pending σ} (h : p.Counted) (moment : Nat)
    (a : Backend.Answer) : p.outcome moment a = outcomeOf a := (h _ _).1

namespace Core

theorem gauges_finish (c : Core σ) (arrivedAt : Nat) (o : Outcome)
    {leave : Duration → Outcome → Returned} {f : Gauges → Outcome → Gauges} (h : Returns leave f) :
    ∃ c' after, c.finish arrivedAt leave o = (c', .done after o) ∧ Same c c' ∧
      c'.gauges = f c.gauges o := by
  obtain ⟨ho, hg⟩ := h ⟨c.now - arrivedAt⟩ o
  refine ⟨_, _, Prod.ext rfl ((finish_progress c arrivedAt leave o).trans (by rw [ho])),
    same_finish c arrivedAt leave o, ?_⟩
  show (c.applyAll _).gauges = _
  rw [gauges_applyAll, hg]

theorem gauges_conclude (c : Core σ) (startedAt arrivedAt : Nat) (a : Backend.Answer)
    {leave : Duration → Outcome → Returned} {f : Gauges → Outcome → Gauges} (h : Returns leave f) :
    ∃ c' after, c.conclude startedAt arrivedAt leave a = (c', .done after (outcomeOf a)) ∧
      Same c c' ∧ c'.gauges = f c.gauges (outcomeOf a) := by
  have hclosing : (c.applyAll (c.handler.closing ⟨c.now - startedAt⟩ a)).gauges = c.gauges := by
    rw [gauges_applyAll, countAll_closing]
  obtain ⟨c', after, hfinish, hs, hg⟩ := gauges_finish
    (c.applyAll (c.handler.closing ⟨c.now - startedAt⟩ a)) arrivedAt (outcomeOf a) h
  rw [hclosing] at hg
  exact ⟨c', after, hfinish, (same_applyAll c _).trans hs, hg⟩

/-- A look at a call that has won or lost its race answers it and lets it out of flight. -/
theorem poll_counted (c : Core σ) {p : Pending σ} (hp : p.Counted) {w : Race.Winner}
    (h : p.race.winner? c.now c.cancel.ready = some w) :
    ∃ c' after, c.poll p = (c', .done after (outcomeOf (p.race.answer c.handler w))) ∧ Same c c' ∧
      c'.gauges = (c.gauges.settle (outcomeOf (p.race.answer c.handler w))).dismiss := by
  obtain ⟨c', after, hconclude, hs, hg⟩ := gauges_conclude (c.decided p w) p.race.startedAt
    p.arrivedAt (p.race.answer c.handler w) hp
  have hdecided : (c.decided p w).gauges = c.gauges := by cases w <;> rfl
  refine ⟨c', after, (poll_some c p h).trans hconclude, (same_decided c p w).trans hs, ?_⟩
  rw [hg, hdecided]

/-- The way back that the endpoint gives a call that it asks a computation for. -/
theorem dispatch_computing {state : Lifecycle.State} {health : Health.Registry} {context : Context}
    {request : Request} {chunk : Chunk}
    (h : (dispatch state health context request).reached = .computing chunk) :
    (∀ g : Gauges, g.countAll (dispatch state health context request).effects = g.enlist) ∧
      Returns (dispatch state health context request).leave fun g o => (g.settle o).dismiss := by
  cases request with
  | check q => cases h
  | predict chunk' =>
      by_cases hrun : state = .running
      · simp only [dispatch, hrun, if_true] at h ⊢
        exact ⟨fun _ => rfl, fun _ o => ⟨rfl, fun g => countAll_discharge g context o⟩⟩
      · simp [dispatch, hrun, Course.answered] at h

/-- An answer of the endpoint is no cancellation, and leaves the gauges alone. -/
theorem dispatch_answered {state : Lifecycle.State} {health : Health.Registry} {context : Context}
    {request : Request} {o : Outcome}
    (h : (dispatch state health context request).reached = .answered o) :
    (∀ g : Gauges, g.countAll (dispatch state health context request).effects = g) ∧
      (∀ g : Gauges, g.settle o = g) ∧
      Returns (dispatch state health context request).leave fun g _ => g := by
  cases request with
  | check q =>
      simp only [dispatch, Course.answered, Reached.answered.injEq] at h
      subst h
      exact ⟨fun _ => rfl, fun g => g.settle_ok _, fun _ _ => ⟨rfl, fun _ => rfl⟩⟩
  | predict chunk =>
      by_cases hrun : state = .running
      · simp [dispatch, hrun] at h
      · simp only [dispatch, hrun, if_false, Course.answered, Reached.answered.injEq] at h ⊢
        subst h
        exact ⟨fun _ => rfl, fun g => g.settle_shuttingDown, fun _ _ => ⟨rfl, fun _ => rfl⟩⟩

/-- A call that is taken is answered and counted, or waits and is in flight. -/
theorem take_counted (c : Core σ) (hw : ∀ s ∈ c.stages, s.Watches) (context : Context)
    (request : Request) :
    (∃ c' after o, c.take context request = (c', .done after o) ∧ Same c c' ∧
        c'.gauges = c.gauges.settle o) ∨
      (∃ c' p, c.take context request = (c', .waiting p) ∧ Same c c' ∧ c.state = .running ∧
        c'.gauges = c.gauges.enlist ∧ p.Counted) := by
  have hwraps : (c.service context request).Wraps (dispatch c.state c.health context request) :=
    compose_wraps hw _ context request
  cases h : (c.service context request).reached with
  | answered o =>
      obtain ⟨hfx, hsettle, hleave⟩ := dispatch_answered (hwraps.reached ▸ h)
      obtain ⟨c', after, hfinish, hs, hg⟩ := gauges_finish
        (c.applyAll (c.service context request).effects) c.now o (hwraps.leave hleave)
      refine Or.inl ⟨c', after, o, (take_answered c context request h).trans hfinish,
        (same_applyAll c _).trans hs, ?_⟩
      rw [hg, gauges_applyAll, hwraps.effects, hfx, hsettle]
  | computing chunk =>
      obtain ⟨hfx, hleave⟩ := dispatch_computing (hwraps.reached ▸ h)
      have hopened : (c.opened (c.service context request) chunk).gauges = c.gauges.enlist := by
        unfold opened
        rw [gauges_applyAll, gauges_applyAll, countAll_opening, hwraps.effects, hfx]
      cases hc : c.cancel.ready with
      | true =>
          obtain ⟨c', after, hconclude, hs, hg⟩ := gauges_conclude
            (c.opened (c.service context request) chunk)
            (c.opened (c.service context request) chunk).now c.now (.error .cancelled)
            (hwraps.leave hleave)
          refine Or.inl ⟨c', after, _, (take_cancelled c context request h hc).trans hconclude,
            (same_opened c _ chunk).trans hs, ?_⟩
          rw [hg, hopened, Gauges.settle_dismiss, Gauges.dismiss_enlist]
      | false =>
          have hsame := same_begun c (c.service context request) chunk
          have hbegun : (c.begun (c.service context request) chunk).gauges = c.gauges.enlist := hopened
          have hp : (c.awaited (c.service context request) chunk).Counted := hwraps.leave hleave
          have htake := take_begun c context request h hc
          cases hwin : (c.awaited (c.service context request) chunk).race.winner?
              (c.begun (c.service context request) chunk).now
              (c.begun (c.service context request) chunk).cancel.ready with
          | none =>
              exact Or.inr ⟨_, _, by rw [htake, poll_none _ _ hwin], hsame, running_of_computing h, hbegun,
                hp⟩
          | some w =>
              obtain ⟨c', after, hpoll, hs, hg⟩ := poll_counted _ hp hwin
              refine Or.inl ⟨c', after, _, by rw [htake, hpoll], hsame.trans hs, ?_⟩
              rw [hg, hbegun, Gauges.settle_dismiss, Gauges.dismiss_enlist]

/-! ### Calls that come too late -/

/-- **A computation asked for while the server does not run is refused**, and neither the backend nor
the gauges hear of it. -/
theorem take_late (c : Core σ) (hw : ∀ s ∈ c.stages, s.Watches) (hs : c.state ≠ .running)
    (context : Context) (chunk : Chunk) :
    ∃ c' after, c.take context (.predict chunk) = (c', .done after (.error .shuttingDown)) ∧
      c'.compute = c.compute ∧ c'.gauges = c.gauges := by
  have hwraps : (c.service context (.predict chunk)).Wraps
      (dispatch c.state c.health context (.predict chunk)) := compose_wraps hw _ _ _
  have h : (c.service context (.predict chunk)).reached = .answered (.error .shuttingDown) := by
    rw [hwraps.reached]
    simp [dispatch, hs, Course.answered]
  have hleave : Returns (dispatch c.state c.health context (.predict chunk)).leave fun g _ => g := by
    simp only [dispatch, hs, if_false, Course.answered]
    exact fun _ _ => ⟨rfl, fun _ => rfl⟩
  have hfx : ∀ g : Gauges,
      g.countAll (dispatch c.state c.health context (.predict chunk)).effects = g := by
    simp [dispatch, hs, Course.answered]
  obtain ⟨c', after, hfinish, -, hg⟩ := gauges_finish
    (c.applyAll (c.service context (.predict chunk)).effects) c.now (.error .shuttingDown)
    (hwraps.leave hleave)
  refine ⟨c', after, (take_answered c context _ h).trans hfinish, ?_, ?_⟩
  · obtain rfl : (c.applyAll _).applyAll _ = c' := congrArg Prod.fst hfinish
    rw [compute_applyAll, compute_applyAll]
  · rw [hg, gauges_applyAll, hwraps.effects, hfx]

/-- A server that does not run tells nobody that a call is cancelled. -/
theorem take_calm (c : Core σ) (hw : ∀ s ∈ c.stages, s.Watches) (hs : c.state ≠ .running)
    (context : Context) (request : Request) :
    ∃ c' after o, c.take context request = (c', .done after o) ∧ isCancelled o = false := by
  cases request with
  | predict chunk =>
      obtain ⟨c', after, h, -⟩ := take_late c hw hs context chunk
      exact ⟨c', after, _, h, rfl⟩
  | check q =>
      have hwraps : (c.service context (.check q)).Wraps
          (dispatch c.state c.health context (.check q)) := compose_wraps hw _ _ _
      have hleave : Returns (dispatch c.state c.health context (.check q)).leave fun g _ => g :=
        fun _ _ => ⟨rfl, fun _ => rfl⟩
      obtain ⟨c', after, hfinish, -⟩ := gauges_finish
        (c.applyAll (c.service context (.check q)).effects) c.now
        (.ok (.health ⟨c.health.get q.service⟩)) (hwraps.leave hleave)
      exact ⟨c', after, _, (take_answered c context _ hwraps.reached).trans hfinish, rfl⟩

end Core

end EmbedServer.Call
