/-
What calls count, with the stages that the server brings along.

The stage that counts adds one request to every call on its way back, and one error if that is how the
call ends.  A computation that was admitted counts once at its end, whoever won the race for it, and
once more if it was cancelled.  So a call that is done has left behind exactly one request, one error
if it failed, one computation if it was admitted, and one cancellation if it says so; a call that waits
has left behind none of these yet.
-/
import EmbedServer.Proofs.Call.Transparent

namespace EmbedServer.Call

open Metrics

variable {σ : Type}

/-- The error with which a call has ended, if it has ended with one. -/
def failure? : Outcome → Option Error
  | .ok _ => none
  | .error e => some e

/-- An outcome is what the request asked for, or an error. -/
def Fits : Request → Outcome → Prop
  | _, .error _ | .predict _, .ok (.embedding _) | .check _, .ok (.health _) => True
  | .predict _, .ok (.health _) | .check _, .ok (.embedding _) => False

/-! ### Samples of one call -/

/-- What the stage that counts leaves behind. -/
def parting (elapsed : Duration) (o : Outcome) : List Sample :=
  .request elapsed :: if (failure? o).isSome then [.error] else []

/-- What an admitted computation leaves behind on its way back. -/
def settling (o : Outcome) : List Sample :=
  (if isCancelled o then [.cancelled] else []) ++ [.finished]

/-- The samples of a whole call: one request, one computation if there was one, and one error and one
cancellation if the outcome is that. -/
structure Counts (samples : List Sample) (computed : Bool) (o : Outcome) : Prop where
  requests : samples.countP Sample.isRequest = 1
  backend : samples.countP Sample.isBackend = computed.toNat
  errors : samples.countP Sample.isError = (failure? o).isSome.toNat
  cancelled : samples.countP Sample.isCancelled = (isCancelled o).toNat

private theorem counts_answered (elapsed : Duration) {o : Outcome} (h : isCancelled o = false) :
    Counts (parting elapsed o) false o := by
  cases hf : (failure? o).isSome <;> constructor <;> simp only [parting, hf, h] <;> rfl

private theorem counts_computed (elapsed elapsed' : Duration) (o : Outcome) :
    Counts (.backend elapsed :: (settling o ++ parting elapsed' o)) true o := by
  cases hf : (failure? o).isSome <;> cases hc : isCancelled o <;> constructor <;>
    simp only [settling, parting, hf, hc] <;> rfl

/-- That a computation is admitted does not count by itself. -/
theorem Counts.started {samples : List Sample} {computed : Bool} {o : Outcome}
    (h : Counts samples computed o) : Counts (.started :: samples) computed o :=
  ⟨h.requests, h.backend, h.errors, h.cancelled⟩

/-! ### The way through the stages

Only the two shipped stages are considered, in their order, and what they count is counted once for a call
that turns back, wherever it does so.
-/

/-- A way back that keeps the outcome, and leaves these samples behind. -/
def Leaves (leave : Duration → Outcome → Returned) (samples : Duration → Outcome → List Sample) :
    Prop :=
  ∀ elapsed o, (leave elapsed o).outcome = o ∧
    Effect.samples (leave elapsed o).effects = samples elapsed o

/-- A waiting call whose way back is that of an admitted computation. -/
def Pending.Admitted (p : Pending σ) : Prop :=
  Leaves p.leave fun elapsed o => settling o ++ parting elapsed o

/-- The two stages leave on the way in what the endpoint leaves, and on the way back what the stage
that counts leaves besides. -/
structure Course.Around (outer inner : Course) : Prop where
  reached : outer.reached = inner.reached
  effects : Effect.samples outer.effects = Effect.samples inner.effects
  leave : ∀ {samples}, Leaves inner.leave samples →
    Leaves outer.leave fun elapsed o => samples elapsed o ++ parting elapsed o

private theorem service_around {c : Core σ} (h : c.stages = [.logging, .metrics]) (context : Context)
    (request : Request) :
    (c.service context request).Around (dispatch c.state c.health context request) := by
  have hservice : c.service context request =
      Stage.around .logging (Stage.around .metrics (dispatch c.state c.health)) context request := by
    rw [Core.service, h]
    rfl
  rw [hservice]
  refine ⟨rfl, rfl, ?_⟩
  intro samples hinner elapsed o
  obtain ⟨ho, hsamples⟩ := hinner elapsed o
  refine ⟨ho, ?_⟩
  -- The stage that counts is the inner one of the two, and the other one counts nothing.
  have hcounted : ∀ b : Returning, Effect.samples (Stage.metrics.leave b).effects ++
      Effect.samples (Stage.logging.leave b).effects = parting b.elapsed b.outcome := by
    rintro ⟨given, after, elapsed, o⟩
    cases o <;> rfl
  show Effect.samples ((_ ++ _) ++ _) = _
  rw [List.append_assoc, Effect.samples_append, Effect.samples_append, hsamples]
  refine congrArg (samples elapsed o ++ ·) ?_
  exact (hcounted _).trans (by rw [ho])

private theorem leaves_answered (context : Context) (o : Outcome) :
    Leaves (Course.answered context o).leave fun _ _ => [] := fun _ _ => ⟨rfl, rfl⟩

private theorem leaves_discharge (context : Context) :
    Leaves (fun _ o => discharge context o) fun _ o => settling o := by
  intro elapsed o
  refine ⟨rfl, ?_⟩
  cases hc : isCancelled o <;> simp only [discharge, settling, hc] <;> rfl

namespace Core

/-- What the endpoint does: a computation that is admitted is begun, and anything else is answered
at once. -/
theorem dispatch_cases (c : Core σ) (context : Context) (request : Request) :
    (c.admits request = false ∧ ∃ o, dispatch c.state c.health context request = .answered context o ∧
        Fits request o ∧ isCancelled o = false) ∨
      (c.admits request = true ∧ ∃ chunk, request = .predict chunk ∧
        dispatch c.state c.health context request =
          ⟨[.sample .started], .computing chunk, fun _ o => discharge context o⟩) := by
  cases request with
  | predict chunk =>
      by_cases hrun : c.state = .running
      · exact Or.inr ⟨decide_eq_true hrun, chunk, rfl, if_pos hrun⟩
      · exact Or.inl ⟨decide_eq_false hrun, _, if_neg hrun, trivial, rfl⟩
  | check q => exact Or.inl ⟨rfl, _, rfl, trivial, rfl⟩

theorem metrics_applyAll (c : Core σ) (fx : List Effect) :
    (c.applyAll fx).metrics = c.metrics.recordAll (Effect.samples fx) := by
  rw [applyAll_eq]

private theorem finish_counts (c : Core σ) (arrivedAt : Nat) {leave : Duration → Outcome → Returned}
    {samples : Duration → Outcome → List Sample} (h : Leaves leave samples) (o : Outcome) :
    ∃ c' after, c.finish arrivedAt leave o = (c', .done after o) ∧
      c'.metrics = c.metrics.recordAll (samples ⟨c.now - arrivedAt⟩ o) := by
  obtain ⟨ho, hsamples⟩ := h ⟨c.now - arrivedAt⟩ o
  refine ⟨_, _, Prod.ext rfl ((finish_progress c arrivedAt leave o).trans (by rw [ho])), ?_⟩
  rw [← hsamples]
  exact metrics_applyAll c _

/-! ### Calls that come, and calls that wait -/

/-- The end of a race counts the computation, and then the call. -/
theorem conclude_counts (c : Core σ) (hcounted : c.handler.counted = true) (startedAt arrivedAt : Nat)
    {leave : Duration → Outcome → Returned}
    (hleave : Leaves leave fun elapsed o => settling o ++ parting elapsed o) (a : Backend.Answer) :
    ∃ c' after samples, c.conclude startedAt arrivedAt leave a = (c', .done after (outcomeOf a)) ∧
      c'.metrics = c.metrics.recordAll samples ∧ Counts samples true (outcomeOf a) := by
  have hclosing : Effect.samples (c.handler.closing ⟨c.now - startedAt⟩ a) =
      [.backend ⟨c.now - startedAt⟩] := by
    rw [Handler.closing, hcounted]
    rfl
  obtain ⟨c', after, hfinish, hmetrics⟩ := finish_counts
    (c.applyAll (c.handler.closing ⟨c.now - startedAt⟩ a)) arrivedAt hleave (outcomeOf a)
  rw [metrics_applyAll, hclosing, ← Collector.recordAll_append] at hmetrics
  exact ⟨c', after, _, hfinish, hmetrics, counts_computed _ _ _⟩

/-- A look at a call whose race is over counts all that the call counts. -/
theorem poll_counts (c : Core σ) (hcounted : c.handler.counted = true) {p : Pending σ}
    (hp : p.Admitted) {w : Race.Winner} (h : p.race.winner? c.now c.cancel.ready = some w) :
    ∃ c' after a samples, c.poll p = (c', .done after (outcomeOf a)) ∧
      c'.metrics = c.metrics.recordAll samples ∧ Counts samples true (outcomeOf a) := by
  have hcounted' : (c.decided p w).handler.counted = true := by
    rw [(same_decided c p w).handler, hcounted]
  have hmetrics : (c.decided p w).metrics = c.metrics := by cases w <;> rfl
  obtain ⟨c', after, samples, hconclude, hrecorded, hcounts⟩ := conclude_counts _ hcounted'
    p.race.startedAt p.arrivedAt hp (p.race.answer c.handler w)
  exact ⟨c', after, _, samples, (poll_some c p h).trans hconclude, hmetrics ▸ hrecorded, hcounts⟩

theorem fits_outcomeOf (chunk : Chunk) (a : Backend.Answer) : Fits (.predict chunk) (outcomeOf a) := by
  cases a <;> trivial

/-- A call whose computation is admitted counts the computation as well, or waits and has counted nothing
but the admission. -/
theorem take_computing_counts (c : Core σ) (hcounted : c.handler.counted = true) {context : Context}
    {chunk : Chunk} (hreached : (c.service context (.predict chunk)).reached = .computing chunk)
    (heffects : Effect.samples (c.service context (.predict chunk)).effects = [.started])
    (hback : Leaves (c.service context (.predict chunk)).leave fun elapsed o =>
      settling o ++ parting elapsed o) :
    (∃ c' after o samples, c.take context (.predict chunk) = (c', .done after o) ∧
        Fits (.predict chunk) o ∧ c'.metrics = c.metrics.recordAll samples ∧ Counts samples true o) ∨
      (∃ c' p, c.take context (.predict chunk) = (c', .waiting p) ∧
        c'.metrics = c.metrics.recordAll [.started] ∧ p.Admitted) := by
  have hsame := same_opened c (c.service context (.predict chunk)) chunk
  have hopened : (c.opened (c.service context (.predict chunk)) chunk).metrics =
      c.metrics.recordAll [.started] := by
    rw [opened, metrics_applyAll, metrics_applyAll, heffects]
    rfl
  -- A cancellation that has fired ends the race before the backend hears of it.
  cases hready : c.cancel.ready with
  | true =>
      obtain ⟨c', after, samples, hconclude, hmetrics, hcounts⟩ := conclude_counts
        (c.opened (c.service context (.predict chunk)) chunk) (hsame.handler ▸ hcounted) _ c.now
        hback (.error .cancelled)
      rw [hopened, ← Collector.recordAll_append] at hmetrics
      exact Or.inl ⟨c', after, _, _, (take_cancelled c context _ hreached hready).trans hconclude,
        trivial, hmetrics, hcounts.started⟩
  | false =>
      have htake := take_begun c context _ hreached hready
      have hcounted' : (c.begun (c.service context (.predict chunk)) chunk).handler.counted = true :=
        (same_begun c _ chunk).handler ▸ hcounted
      have hbegun : (c.begun (c.service context (.predict chunk)) chunk).metrics =
          c.metrics.recordAll [.started] := hopened
      have hadmitted : (c.awaited (c.service context (.predict chunk)) chunk).Admitted := hback
      rcases poll_cases (c.begun (c.service context (.predict chunk)) chunk)
        (c.awaited (c.service context (.predict chunk)) chunk) with ⟨-, hpoll⟩ | ⟨w, -, -, -, hw, -⟩
      · exact Or.inr ⟨_, _, htake.trans hpoll, hbegun, hadmitted⟩
      · obtain ⟨c', after, a, samples, hpoll, hmetrics, hcounts⟩ :=
          poll_counts _ hcounted' hadmitted hw
        rw [hbegun, ← Collector.recordAll_append] at hmetrics
        exact Or.inl ⟨c', after, _, _, htake.trans hpoll, fits_outcomeOf chunk a, hmetrics,
          hcounts.started⟩

/-- **A call that is taken counts all that it counts, or it waits and has counted nothing but its
admission.** -/
theorem take_counts (c : Core σ) (hstages : c.stages = [.logging, .metrics])
    (hcounted : c.handler.counted = true) (context : Context) (request : Request) :
    (∃ c' after o samples, c.take context request = (c', .done after o) ∧ Fits request o ∧
        c'.metrics = c.metrics.recordAll samples ∧ Counts samples (c.admits request) o) ∨
      (∃ c' p chunk, c.take context request = (c', .waiting p) ∧ request = .predict chunk ∧
        c.admits request = true ∧ c'.metrics = c.metrics.recordAll [.started] ∧ p.Admitted) := by
  obtain ⟨hreached, heffects, hleave⟩ := service_around hstages context request
  rcases dispatch_cases c context request with
    ⟨hadmits, o, hdispatch, hfits, hcancelled⟩ | ⟨hadmits, chunk, rfl, hdispatch⟩
  · rw [hdispatch] at hreached heffects hleave
    obtain ⟨c', after, hfinish, hmetrics⟩ := finish_counts
      (c.applyAll (c.service context request).effects) c.now (hleave (leaves_answered context o)) o
    rw [metrics_applyAll, heffects] at hmetrics
    exact Or.inl ⟨c', after, o, _, (take_answered c context request hreached).trans hfinish, hfits,
      hmetrics, hadmits ▸ counts_answered _ hcancelled⟩
  · rw [hdispatch] at hreached heffects hleave
    rw [hadmits]
    rcases take_computing_counts c hcounted hreached heffects (hleave (leaves_discharge context)) with
      hdone | ⟨c', p, htake, hmetrics, hp⟩
    · exact Or.inl hdone
    · exact Or.inr ⟨c', p, chunk, htake, rfl, rfl, hmetrics, hp⟩

end Core

end EmbedServer.Call
