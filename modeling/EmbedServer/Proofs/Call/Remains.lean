/-
What a call that asks for a computation leaves behind.

A call leaves events in the log, samples in the counters and a state of the backend (`Core.Adds`), on its
way in, at the end of its race and on its way back.  `Core.Settled` says what it is altogether once the call
is done: the handler has logged that it has received the call and handed it on, and at the end how the call
has ended; one latency is recorded if latencies are counted.
-/
import EmbedServer.Proofs.Call.Times
import EmbedServer.Proofs.Call.Transparent
import EmbedServer.Proofs.Metrics.Histogram

namespace EmbedServer.Call

variable {σ : Type}

/-! ### What the handler says

The handler tells three states of a call that asks for a computation: that it is received, that it is
dispatched, and how it has ended.  They are written out here, and the two lemmas say that these are the
events that the handler's effects log.
-/

/-- What is logged of a call that is received and dispatched to the backend of this name. -/
def asking (backend : String) (chunk : Chunk) : List Log.Event :=
  [⟨.handler, .debug, "predict", [("state", .shown "Received"),
      ("bytes", .whole chunk.content.utf8ByteSize), ("path", .shown (Text.quotedOption chunk.path))]⟩,
    ⟨.handler, .debug, "predict", [("state", .shown "Dispatched"), ("backend", .text backend)]⟩]

/-- The state in which a call with this outcome ends. -/
def lastState : Outcome → String
  | .ok _ => "Completed"
  | .error e => if e.code = .cancelled then "Cancelled" else "Failed"

/-- What is logged of a call that has its outcome. -/
def ending (o : Outcome) : Log.Event := ⟨.handler, .debug, "predict", [("state", .shown (lastState o))]⟩

/-- The state of a call that an event of the handler tells. -/
def stateTold? (e : Log.Event) : Option String :=
  if e.origin = .handler then (e.fields.lookup "state").map Log.Value.plain else none

private theorem events_opening (backend : String) (chunk : Chunk) :
    Effect.events (Handler.opening backend chunk) = asking backend chunk := rfl

private theorem event_ofAnswer (a : Backend.Answer) :
    (Stadium.ofAnswer a).event [] = .log (ending (outcomeOf a)) := by
  cases a with
  | ok vec => rfl
  | error e => cases e <;> rfl

private theorem statesTold_asking (backend : String) (chunk : Chunk) :
    (asking backend chunk).filterMap stateTold? = ["Received", "Dispatched"] := rfl

private theorem stateTold?_ending (o : Outcome) : stateTold? (ending o) = some (lastState o) := rfl

namespace Core

/-! ### What is left behind -/

/-- The second core is the first one with these events in the log, these samples counted, and this state
of the backend. -/
structure Adds (c c' : Core σ) (events : List Log.Event) (samples : List Metrics.Sample) (compute : σ) :
    Prop where
  log : c'.log = c.log ++ events
  metrics : c'.metrics = c.metrics.recordAll samples
  compute : c'.compute = compute

theorem Adds.trans {c c' c'' : Core σ} {events events' : List Log.Event}
    {samples samples' : List Metrics.Sample} {compute compute' : σ}
    (h : c.Adds c' events samples compute) (h' : c'.Adds c'' events' samples' compute') :
    c.Adds c'' (events ++ events') (samples ++ samples') compute' where
  log := by rw [h'.log, h.log, List.append_assoc]
  metrics := by rw [h'.metrics, h.metrics, Metrics.Collector.recordAll_append]
  compute := h'.compute

private theorem adds_applyAll (c : Core σ) (fx : List Effect) :
    c.Adds (c.applyAll fx) (Effect.events fx) (Effect.samples fx) c.compute := by
  rw [applyAll_eq]
  exact ⟨rfl, rfl, rfl⟩

theorem adds_opened (c : Core σ) (course : Course) (chunk : Chunk) :
    c.Adds (c.opened course chunk)
      (Effect.events course.effects ++ asking c.backend.name chunk)
      (Effect.samples course.effects) c.compute := by
  have h := (adds_applyAll c course.effects).trans
    (adds_applyAll (c.applyAll course.effects) (Handler.opening c.backend.name chunk))
  rw [compute_applyAll] at h
  have hsilent : Effect.samples (Handler.opening c.backend.name chunk) = [] := rfl
  rw [hsilent, List.append_nil, events_opening] at h
  exact h

theorem adds_begun (c : Core σ) (course : Course) (chunk : Chunk) :
    c.Adds (c.begun course chunk)
      (Effect.events course.effects ++ asking c.backend.name chunk ++
        (c.backend.compute c.compute chunk.content).events)
      (Effect.samples course.effects) (c.backend.compute c.compute chunk.content).begun := by
  have h := adds_opened c course chunk
  have hbackend := (same_opened c course chunk).backend
  have hlog : (c.begun course chunk).log = (c.opened course chunk).log ++
      (c.backend.compute c.compute chunk.content).events := by
    simp only [begun, logAll, hbackend, h.compute]
  refine ⟨?_, h.metrics, ?_⟩
  · rw [hlog, h.log, List.append_assoc]
  · simp only [begun, logAll, hbackend, h.compute]

/-- The end of a race, with all that it leaves behind: a latency if latencies are counted, the last state
of the call, and what the way back leaves. -/
theorem conclude_adds (c : Core σ) (startedAt arrivedAt : Nat)
    (leave : Duration → Outcome → Returned) (a : Backend.Answer) :
    (c.conclude startedAt arrivedAt leave a).2 =
        .done (leave ⟨c.now - arrivedAt⟩ (outcomeOf a)).context
          (leave ⟨c.now - arrivedAt⟩ (outcomeOf a)).outcome ∧
      c.Adds (c.conclude startedAt arrivedAt leave a).1
        ([ending (outcomeOf a)] ++ Effect.events (leave ⟨c.now - arrivedAt⟩ (outcomeOf a)).effects)
        ((if c.handler.counted then [.backend ⟨c.now - startedAt⟩] else []) ++
          Effect.samples (leave ⟨c.now - arrivedAt⟩ (outcomeOf a)).effects) c.compute := by
  refine ⟨conclude_progress c startedAt arrivedAt leave a, ?_⟩
  have hnow := (same_applyAll c (c.handler.closing ⟨c.now - startedAt⟩ a)).now
  have h := (adds_applyAll c (c.handler.closing ⟨c.now - startedAt⟩ a)).trans
    (adds_applyAll (c.applyAll (c.handler.closing ⟨c.now - startedAt⟩ a))
      (leave ⟨c.now - arrivedAt⟩ (outcomeOf a)).effects)
  rw [compute_applyAll] at h
  have hevents : Effect.events (c.handler.closing ⟨c.now - startedAt⟩ a) = [ending (outcomeOf a)] := by
    rw [Handler.closing, event_ofAnswer]
    cases c.handler.counted <;> rfl
  have hsamples : Effect.samples (c.handler.closing ⟨c.now - startedAt⟩ a) =
      if c.handler.counted then [.backend ⟨c.now - startedAt⟩] else [] := by
    unfold Handler.closing
    cases c.handler.counted <;> rfl
  rw [hevents, hsamples] at h
  rw [conclude, finish, hnow]
  exact h

end Core

/-! ### What is left in the end

The way back is taken at the time at which the race is over, with the outcome that the race has come to, and
the backend has done what the race let it do.
-/

/-- What a race of these times does to a backend in this state: the state after it, and what the backend
logs.  A race that is cancelled from the start does nothing to it. -/
def Times.work (x : Times) (s : σ) (k : Backend.Computation σ) : σ × List Log.Event :=
  if x.cancelled = some 0 then (s, [])
  else if x.winner = .computation then k.finished
  else (k.begun, k.events)

namespace Core

/-- The computation for a chunk that is asked for now. -/
def computation (c : Core σ) (chunk : Chunk) : Backend.Computation σ :=
  c.backend.compute c.compute chunk.content

/-- The outcome of the race for a chunk that is asked for now. -/
def raced (c : Core σ) (fires : Option Nat) (chunk : Chunk) : Outcome :=
  (c.times fires chunk).outcome (c.computation chunk).answer

/-- What is logged on the way in of a call that asks for this chunk. -/
def wayIn (c : Core σ) (context : Context) (request : Request) (chunk : Chunk) : List Log.Event :=
  Effect.events (c.service context request).effects ++ asking c.backend.name chunk

/-- The way back of a call that asks for this chunk. -/
def wayBack (c : Core σ) (fires : Option Nat) (context : Context) (request : Request) (chunk : Chunk) :
    Returned :=
  (c.service context request).leave ⟨(c.times fires chunk).finish⟩ (c.raced fires chunk)

/-- Everything that a call has left behind that is done, in order. -/
def Left (c : Core σ) (fires : Option Nat) (context : Context) (request : Request) (chunk : Chunk)
    (c' : Core σ) : Prop :=
  let x := c.times fires chunk
  let back := c.wayBack fires context request chunk
  let work := x.work c.compute (c.computation chunk)
  c.Adds c'
    (c.wayIn context request chunk ++ work.2 ++ [ending (c.raced fires chunk)] ++
      Effect.events back.effects)
    (Effect.samples (c.service context request).effects ++
      (if c.handler.counted then [.backend ⟨x.finish⟩] else []) ++ Effect.samples back.effects)
    work.1

/-- What the stages have logged of a call that is done, and what the backend has. -/
def besides (c : Core σ) (fires : Option Nat) (context : Context) (request : Request) (chunk : Chunk) :
    List Log.Event :=
  Effect.events (c.service context request).effects ++
    ((c.times fires chunk).work c.compute (c.computation chunk)).2 ++
    Effect.events (c.wayBack fires context request chunk).effects

/-- What the stages have counted of a call that is done. -/
def sampled (c : Core σ) (fires : Option Nat) (context : Context) (request : Request) (chunk : Chunk) :
    List Metrics.Sample :=
  Effect.samples (c.service context request).effects ++
    Effect.samples (c.wayBack fires context request chunk).effects

/-- How a call has gone that is done. -/
structure Settled (c : Core σ) (fires : Option Nat) (context : Context) (request : Request)
    (chunk : Chunk) (c' : Core σ) : Prop where
  left : c.Left fires context request chunk c'
  /-- Three states are logged, if nobody but the handler tells states. -/
  states : (∀ e ∈ c.besides fires context request chunk, stateTold? e = none) →
    c'.log.filterMap stateTold? = c.log.filterMap stateTold? ++
      ["Received", "Dispatched", lastState (c.raced fires chunk)]
  /-- One latency is recorded if latencies are counted, besides those that the stages record. -/
  latencies : c'.metrics.backendLatency.count = c.metrics.backendLatency.count +
    ((c.sampled fires context request chunk).countP Metrics.Sample.isBackend).toUInt64 +
      if c.handler.counted then 1 else 0
  /-- It is the time that the race took, in whole milliseconds. -/
  latency : Metrics.backendTimes (c.sampled fires context request chunk) = [] →
    c'.metrics.backendLatency =
      if c.handler.counted then
        c.metrics.backendLatency.observe (Duration.mk (c.times fires chunk).finish).millis
      else c.metrics.backendLatency

private theorem statesTold_of_none {events : List Log.Event} (h : ∀ e ∈ events, stateTold? e = none) :
    events.filterMap stateTold? = [] :=
  List.filterMap_eq_nil_iff.mpr h

theorem Left.settled {c c' : Core σ} {fires : Option Nat} {context : Context} {request : Request}
    {chunk : Chunk} (h : c.Left fires context request chunk c') :
    c.Settled fires context request chunk c' := by
  refine ⟨h, ?_, ?_, ?_⟩
  · intro hquiet
    simp only [besides, List.mem_append, or_imp, forall_and] at hquiet
    obtain ⟨⟨hin, hwork⟩, hback⟩ := hquiet
    rw [h.log]
    simp only [wayIn, List.filterMap_append, statesTold_asking, statesTold_of_none hin,
      statesTold_of_none hwork, statesTold_of_none hback, List.filterMap_cons, stateTold?_ending]
    rfl
  · have hcount : (Effect.samples (c.service context request).effects ++
          (if c.handler.counted then [Metrics.Sample.backend ⟨(c.times fires chunk).finish⟩] else []) ++
          Effect.samples (c.wayBack fires context request chunk).effects).countP
            Metrics.Sample.isBackend =
        (c.sampled fires context request chunk).countP Metrics.Sample.isBackend +
          if c.handler.counted then 1 else 0 := by
      simp only [sampled, List.countP_append]
      rw [Nat.add_right_comm]
      cases c.handler.counted <;> rfl
    rw [h.metrics, Metrics.Collector.computations_recordAll, hcount, UInt64.add_assoc]
    refine congrArg (c.metrics.backendLatency.count + ·) ((UInt64.ofNat_add _ _).trans ?_)
    cases c.handler.counted <;> rfl
  · intro hquiet
    simp only [sampled, Metrics.backendTimes, List.filterMap_append, List.append_eq_nil_iff] at hquiet
    rw [h.metrics, Metrics.Collector.backendLatency_recordAll]
    simp only [Metrics.backendTimes, List.filterMap_append, hquiet]
    cases c.handler.counted <;> rfl

end Core

end EmbedServer.Call
