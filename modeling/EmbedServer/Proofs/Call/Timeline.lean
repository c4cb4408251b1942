/-
What becomes of a call that asks for a computation, from its arrival on.

The call waits until the race of its computation is over, however often it is looked at, and is then done.
What it leaves behind follows from the times of the race (`Proofs/Call/Remains`), and the backend was asked
for exactly this text, or for nothing if the cancellation came first.
-/
import EmbedServer.Backend.Simple
import EmbedServer.Proofs.Call.Gauges
import EmbedServer.Proofs.Call.Remains

namespace EmbedServer.Call

variable {σ : Type}

namespace Core

/-! ### Looks at a call

Between two looks the clock moves, and the cancellation may fire.  What a look finds depends on the moment
alone, so the looks that find nothing can be left out.
-/

private theorem foldl_done (fires : Option Nat) (start : Nat) (looks : List Nat) (c : Core σ)
    (context : Context) (o : Outcome) :
    looks.foldl (fun s time => glance fires (start + time) s) (c, .done context o) =
      (c, .done context o) := by
  induction looks with
  | nil => rfl
  | cons time rest ih => exact ih

/-- Looks before the race is over find nothing. -/
theorem foldl_early {c : Core σ} {fires : Option Nat} {chunk : Chunk} {p : Pending σ}
    (hp : p.race = c.handler.race (c.backend.compute c.compute chunk.content) c.now) {looks : List Nat}
    (hlooks : ∀ time ∈ looks, time < (c.times fires chunk).finish) (c' : Core σ) :
    ∃ c'', looks.foldl (fun s time => glance fires (c.now + time) s) (c', .waiting p) =
        (c'', .waiting p) ∧ ∀ moment, c''.atMoment fires moment = c'.atMoment fires moment := by
  induction looks generalizing c' with
  | nil => exact ⟨c', rfl, fun _ => rfl⟩
  | cons time rest ih =>
      have hnone : p.race.winner? (c'.atMoment fires (c.now + time)).now
          (c'.atMoment fires (c.now + time)).cancel.ready = none := by
        rw [hp]
        exact (winner?_times c fires chunk time).trans
          (Times.winnerBy?_early (hlooks time (by simp)))
      obtain ⟨c'', hrest, hsame⟩ := ih (fun t ht => hlooks t (by simp [ht]))
        (c'.atMoment fires (c.now + time))
      refine ⟨c'', ?_, hsame⟩
      rw [List.foldl_cons, glance, poll_none _ _ hnone]
      exact hrest

/-! ### The way to the end of a race -/

theorem Adds.of_atMoment {c c' : Core σ} {fires : Option Nat} {moment : Nat}
    {events : List Log.Event} {samples : List Metrics.Sample} {compute : σ}
    (h : (c.atMoment fires moment).Adds c' events samples compute) : c.Adds c' events samples compute :=
  ⟨h.log, h.metrics, h.compute⟩

/-- A core is at the moment at which it was before a call. -/
theorem atMoment_of_same {c c' : Core σ} {fires : Option Nat} {moment : Nat}
    (h : Same (c.atMoment fires moment) c') : c'.atMoment fires moment = c' := by
  obtain ⟨-, -, -, -, -, hcancel, hnow⟩ := h
  cases c'
  cases hcancel
  cases hnow
  rfl

/-- The end of a race at its time. -/
theorem conclude_raced {c d : Core σ} (fires : Option Nat) {chunk : Chunk} (context : Context)
    (request : Request) {a : Backend.Answer} (hhandler : d.handler = c.handler)
    (hnow : d.now = c.now + (c.times fires chunk).finish) (ha : outcomeOf a = c.raced fires chunk) :
    ∃ c', d.conclude c.now c.now (c.service context request).leave a = (c', .done
        (c.wayBack fires context request chunk).context
        (c.wayBack fires context request chunk).outcome) ∧
      d.Adds c' ([ending (c.raced fires chunk)] ++
          Effect.events (c.wayBack fires context request chunk).effects)
        ((if c.handler.counted then [.backend ⟨(c.times fires chunk).finish⟩] else []) ++
          Effect.samples (c.wayBack fires context request chunk).effects) d.compute := by
  obtain ⟨hprogress, hadds⟩ := conclude_adds d c.now c.now (c.service context request).leave a
  have htime : d.now - c.now = (c.times fires chunk).finish := by omega
  rw [htime, ha] at hprogress hadds
  rw [hhandler] at hadds
  exact ⟨_, Prod.ext rfl hprogress, hadds⟩

/-- A call that comes after the cancellation is cancelled, and its computation is not begun. -/
theorem follow_cancelled {c : Core σ} {fires : Option Nat} {context : Context} {request : Request}
    {chunk : Chunk} (hreached : (c.service context request).reached = .computing chunk)
    (hfires : (c.times fires chunk).cancelled = some 0) (looks : List Nat) :
    ∃ c', c.follow fires context request looks = (c', .done
        (c.wayBack fires context request chunk).context
        (c.wayBack fires context request chunk).outcome) ∧
      c.Settled fires context request chunk c' := by
  have hready : (c.atMoment fires c.now).cancel.ready = true :=
    (fired_times c fires chunk 0).trans (by rw [hfires]; rfl)
  have hfirst : (c.times fires chunk).cancelled.any (· ≤ (c.times fires chunk).ownFinish) = true := by
    rw [hfires]
    exact decide_eq_true (Nat.zero_le (c.times fires chunk).ownFinish)
  have hover : (c.times fires chunk).finish = 0 := by
    rw [Times.finish, hfires]
    exact Nat.zero_min _
  have houtcome : outcomeOf (.error .cancelled) = c.raced fires chunk := (if_pos hfirst).symm
  have hwork : (c.times fires chunk).work c.compute (c.computation chunk) = (c.compute, []) :=
    if_pos hfires
  have hs := same_opened (c.atMoment fires c.now) (c.service context request) chunk
  have hopened : c.Adds ((c.atMoment fires c.now).opened (c.service context request) chunk)
      (c.wayIn context request chunk) (Effect.samples (c.service context request).effects) c.compute :=
    (adds_opened (c.atMoment fires c.now) (c.service context request) chunk).of_atMoment
  have hnow : ((c.atMoment fires c.now).opened (c.service context request) chunk).now =
      c.now + (c.times fires chunk).finish := hs.now.trans (by rw [hover]; rfl)
  have htake : (c.atMoment fires c.now).take context request =
      ((c.atMoment fires c.now).opened (c.service context request) chunk).conclude c.now c.now
        (c.service context request).leave (.error .cancelled) :=
    (take_cancelled (c.atMoment fires c.now) context request hreached hready).trans
      (congrArg (fun moment => conclude _ moment _ _ _) hs.now)
  obtain ⟨c', hconclude, hadds⟩ := conclude_raced (c := c) fires context request hs.handler hnow houtcome
  refine ⟨c', ?_, ?_⟩
  · rw [follow, htake, hconclude, foldl_done]
  · have h := hopened.trans hadds
    rw [hopened.compute] at h
    refine Left.settled ?_
    simp only [Left, hwork, List.append_nil]
    rw [List.append_assoc, List.append_assoc]
    exact h

/-- The call that waits for a chunk, with its computation begun. -/
theorem follow_begun {c : Core σ} {fires : Option Nat} {context : Context} {request : Request}
    {chunk : Chunk} (hreached : (c.service context request).reached = .computing chunk)
    (hfires : (c.times fires chunk).cancelled ≠ some 0) (looks : List Nat) :
    ∃ c' p, p.race = c.handler.race (c.computation chunk) c.now ∧ p.arrivedAt = c.now ∧
      p.leave = (c.service context request).leave ∧ c'.handler = c.handler ∧
      c.Adds c' (c.wayIn context request chunk ++ (c.computation chunk).events)
        (Effect.samples (c.service context request).effects) (c.computation chunk).begun ∧
      c.follow fires context request looks =
        (0 :: looks).foldl (fun s time => glance fires (c.now + time) s) (c', .waiting p) := by
  have hready : (c.atMoment fires c.now).cancel.ready = false := by
    refine (fired_times c fires chunk 0).trans ?_
    cases h : (c.times fires chunk).cancelled with
    | none => rfl
    | some time => exact decide_eq_false fun hle => hfires (h.trans (congrArg some (Nat.le_zero.mp hle)))
  have hs := same_begun (c.atMoment fires c.now) (c.service context request) chunk
  have hbegun : c.Adds ((c.atMoment fires c.now).begun (c.service context request) chunk)
      (c.wayIn context request chunk ++ (c.computation chunk).events)
      (Effect.samples (c.service context request).effects) (c.computation chunk).begun :=
    (adds_begun (c.atMoment fires c.now) (c.service context request) chunk).of_atMoment
  have htake := take_begun (c.atMoment fires c.now) context request hreached hready
  refine ⟨_, (c.atMoment fires c.now).awaited (c.service context request) chunk,
    awaited_race (c.atMoment fires c.now) _ chunk, rfl, rfl, hs.handler, hbegun, ?_⟩
  -- The first look comes with the call.
  have hfirst : ((c.atMoment fires c.now).begun (c.service context request) chunk).atMoment fires
      (c.now + 0) = (c.atMoment fires c.now).begun (c.service context request) chunk :=
    atMoment_of_same hs
  rw [follow, htake, List.foldl_cons, glance, hfirst]
  rfl

/-- What the end of a race does to the backend. -/
theorem decided_adds {c : Core σ} {fires : Option Nat} {chunk : Chunk} {p : Pending σ}
    (hrace : p.race = c.handler.race (c.computation chunk) c.now)
    (hfires : (c.times fires chunk).cancelled ≠ some 0) {c' : Core σ}
    (hcompute : c'.compute = (c.computation chunk).begun) :
    ∃ events, (c.computation chunk).events ++ events =
        ((c.times fires chunk).work c.compute (c.computation chunk)).2 ∧
      c'.Adds (c'.decided p (c.times fires chunk).winner) events []
        ((c.times fires chunk).work c.compute (c.computation chunk)).1 := by
  have hcomputation : p.race.computation = c.computation chunk := by rw [hrace]; rfl
  unfold Times.work
  rw [if_neg hfires]
  by_cases hw : (c.times fires chunk).winner = .computation
  · rw [if_pos hw, hw]
    refine ⟨(c.computation chunk).finalEvents, rfl, ?_, rfl, ?_⟩
    · simp only [decided, logAll, hcomputation]
    · simp only [decided, logAll, hcomputation, hcompute, Backend.Computation.finished]
  · rw [if_neg hw]
    have hsame : c'.decided p (c.times fires chunk).winner = c' := by
      cases h : (c.times fires chunk).winner with
      | computation => exact absurd h hw
      | cancellation => rfl
      | deadline => rfl
    rw [hsame]
    exact ⟨[], List.append_nil _, (List.append_nil _).symm, rfl, hcompute⟩

/-- A look at the time at which the race is over. -/
theorem glance_finish {c c' : Core σ} {fires : Option Nat} {chunk : Chunk} (context : Context)
    (request : Request) {p : Pending σ} (hrace : p.race = c.handler.race (c.computation chunk) c.now)
    (harrived : p.arrivedAt = c.now) (hleave : p.leave = (c.service context request).leave)
    (hhandler : c'.handler = c.handler) (hfires : (c.times fires chunk).cancelled ≠ some 0)
    (hcompute : c'.compute = (c.computation chunk).begun) :
    ∃ c'', glance fires (c.now + (c.times fires chunk).finish) (c', .waiting p) = (c'', .done
        (c.wayBack fires context request chunk).context
        (c.wayBack fires context request chunk).outcome) ∧
      ∃ events, (c.computation chunk).events ++ events =
          ((c.times fires chunk).work c.compute (c.computation chunk)).2 ∧
        c'.Adds c'' (events ++
            ([ending (c.raced fires chunk)] ++
              Effect.events (c.wayBack fires context request chunk).effects))
          ((if c.handler.counted then [.backend ⟨(c.times fires chunk).finish⟩] else []) ++
            Effect.samples (c.wayBack fires context request chunk).effects)
          ((c.times fires chunk).work c.compute (c.computation chunk)).1 := by
  have hw : p.race.winner? (c'.atMoment fires (c.now + (c.times fires chunk).finish)).now
      (c'.atMoment fires (c.now + (c.times fires chunk).finish)).cancel.ready =
        some (c.times fires chunk).winner := by
    rw [hrace]
    exact (winner?_times c fires chunk _).trans (c.times fires chunk).winnerBy?_finish
  have hd := same_decided (c'.atMoment fires (c.now + (c.times fires chunk).finish)) p
    (c.times fires chunk).winner
  have ha : outcomeOf (p.race.answer c.handler (c.times fires chunk).winner) = c.raced fires chunk := by
    rw [hrace]
    exact outcome_times c fires chunk
  obtain ⟨c'', hconclude, hadds⟩ := conclude_raced (c := c) fires context request
    (hd.handler.trans hhandler) hd.now ha
  have hstarted : p.race.startedAt = c.now := by rw [hrace]; rfl
  refine ⟨c'', ?_, ?_⟩
  · rw [glance, poll_some _ _ hw, hstarted, harrived, hleave]
    show conclude _ _ _ _ (p.race.answer c'.handler _) = _
    rw [hhandler, hconclude]
  · have hmoment : (c'.atMoment fires (c.now + (c.times fires chunk).finish)).compute =
        (c.computation chunk).begun := hcompute
    obtain ⟨events, hevents, hdecided⟩ := decided_adds hrace hfires hmoment
    have h := (hdecided.trans hadds).of_atMoment
    rw [hdecided.compute] at h
    exact ⟨events, hevents, h⟩

/-- Cores that are the same at some moment have been added the same. -/
theorem Adds.at_moment {c c' c'' : Core σ} {events : List Log.Event} {samples : List Metrics.Sample}
    {compute : σ} (h : c.Adds c' events samples compute) {fires : Option Nat} {moment : Nat}
    (hsame : c''.atMoment fires moment = c'.atMoment fires moment) : c.Adds c'' events samples compute where
  log := (congrArg Core.log hsame).trans h.log
  metrics := (congrArg Core.metrics hsame).trans h.metrics
  compute := (congrArg Core.compute hsame).trans h.compute

/-- A call whose computation has begun, from the look on that comes when the race is over. -/
theorem foldl_finish {c c' : Core σ} {fires : Option Nat} {context : Context} {request : Request}
    {chunk : Chunk} {p : Pending σ} (hrace : p.race = c.handler.race (c.computation chunk) c.now)
    (harrived : p.arrivedAt = c.now) (hleave : p.leave = (c.service context request).leave)
    (hhandler : c'.handler = c.handler) (hfires : (c.times fires chunk).cancelled ≠ some 0)
    (hadds : c.Adds c' (c.wayIn context request chunk ++ (c.computation chunk).events)
      (Effect.samples (c.service context request).effects) (c.computation chunk).begun)
    (later : List Nat) :
    ∃ c'', ((c.times fires chunk).finish :: later).foldl (fun s time => glance fires (c.now + time) s)
        (c', .waiting p) = (c'', .done (c.wayBack fires context request chunk).context
          (c.wayBack fires context request chunk).outcome) ∧
      c.Settled fires context request chunk c'' := by
  obtain ⟨c'', hglance, events, hevents, hover⟩ := glance_finish context request hrace harrived hleave
    hhandler hfires hadds.compute
  refine ⟨c'', ?_, ?_⟩
  · rw [List.foldl_cons, hglance, foldl_done]
  · have h := hadds.trans hover
    rw [List.append_assoc, ← List.append_assoc _ events, hevents] at h
    refine Left.settled ?_
    simpa only [Left, List.append_assoc] using h

/-- A call whose race has been decided gets what the race has come to, through stages that watch. -/
theorem wayBack_outcome {c : Core σ} (hw : ∀ s ∈ c.stages, s.Watches) {context : Context}
    {request : Request} {chunk : Chunk}
    (hreached : (c.service context request).reached = .computing chunk) (fires : Option Nat) :
    (c.wayBack fires context request chunk).outcome = c.raced fires chunk := by
  have hwraps : (c.service context request).Wraps (dispatch c.state c.health context request) :=
    compose_wraps hw _ context request
  obtain ⟨-, hleave⟩ := dispatch_computing (hwraps.reached ▸ hreached)
  exact (hwraps.leave hleave _ _).1

end Core

/-! ### What the backend is asked

A backend that notes its texts shows what it was asked for.  A race begins its computation at its start or
not at all.
-/

/-- A part of a backend's state that notes every text whose computation begins, and nothing else. -/
structure Notes (b : Backend σ) (texts : σ → List String) : Prop where
  begun : ∀ s text, texts (b.compute s text).begun = texts s ++ [text]
  settle : ∀ s text s', texts ((b.compute s text).settle s') = texts s'

private theorem notes_scripted (script : Backend.Script) :
    Notes (Backend.scripted script) Backend.ScriptState.texts where
  begun := fun _ _ => rfl
  settle := fun _ _ _ => rfl

/-- A race asks the backend for its text once, or not at all if it is cancelled from the start. -/
theorem Notes.work {b : Backend σ} {texts : σ → List String} (h : Notes b texts) (x : Times) (s : σ)
    (text : String) :
    texts (x.work s (b.compute s text)).1 =
      texts s ++ if x.cancelled = some 0 then [] else [text] := by
  unfold Times.work
  by_cases hc : x.cancelled = some 0
  · rw [if_pos hc, if_pos hc, List.append_nil]
  · rw [if_neg hc, if_neg hc]
    by_cases hw : x.winner = .computation
    · rw [if_pos hw, Backend.Computation.finished, h.settle, h.begun]
    · rw [if_neg hw, h.begun]

/-! ### The race of three -/

namespace Core

/-- How a call comes to its outcome that asks for a computation now, when the cancellation fires at some
moment or never. -/
structure Races (c : Core σ) (fires : Option Nat) (context : Context) (request : Request) (chunk : Chunk) :
    Prop where
  /-- Until the race is over the call waits; the computation has begun, and nothing more. -/
  waits : ∀ looks, (∀ time ∈ looks, time < (c.times fires chunk).finish) →
    0 < (c.times fires chunk).finish → ∃ c' p, c.follow fires context request looks = (c', .waiting p) ∧
      c.Adds c' (c.wayIn context request chunk ++ (c.computation chunk).events)
        (Effect.samples (c.service context request).effects) (c.computation chunk).begun
  /-- Then it is done, whatever comes later. -/
  ends : ∀ looks later, (∀ time ∈ looks, time < (c.times fires chunk).finish) →
    ∃ c', c.follow fires context request (looks ++ (c.times fires chunk).finish :: later) = (c', .done
        (c.wayBack fires context request chunk).context
        (c.wayBack fires context request chunk).outcome) ∧
      c.Settled fires context request chunk c'
  /-- The caller gets what the race has come to, if the stages watch. -/
  told : (∀ s ∈ c.stages, s.Watches) →
    (c.wayBack fires context request chunk).outcome = c.raced fires chunk
  /-- The backend is asked for the chunk's content once, or not at all after a cancellation. -/
  asked : ∀ texts, Notes c.backend texts →
    texts ((c.times fires chunk).work c.compute (c.computation chunk)).1 =
      texts c.compute ++ if (c.times fires chunk).cancelled = some 0 then [] else [chunk.content]

/-- **A computation is a race of three**: whatever the times of the cancellation, of the computation and of
the timeout are, and however often the call is looked at, it waits until the first of them and is then
done. -/
theorem races {c : Core σ} {context : Context} {request : Request} {chunk : Chunk}
    (hreached : (c.service context request).reached = .computing chunk) (fires : Option Nat) :
    c.Races fires context request chunk := by
  refine ⟨?_, ?_, fun hw => wayBack_outcome hw hreached fires,
    fun _ hnotes => hnotes.work _ c.compute chunk.content⟩
  · intro looks hlooks hpos
    by_cases hfires : (c.times fires chunk).cancelled = some 0
    · have hearly := (Nat.lt_min.mp hpos).1
      rw [hfires] at hearly
      exact absurd hearly (Nat.lt_irrefl _)
    · obtain ⟨c', p, hrace, -, -, -, hadds, hfollow⟩ := follow_begun hreached hfires looks
      have hbefore : ∀ time ∈ 0 :: looks, time < (c.times fires chunk).finish :=
        List.forall_mem_cons.mpr ⟨hpos, hlooks⟩
      obtain ⟨c'', hearly, hsame⟩ := foldl_early hrace hbefore c'
      exact ⟨c'', p, hfollow.trans hearly, hadds.at_moment (hsame 0)⟩
  · intro looks later hlooks
    by_cases hfires : (c.times fires chunk).cancelled = some 0
    · exact follow_cancelled hreached hfires _
    · obtain ⟨c', p, hrace, harrived, hleave, hhandler, hadds, hfollow⟩ := follow_begun hreached hfires
        (looks ++ (c.times fires chunk).finish :: later)
      rw [hfollow]
      rcases Nat.eq_zero_or_pos (c.times fires chunk).finish with hzero | hpos
      · -- The race is over as soon as it begins.
        have hdone := foldl_finish hrace harrived hleave hhandler hfires hadds
          (looks ++ (c.times fires chunk).finish :: later)
        rwa [hzero] at hdone ⊢
      · have hbefore : ∀ time ∈ 0 :: looks, time < (c.times fires chunk).finish :=
          List.forall_mem_cons.mpr ⟨hpos, hlooks⟩
        obtain ⟨c'', hearly, hsame⟩ := foldl_early hrace hbefore c'
        have hhandler' : c''.handler = c.handler := (congrArg Core.handler (hsame 0)).trans hhandler
        rw [← List.cons_append, List.foldl_append, hearly]
        exact foldl_finish hrace harrived hleave hhandler' hfires (hadds.at_moment (hsame 0)) later

/-- All three at once: the cancellation wins, and without it the computation.  The log and the counters
show it, and a call that comes after the cancellation asks the backend for nothing. -/
theorem races_tied :
    let c := Core.new [.logging, .metrics] ⟨.ofMillis 50, true⟩
      (Backend.scripted ⟨[.ok [1]], .ofMillis 50, .zero⟩) .start .empty
    let chunk : Chunk := .ofContent "x"
    let after := fun fires => (c.follow fires ⟨predictPath, []⟩ (.predict chunk) [50_000_000]).1
    (c.service ⟨predictPath, []⟩ (.predict chunk)).reached = .computing chunk ∧
      (∀ s ∈ c.stages, s.Watches) ∧ Notes c.backend Backend.ScriptState.texts ∧
      c.raced (some 50_000_000) chunk = .error ⟨.cancelled, "call cancelled by server shutdown"⟩ ∧
      c.raced none chunk = .ok (.embedding ⟨[1]⟩) ∧
      (after (some 50_000_000)).log.filterMap stateTold? = ["Received", "Dispatched", "Cancelled"] ∧
      (after none).log.filterMap stateTold? = ["Received", "Dispatched", "Completed"] ∧
      (after (some 50_000_000)).metrics.backendLatency.count = 1 ∧
      (after (some 50_000_000)).compute.texts = ["x"] ∧ (after (some 0)).compute.texts = [] ∧
      ∀ fires, c.Races fires ⟨predictPath, []⟩ (.predict chunk) chunk := by
  intro c chunk after
  have hw : ∀ s ∈ c.stages, s.Watches := fun _ h => watches_of_shipped (by simpa [c, Core.new] using h)
  have hreached : (c.service ⟨predictPath, []⟩ (.predict chunk)).reached = .computing chunk := rfl
  refine ⟨hreached, hw, notes_scripted _, rfl, rfl, ?_, ?_, ?_, ?_, ?_, races hreached⟩ <;>
    decide +kernel

end Core

end EmbedServer.Call
