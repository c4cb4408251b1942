/-
How a stop ends the calls that are in flight.

Every call that would have ended before the drain timeout ends as if nothing had happened, and every
call that outlasts it is cancelled when it is over.  From there on it is a matter of counting
(`Proofs/Lifecycle/Outlast`).

If all calls end before the drain timeout the supervisor never sees its end: with everybody answered
the transport has nothing under way, and the clock does not go on before it has ended.
-/
import EmbedServer.Proofs.Lifecycle.Outlast
import EmbedServer.Proofs.Lifecycle.Overheard

namespace EmbedServer.Lifecycle.Tasks

open Call (Gauges isCancelled Outcome)

variable {σ : Type} {limit deadline : Nat} {t u : Tasks σ}

/-! ### Stops that cancel nothing -/

/-- All calls in flight end by themselves before a moment. -/
def AllEnd (t : Tasks σ) (moment : Nat) : Prop :=
  ∀ (id : Nat) e request p, t.wire.exchanges[id]? = some e → e.phase = .waiting request p →
    t.ownEnd p < moment

/-- Nothing is cancelled or about to be, and the supervisor does not see the end of the drain
timeout. -/
structure Calm (limit : Nat) (u : Tasks σ) : Prop where
  planned : ∀ m, (m, Act.cancel) ∉ u.planned
  early : ∀ timeout limit' deadline, u.stage = .draining timeout limit' deadline → u.now < limit

theorem Calm.wake (h : Calm limit u) (hu : Under t limit deadline u) (exitFirst : Bool) :
    Calm limit (u.step (.wake exitFirst)) := by
  refine ⟨?_, ?_⟩
  · intro m hm
    rcases mem_planned_wake hm with hold | ⟨acts, stage, hsteps, -, ha⟩
    · exact h.planned m hold
    · obtain ⟨timeout, limit', deadline', hs, hlate, -⟩ := hsteps.draining_of_cut ha rfl
      have hpaced := hu.pace.stage
      rw [hs] at hpaced
      have hlimit : limit' = limit := hpaced.1
      have hearly := h.early _ _ _ hs
      have hlate' : limit' ≤ u.now := hlate
      omega
  · intro timeout limit' deadline' hs
    rcases wake_cases u exitFirst with heq | ⟨acts, stage, -, hstep, heq⟩
    · rw [show u.step (.wake exitFirst) = u from heq] at hs ⊢
      exact h.early timeout limit' deadline' hs
    · rw [show u.step (.wake exitFirst) = _ from heq] at hs
      simp only at hs
      rw [hs] at hstep
      exact absurd (Stage.steps_of_step hstep).serving_of_draining hu.pace.begun.1

/-- The clock does not get to the end of the drain timeout if all calls end before it. -/
theorem Under.early_pass (hu : Under t limit deadline u)
    (hall : t.AllEnd limit)
    {time : Duration} (hallowed : u.isPrompt (.pass time) = true) {timeout : Duration}
    {limit' deadline' : Nat} (hs : u.stage = .draining timeout limit' deadline') :
    u.now + time.nanos < limit := by
  simp only [isPrompt, isQuiet, rests, Bool.and_eq_true, List.isEmpty_iff,
    Option.isNone_iff_eq_none] at hallowed
  obtain ⟨⟨⟨⟨⟨htodo, hrest⟩, hready⟩, hended⟩, -⟩, hcalls⟩ := hallowed
  have hbusy : u.endedAt = none := by
    cases hf : u.endedAt with
    | none => rfl
    | some f =>
        rw [hs] at hrest
        simp [Stage.step, sight, hf] at hrest
  have hdraining := Stopping.draining ⟨hu.orderly, hu.pace.begun.1, hu.pace.begun.2, htodo⟩
  -- Something is under way, because the transport has not ended.
  have hopen : ∃ e ∈ u.wire.exchanges, e.isOpen = true := by
    rw [hbusy] at hended
    simp only [Http.Server.isDrained, hdraining, Bool.true_and, Option.isSome_none, Bool.false_or,
      Bool.not_eq_true'] at hended
    obtain ⟨e, he, hopen⟩ := List.all_eq_false.mp hended
    refine ⟨e, he, ?_⟩
    cases hp : e.phase <;> simp_all [Http.Exchange.isOpen]
  obtain ⟨e, he, hopen⟩ := hopen
  obtain ⟨id, hid⟩ := List.getElem?_of_mem he
  have hcalm := List.all_eq_true.mp hready e he
  cases hp : e.phase with
  | waiting request p =>
      obtain ⟨e', request', p', he', hp', hsame, -⟩ :=
        hu.waits_of_mem (Http.Server.mem_computing_of_waiting hid hp)
      rw [hid] at hsame
      cases hsame
      rw [hp] at hp'
      cases hp'
      have hdue : u.now + time.nanos ≤ p.race.nextMoment :=
        Http.Server.le_of_nextMoment hid hp hcalls
      have hown := hall id e request p he' hp
      unfold ownEnd at hown
      omega
  | following f heard =>
      -- A stream ends as soon as it is looked at.
      cases hw : f.watch <;>
        simp [Http.Server.isReady, hp, Http.Follow.poll, hw, hdraining] at hcalm
  | complete => simp [Http.Exchange.isOpen, hp] at hopen
  | dropped => simp [Http.Exchange.isOpen, hp] at hopen

theorem Calm.step (h : Calm limit u) (hu : Under t limit deadline u) (hall : t.AllEnd limit)
    {v : Turn} (hallowed : u.isPrompt v = true) : Calm limit (u.step v) := by
  have hplanned : (∀ exitFirst, v ≠ .wake exitFirst) → ∀ m, (m, Act.cancel) ∉ (u.step v).planned := by
    intro hwake
    rw [planned_step (isPunctual_of_isPrompt hallowed) hwake]
    exact h.planned
  rcases turn_cases v with ⟨exitFirst, rfl⟩ | rfl | hv
  · exact h.wake hu exitFirst
  · refine ⟨hplanned nofun, ?_⟩
    intro timeout limit' deadline' hs
    show u.act.now < limit
    rw [now_act]
    refine h.early timeout limit' deadline' ?_
    rcases act_cases u with ⟨-, heq⟩ | ⟨a, rest, -, heq⟩ <;>
      rw [show u.step .act = u.act from rfl, heq] at hs <;> exact hs
  · refine ⟨hplanned hv.1, ?_⟩
    intro timeout limit' deadline' hs
    rw [(beside_step u hv).stage] at hs
    rcases clock_cases u v with ⟨time, rfl⟩ | rfl | ⟨hnow, -⟩
    · exact hu.early_pass hall hallowed hs
    · exact h.early timeout limit' deadline' hs
    · rw [hnow]
      exact h.early timeout limit' deadline' hs

/-- A supervisor that does not wait for the transport yet cuts nothing off. -/
theorem planned_start {exitFirst : Bool} (hserving : t.stage = .serving) (hidle : t.planned = [])
    {x : Nat × Act} (hcut : Stage.isCut x.2 = true) : x ∉ (t.step (.wake exitFirst)).planned := by
  intro hmem
  rcases mem_planned_wake hmem with hold | ⟨acts, stage, hsteps, -, ha⟩
  · rw [hidle] at hold
    cases hold
  · obtain ⟨timeout, limit', deadline', hs, -⟩ := hsteps.draining_of_cut ha hcut
    rw [hserving] at hs
    cases hs

private theorem calm_start {exitFirst : Bool} {cue : Cue} (hserving : t.stage = .serving)
    (hidle : t.planned = []) (hdrain : 0 < cue.drain.nanos) :
    Calm (t.now + cue.drain.nanos) (t.step (.wake exitFirst)) := by
  refine ⟨fun m => planned_start hserving hidle rfl, ?_⟩
  intro _ _ _ _
  rw [show (t.step (.wake exitFirst)).now = t.now from now_wake t exitFirst]
  omega

/-! ### The outcome

`Tallied` is the invariant with everything in it, and `Tallied.drained` reads off what it comes to.
-/

/-- How the calls in flight fare that waited when the stop was taken up and the server was `t`, with
the drain timeout over at `limit`; `base` are the gauges before the start. -/
structure Drained (base : Gauges) (t : Tasks σ) (limit : Nat) (u : Tasks σ) : Prop where
  /-- A call that ends by itself before the drain timeout does so, at its own moment. -/
  early : ∀ (id : Nat) e request p, t.wire.exchanges[id]? = some e → e.phase = .waiting request p →
    t.ownEnd p < limit → t.ownEnd p < u.now ∨ u.state = .stopped →
    u.Got id e request (t.ownEnd p) (Call.outcomeOf (t.ownAnswer p))
  /-- A call that outlasts the drain timeout is cancelled when it is over. -/
  late : ∀ (id : Nat) e request p, t.wire.exchanges[id]? = some e → e.phase = .waiting request p →
    limit < t.ownEnd p → limit < u.now ∨ u.state = .stopped →
    u.Got id e request limit (Call.outcomeOf (.error .cancelled))
  /-- Every call in flight is answered, and no request twice. -/
  each : limit < u.now ∨ u.state = .stopped → ∀ id ∈ t.wire.computing, (u.answersTo id).length = 1
  once : (u.answers.map Answered.id).Nodup
  /-- As many calls are counted as cancelled as outlast the drain timeout. -/
  counted : (∀ state text, (t.wire.core.backend.compute state text).answer ≠ .error .cancelled) →
    limit < u.now ∨ u.state = .stopped → ∃ n, t.Outlast limit n ∧
      u.wire.core.metrics.cancelled = t.wire.core.metrics.cancelled + UInt64.ofNat n
  /-- The warning, if there is one, tells how many that are. -/
  warned : ∀ moment n timeout, (moment, .exceed n timeout) ∈ u.done → moment = limit ∧
    ∃ k, t.Outlast limit k ∧ n = (base.inFlight + UInt64.ofNat k).toNat
  /-- It has been logged with that number. -/
  logged : ∀ moment n timeout, (moment, .exceed n timeout) ∈ u.done →
    (⟨.lifecycle, .warn, toString n ++ " call(s) still in flight after drain timeout of " ++
      timeout.text ++ "; cancelling", []⟩ : Log.Event) ∈ u.wire.core.log
  /-- Both numbers are exact if no call ends by itself right when the drain timeout is over. -/
  untied : (∀ id ∈ t.wire.computing, t.ownEnd? id ≠ some limit) →
    ((∀ state text, (t.wire.core.backend.compute state text).answer ≠ .error .cancelled) →
      limit < u.now ∨ u.state = .stopped → u.wire.core.metrics.cancelled =
        t.wire.core.metrics.cancelled + UInt64.ofNat (t.endingAfter limit).length) ∧
    ∀ moment n timeout, (moment, .exceed n timeout) ∈ u.done →
      n = (base.inFlight + UInt64.ofNat (t.endingAfter limit).length).toNat
  /-- Nothing is cancelled if all calls end before the drain timeout. -/
  calm : t.AllEnd limit → u.wire.core.cancel.fired = false
  /-- A computation asked for once the state has moved is refused, and leaves no trace. -/
  refused : u.state ≠ .running → ∀ context chunk, ∃ core after,
    u.wire.core.take context (.predict chunk) = (core, .done after (.error .shuttingDown)) ∧
      core.compute = u.wire.core.compute ∧ core.gauges = u.wire.core.gauges
  /-- Time is never stuck before the end. -/
  reaches : ∃ more, follows isPrompt u more = true ∧ (u.run more).state = .stopped

/-- What is known of a stop at every moment, its warning and its counts included. -/
structure Tallied (base : Gauges) (t : Tasks σ) (limit deadline : Nat) (u : Tasks σ) : Prop where
  under : Under t limit deadline u
  sound : u.Sound
  book : Ledger base u
  answers : ToldSince t u
  warned : Warned base t limit u
  calm : t.AllEnd limit → Calm limit u

theorem Tallied.step {base : Gauges} (h : Tallied base t limit deadline u) {v : Turn}
    (hallowed : u.isPrompt v = true) : Tallied base t limit deadline (u.step v) where
  under := h.under.step hallowed
  sound := h.sound.step v
  book := h.book.step h.sound v
  answers := h.answers.step h.under h.sound hallowed
  warned := h.warned.step h.under h.book hallowed
  calm := fun hall => (h.calm hall).step h.under hall hallowed

theorem tallied_run (b : Blueprint σ) (hw : ∀ s ∈ b.core.stages, s.Watches) (a : Net.SocketAddress)
    (before after : List Turn) (exitFirst : Bool) (cue : Cue)
    (hbefore : follows isServed (b.running a).tasks before = true)
    (hserving : ((b.running a).tasks.run before).stage = .serving)
    (hcue : (((b.running a).tasks.run before).sight exitFirst).cue = some cue)
    (hdrain : 0 < cue.drain.nanos)
    (hd : ((b.running a).tasks.run before).now + cue.drain.nanos + b.graceMargin.nanos < endOfTime)
    (hafter : follows isPrompt ((b.running a).tasks.run (before ++ [.wake exitFirst])) after = true) :
    Tallied b.core.gauges ((b.running a).tasks.run before)
      (((b.running a).tasks.run before).now + cue.drain.nanos)
      (((b.running a).tasks.run before).now + cue.drain.nanos + b.graceMargin.nanos)
      ((b.running a).tasks.run (before ++ .wake exitFirst :: after)) := by
  have hidle := idle_run b a before hserving
  have hunder := under_run b a before [] exitFirst cue hbefore hserving hcue hd rfl
  have hstart : Tallied b.core.gauges ((b.running a).tasks.run before)
      (((b.running a).tasks.run before).now + cue.drain.nanos)
      (((b.running a).tasks.run before).now + cue.drain.nanos + b.graceMargin.nanos)
      ((b.running a).tasks.run (before ++ [.wake exitFirst])) := by
    refine ⟨hunder, sound_run b hw a _, ledger_run b hw a _, ⟨[], ?_, nofun⟩, ?_, fun _ => ?_⟩ <;>
      rw [run_append]
    · rw [List.append_nil]
      exact answers_wake _ exitFirst
    · exact fun m n timeout hmem => absurd hmem (planned_start hserving hidle rfl)
    · exact calm_start hserving hidle hdrain
  rw [run_split]
  exact follows_keeps (fun _ _ h hv => h.step hv) hstart hafter

theorem Tallied.drained {base : Gauges} (htally : Tallied base t limit deadline u)
    (hl : t.now ≤ limit) (hlt : limit < deadline) (honce : t.Once) (hsound : t.Sound)
    (hbook : Ledger base t) (hlogged : ∀ moment n timeout, (moment, .exceed n timeout) ∈ u.done →
      Act.exceedEvent n timeout ∈ u.wire.core.log) : Drained base t limit u := by
  have h := htally.under
  have hidle := h.idle_of_stopped hl hlt
  -- Once the stop is over, or the drain timeout is, nobody waits.
  have hover : limit < u.now ∨ u.state = .stopped → ∀ id, id ∉ u.wire.computing := by
    intro hpast id hid
    rcases hpast with hlate | hs
    · obtain ⟨e, request, p, -, -, -, -, hle⟩ := h.waits_of_mem hid
      omega
    · rw [hidle hs] at hid
      cases hid
  have hlate : ∀ (id : Nat) e request p, t.wire.exchanges[id]? = some e →
      e.phase = .waiting request p → limit < t.ownEnd p → limit < u.now ∨ u.state = .stopped →
      u.Got id e request limit (Call.outcomeOf (.error .cancelled)) := by
    intro id e request p he hp hlater hpast
    cases h.calls id e request p he hp with
    | waits he' hnone hown hle =>
        exact absurd (Http.Server.mem_computing_of_waiting he' hp) (hover hpast id)
    | ended hle hgot => omega
    | cancelled hge hfired hgot =>
        rw [hsound.outcome he hp] at hgot
        exact hgot
  have hcounted : (∀ state text, (t.wire.core.backend.compute state text).answer ≠ .error .cancelled) →
      limit < u.now ∨ u.state = .stopped → ∃ n, t.Outlast limit n ∧
        u.wire.core.metrics.cancelled = t.wire.core.metrics.cancelled + UInt64.ofNat n := by
    intro hnever hpast
    obtain ⟨n, hn, hcount⟩ := htally.answers.outlast h honce hsound hnever (hover hpast)
    refine ⟨n, hn, ?_⟩
    have hthen : t.wire.core.metrics.cancelled = _ := hbook.cancelled
    have hnow : u.wire.core.metrics.cancelled = _ := htally.book.cancelled
    rw [hnow, hthen, hcount, UInt64.ofNat_add, UInt64.add_assoc]
  have hwarned : ∀ moment n timeout, (moment, .exceed n timeout) ∈ u.done → moment = limit ∧
      ∃ k, t.Outlast limit k ∧ n = (base.inFlight + UInt64.ofNat k).toNat :=
    fun moment n timeout hmem => htally.warned moment n timeout (List.mem_append_left _ hmem)
  refine ⟨?_, hlate, ?_, h.once.nodup, hcounted, hwarned, hlogged, ?_, ?_, ?_, ?_⟩
  · intro id e request p he hp hearly hpast
    cases h.calls id e request p he hp with
    | waits he' hnone hown hle =>
        rcases hpast with hpast | hs
        · omega
        · exact absurd (Http.Server.mem_computing_of_waiting he' hp) (hover (Or.inr hs) id)
    | ended hle hgot =>
        rw [hsound.outcome he hp] at hgot
        exact hgot
    | cancelled hge hfired hgot => omega
  · intro hpast id hid
    obtain ⟨e, request, p, he, hp⟩ := Http.Server.waiting_of_mem_computing hid
    cases h.calls id e request p he hp with
    | waits he' hnone hown hle =>
        exact absurd (Http.Server.mem_computing_of_waiting he' hp) (hover hpast id)
    | ended hle hgot => rw [hgot.answers]; rfl
    | cancelled hge hfired hgot => rw [hgot.answers]; rfl
  · intro huntied
    refine ⟨?_, ?_⟩
    · intro hnever hpast
      obtain ⟨n, hn, hcount⟩ := hcounted hnever hpast
      rw [hcount, hn.eq_of_untied huntied]
    · intro moment n timeout hmem
      obtain ⟨-, k, hk, hn⟩ := hwarned moment n timeout hmem
      rw [hn, hk.eq_of_untied huntied]
  · intro hall
    cases hfired : u.wire.core.cancel.fired with
    | false => rfl
    | true => exact absurd (List.mem_filter.mp (h.marked hfired).1).1 ((htally.calm hall).planned limit)
  · intro hs context chunk
    exact Call.Core.take_late u.wire.core htally.sound.watched hs context chunk
  · exact stop_reached h.orderly h.pace.begun.1 h.pace.begun.2

/-- **A stop lets every call end that ends before the drain timeout, and cancels the others.**

The transport is one that ends only when it is drained.  Once the stop is taken up, the clock waits
for everybody who has something to do, and no caller goes away. -/
theorem calls_drained (b : Blueprint σ)
    (hstages : ∀ s ∈ b.core.stages, s = .logging ∨ s = .metrics) (a : Net.SocketAddress)
    (before after : List Turn) (exitFirst : Bool) (cue : Cue)
    (hbefore : follows isServed (b.running a).tasks before = true)
    (hserving : ((b.running a).tasks.run before).stage = .serving)
    (hcue : (((b.running a).tasks.run before).sight exitFirst).cue = some cue)
    (hdrain : 0 < cue.drain.nanos) (hgrace : 0 < b.graceMargin.nanos)
    (hd : ((b.running a).tasks.run before).now + cue.drain.nanos + b.graceMargin.nanos < endOfTime)
    (hafter : follows isPrompt ((b.running a).tasks.run (before ++ [.wake exitFirst])) after = true) :
    Drained b.core.gauges ((b.running a).tasks.run before)
      (((b.running a).tasks.run before).now + cue.drain.nanos)
      ((b.running a).tasks.run (before ++ .wake exitFirst :: after)) := by
  have hw : ∀ s ∈ b.core.stages, s.Watches := fun s hs => Call.watches_of_shipped (hstages s hs)
  have htally := tallied_run b hw a before after exitFirst cue hbefore hserving hcue hdrain hd hafter
  exact htally.drained (Nat.le_add_right _ _) (Nat.lt_add_of_pos_right hgrace)
    (once_run b a before) (sound_run b hw a before) (ledger_run b hw a before)
    (fun _ _ _ hmem => exceed_logged b a _ hmem)

/-- One call ends before the drain timeout, and one outlasts it. -/
theorem calls_drained_mixed :
    let b := Blueprint.trial [.logging, .metrics] (.ofMillis 1000) (.ofMillis 500)
    let start := (b.running Blueprint.home).tasks
    let before : List Turn := [.receive Blueprint.errand, .pass (.ofMillis 900), .receive Blueprint.errand,
      .pass (.ofMillis 50), .trigger (.ofMillis 100), .send]
    let after : List Turn := [.act, .act, .act, .act, .pass (.ofMillis 50), .look 0,
      .pass (.ofMillis 50), .wake false, .act, .act, .look 1, .finish, .wake false, .act, .act, .act,
      .act]
    let last := start.run (before ++ .wake false :: after)
    (∀ s ∈ b.core.stages, s = .logging ∨ s = .metrics) ∧
      follows isServed start before = true ∧
      (start.run before).stage = .serving ∧
      ((start.run before).sight false).cue = some (.request (.ofMillis 100)) ∧
      0 < (Cue.request (.ofMillis 100)).drain.nanos ∧ 0 < b.graceMargin.nanos ∧
      (start.run before).now + (Cue.request (.ofMillis 100)).drain.nanos + b.graceMargin.nanos
        < endOfTime ∧
      follows isPrompt (start.run (before ++ [.wake false])) after = true ∧
      last.answers.map (fun x => (x.moment, x.id, isCancelled x.outcome)) =
        [((Duration.ofMillis 1000).nanos, 0, false), ((Duration.ofMillis 1050).nanos, 1, true)] ∧
      (⟨.lifecycle, .warn, "1 call(s) still in flight after drain timeout of 100ms; cancelling", []⟩ :
        Log.Event) ∈ last.wire.core.log ∧
      Drained b.core.gauges (start.run before) ((start.run before).now + (Duration.ofMillis 100).nanos)
        last := by
  intro b start before after last
  have hstages : ∀ s ∈ b.core.stages, s = .logging ∨ s = .metrics := by
    intro s hs
    simpa [b, Blueprint.trial, Call.Core.new] using hs
  have hbefore : follows isServed start before = true := by decide +kernel
  have hserving : (start.run before).stage = .serving := by decide +kernel
  have hcue : ((start.run before).sight false).cue = some (.request (.ofMillis 100)) := by
    decide +kernel
  have hd : (start.run before).now + (Cue.request (.ofMillis 100)).drain.nanos
      + b.graceMargin.nanos < endOfTime := by decide +kernel
  have hafter : follows isPrompt (start.run (before ++ [.wake false])) after = true := by
    decide +kernel
  exact ⟨hstages, hbefore, hserving, hcue, by decide, by decide, hd, hafter, by decide +kernel,
    by decide +kernel, calls_drained b hstages Blueprint.home before after false
      (.request (.ofMillis 100)) hbefore hserving hcue (by decide) (by decide) hd hafter⟩

end EmbedServer.Lifecycle.Tasks
