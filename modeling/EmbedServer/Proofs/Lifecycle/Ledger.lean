/-
The books of a run: what the gauges show.

The gauge of calls in flight shows how many wait, and the count of cancelled calls how many were told so,
each on top of what it showed before the start.  This needs stages that watch and do not meddle, as the two
that the server brings along do; then every call that waits has a way back that settles its account
(`Sound`).
-/
import EmbedServer.Proofs.Lifecycle.Requests

namespace EmbedServer.Lifecycle.Tasks

open Call (Gauges isCancelled Outcome)

variable {σ : Type}

/-! ### Where calls that wait come from

A call that waits was made by the stages, the handler and the backend that the server had when it came.
These are never replaced, so what they promise of a way back holds of every call that waits, however long
ago it came.
-/

/-- No turn replaces the stages, the handler or the backend. -/
theorem parts_step (t : Tasks σ) (u : Turn) :
    (t.step u).wire.core.stages = t.wire.core.stages ∧
      (t.step u).wire.core.handler = t.wire.core.handler ∧
      (t.step u).wire.core.backend = t.wire.core.backend := by
  rcases turn_cases u with ⟨exitFirst, rfl⟩ | rfl | hu
  · rw [show (t.step (.wake exitFirst)).wire = t.wire from wire_wake t exitFirst]
    exact ⟨rfl, rfl, rfl⟩
  · show t.act.wire.core.stages = _ ∧ t.act.wire.core.handler = _ ∧ t.act.wire.core.backend = _
    rcases act_cases t with ⟨-, h⟩ | ⟨a, rest, -, h⟩ <;> rw [h]
    · exact ⟨rfl, rfl, rfl⟩
    · have hframe := Act.frame_apply t.wire a
      exact ⟨hframe.stages, hframe.handler, hframe.backend⟩
  · have hb := beside_step t hu
    exact ⟨hb.stages, hb.handler, hb.backend⟩

/-- A call that waits has waited before, or has just been taken. -/
theorem pending_step {t : Tasks σ} {u : Turn} {id : Nat} {request : Call.Request}
    {p : Call.Pending σ} (h : (t.step u).wire.pending? id = some (request, p)) :
    t.wire.pending? id = some (request, p) ∨
      ∃ c context request', t.wire.core.take context request' = (c, .waiting p) := by
  have hput : ∀ (s : Http.Server σ) (j : Nat) (e : Http.Exchange σ), j < s.exchanges.length →
      e.pending? = none → s.exchanges = t.wire.exchanges →
      (s.put j e).pending? id = some (request, p) → t.wire.pending? id = some (request, p) := by
    intro s j e hj hidle hs hput
    rw [Http.Server.pending?_put s e hj] at hput
    split at hput
    · rw [hidle] at hput
      cases hput
    · rw [Http.Server.pending?, hs] at hput
      exact hput
  rcases request_cases t u with ⟨r, rfl⟩ | ⟨j, rfl⟩ | ⟨j, rfl⟩ | hu
  · obtain ⟨e, he, -, hcase⟩ := Http.Server.receive_cases t.wire r
    change (t.wire.receive r).pending? id = some (request, p) at h
    rcases Nat.lt_trichotomy id t.wire.exchanges.length with hlt | heq | hgt
    · exact Or.inl ((Http.Server.pending?_receive t.wire r hlt).symm.trans h)
    · have hnew : e.pending? = some (request, p) := by
        simpa [Http.Server.pending?, he, heq] using h
      rcases hcase with ⟨-, hidle, -⟩ | ⟨request', after, o, hidle, -⟩ |
        ⟨request', p', hwaits, htake, -⟩
      · rw [hidle] at hnew
        cases hnew
      · rw [hidle] at hnew
        cases hnew
      · rw [hwaits] at hnew
        cases hnew
        exact Or.inr ⟨_, _, _, htake⟩
    · rw [Http.Server.pending?, he, List.getElem?_eq_none (by simp; omega)] at h
      cases h
  · rcases look_step t j with ⟨hpending, -⟩ | ⟨e, request', p', w, c', after, o, he, -, -, -, hwire, -⟩
    · exact Or.inl ((hpending id).symm.trans h)
    · rw [hwire] at h
      exact Or.inl (hput { t.wire with core := c' } j _ (List.getElem?_eq_some_iff.mp he).1 rfl rfl h)
  · change (t.wire.abort j).pending? id = some (request, p) at h
    rcases Http.Server.abort_cases t.wire j with ⟨-, heq⟩ | ⟨e, he, -, heq⟩ |
      ⟨e, request', p', he, -, heq⟩ <;> rw [heq] at h
    · exact Or.inl h
    · exact Or.inl (hput _ j _ (List.getElem?_eq_some_iff.mp he).1 rfl rfl h)
    · exact Or.inl (hput { t.wire with core := t.wire.core.abandon } j _
        (List.getElem?_eq_some_iff.mp he).1 rfl rfl h)
  · exact Or.inl ((hu.pending id).symm.trans h)

/-- Whoever waits does so for a computation of the backend. -/
def AsksBackend (t : Tasks σ) : Prop :=
  ∀ id request p, t.wire.pending? id = some (request, p) →
    ∃ state text, p.race.computation = t.wire.core.backend.compute state text

theorem AsksBackend.step {t : Tasks σ} (h : t.AsksBackend) (u : Turn) : (t.step u).AsksBackend := by
  intro id request p hp
  rw [(parts_step t u).2.2]
  rcases pending_step hp with hold | ⟨c, context, request', htake⟩
  · exact h id request p hold
  · rcases Call.Core.take_cases t.wire.core context request' with
      ⟨c', after, o, heq, -⟩ | ⟨chunk, -, -, -, heq⟩
    · rw [htake] at heq
      simp at heq
    · rw [htake] at heq
      simp only [Prod.mk.injEq, Call.Progress.waiting.injEq] at heq
      rw [heq.2]
      have hopened := Call.Core.same_opened t.wire.core (t.wire.core.service context request') chunk
      exact ⟨_, _, by rw [← hopened.backend]; rfl⟩

/-- Calls pass through stages that watch, and wait for computations of the backend. -/
structure Sound (t : Tasks σ) : Prop where
  watched : ∀ s ∈ t.wire.core.stages, s.Watches
  counted : ∀ id request p, t.wire.pending? id = some (request, p) → p.Counted
  asked : ∀ id request p, t.wire.pending? id = some (request, p) →
    ∃ state text, p.race.computation = t.wire.core.backend.compute state text

theorem Sound.step {t : Tasks σ} (h : t.Sound) (u : Turn) : (t.step u).Sound := by
  refine ⟨by rw [(parts_step t u).1]; exact h.watched, ?_, AsksBackend.step h.asked u⟩
  intro id request p hp
  rcases pending_step hp with hold | ⟨c, context, request', htake⟩
  · exact h.counted id request p hold
  · rcases Call.Core.take_counted t.wire.core h.watched context request' with
      ⟨c', after, o, heq, -⟩ | ⟨c', p', heq, -, -, -, hcounted⟩
    · rw [htake] at heq
      simp at heq
    · rw [htake] at heq
      simp only [Prod.mk.injEq, Call.Progress.waiting.injEq] at heq
      rw [heq.2]
      exact hcounted

private theorem exchanges_running (b : Blueprint σ) (a : Net.SocketAddress) :
    (b.running a).wire.exchanges = [] := (b.frame_running a).exchanges

private theorem pending_running (b : Blueprint σ) (a : Net.SocketAddress) (id : Nat) :
    (b.running a).wire.pending? id = none := by
  simp [Http.Server.pending?, exchanges_running]

theorem asksBackend_running (b : Blueprint σ) (a : Net.SocketAddress) :
    (b.running a).tasks.AsksBackend := by
  intro id request p hp
  change (b.running a).wire.pending? id = some (request, p) at hp
  rw [pending_running] at hp
  cases hp

theorem sound_run (b : Blueprint σ) (hw : ∀ s ∈ b.core.stages, s.Watches) (a : Net.SocketAddress)
    (turns : List Turn) : ((b.running a).tasks.run turns).Sound := by
  refine run_keeps (fun _ u h => h.step u) ?_ turns
  refine ⟨?_, ?_, asksBackend_running b a⟩
  · show ∀ s ∈ (b.running a).wire.core.stages, s.Watches
    rw [(b.frame_running a).stages]
    exact hw
  · intro id request p hp
    change (b.running a).wire.pending? id = some (request, p) at hp
    rw [pending_running] at hp
    cases hp

/-! ### What the gauges show

A gauge has sixty-four bits and may have been moved before the start, so it is compared with what it
showed then, and the numbers of the record are taken into the same word.
-/

/-- How many were told that their call is cancelled. -/
def cancellations (answers : List Answered) : Nat := answers.countP fun x => isCancelled x.outcome

/-- The gauges go by who waits and by who was told that the call is cancelled. -/
structure Ledger (base : Gauges) (t : Tasks σ) : Prop where
  inFlight : t.wire.core.gauges.inFlight = base.inFlight + UInt64.ofNat t.wire.computing.length
  cancelled : t.wire.core.gauges.cancelled =
    base.cancelled + UInt64.ofNat (cancellations t.answers)

private theorem gauges_eq_of_metrics {c c' : Call.Core σ} (h : c'.metrics = c.metrics) :
    c'.gauges = c.gauges := by
  rw [Call.Core.gauges, Call.Core.gauges, h]

theorem Ledger.untouched {base : Gauges} {t t' : Tasks σ} (h : Ledger base t) (hu : Untouched t t') :
    Ledger base t' := by
  have hg := gauges_eq_of_metrics hu.metrics
  refine ⟨?_, ?_⟩
  · rw [hg, hu.computing]
    exact h.inFlight
  · rw [hg, hu.answers]
    exact h.cancelled

private theorem ofNat_succ (n : Nat) : UInt64.ofNat (n + 1) = UInt64.ofNat n + 1 := by
  rw [UInt64.ofNat_add]
  rfl

/-- An outcome moves the count of cancelled calls as its record does. -/
theorem cancelled_settle {base g : Gauges} {answers : List Answered}
    (h : g.cancelled = base.cancelled + UInt64.ofNat (cancellations answers)) (x : Answered) :
    (g.settle x.outcome).cancelled =
      base.cancelled + UInt64.ofNat (cancellations (answers ++ [x])) := by
  simp only [cancellations] at h ⊢
  rw [List.countP_append, Gauges.settle, h]
  cases ho : isCancelled x.outcome with
  | true => simp [ho, ofNat_succ, UInt64.add_assoc]
  | false => simp [ho]

theorem Ledger.receive {base : Gauges} {t : Tasks σ} (h : Ledger base t) (hs : t.Sound)
    (r : Http.Request) : Ledger base (t.step (.receive r)) := by
  obtain ⟨e, he, -, hcase⟩ := Http.Server.receive_cases t.wire r
  have hcomputing : (t.step (.receive r)).wire.computing =
      t.wire.computing ++ if e.pending?.isSome then [t.wire.exchanges.length] else [] :=
    Http.Server.computing_append he
  suffices hboth : (t.wire.receive r).core.gauges.inFlight =
        base.inFlight + UInt64.ofNat (t.step (.receive r)).wire.computing.length ∧
      (t.wire.receive r).core.gauges.cancelled =
        base.cancelled + UInt64.ofNat (cancellations (t.step (.receive r)).answers) from
    ⟨hboth.1, hboth.2⟩
  rcases hcase with ⟨hnone, hidle, hg⟩ | ⟨request, after, o, hidle, htake, hsome⟩ |
    ⟨request, p, hwaits, htake, hnone⟩
  · have hanswers : (t.step (.receive r)).answers = t.answers := by simp [step, answer, hnone]
    rw [hcomputing, hidle, hanswers, hg, h.inFlight]
    exact ⟨by simp, h.cancelled⟩
  · have hanswers : (t.step (.receive r)).answers =
        t.answers ++ [⟨t.now, t.wire.exchanges.length, o⟩] := by simp [step, answer, hsome]
    have hg : (t.wire.receive r).core.gauges = t.wire.core.gauges.settle o := by
      rcases Call.Core.take_counted t.wire.core hs.watched ⟨request.method, r.metadata⟩ request with
        ⟨c', after', o', heq, -, hg⟩ | ⟨c', p, heq, -⟩
      · rw [htake] at heq
        simp only [Prod.mk.injEq, Call.Progress.done.injEq] at heq
        rw [heq.1, heq.2.2]
        exact hg
      · rw [htake] at heq
        simp at heq
    rw [hcomputing, hidle, hanswers, hg]
    refine ⟨?_, cancelled_settle h.cancelled ⟨_, _, o⟩⟩
    show t.wire.core.gauges.inFlight = _
    rw [h.inFlight]
    simp
  · have hanswers : (t.step (.receive r)).answers = t.answers := by simp [step, answer, hnone]
    have hg : (t.wire.receive r).core.gauges = t.wire.core.gauges.enlist := by
      rcases Call.Core.take_counted t.wire.core hs.watched ⟨request.method, r.metadata⟩ request with
        ⟨c', after', o', heq, -⟩ | ⟨c', p', heq, -, -, hg, -⟩
      · rw [htake] at heq
        simp at heq
      · rw [htake] at heq
        simp only [Prod.mk.injEq, Call.Progress.waiting.injEq] at heq
        rw [heq.1]
        exact hg
    rw [hcomputing, hwaits, hanswers, hg]
    refine ⟨?_, h.cancelled⟩
    show t.wire.core.gauges.inFlight + 1 = _
    rw [h.inFlight, Option.isSome_some, if_pos rfl, List.length_append, List.length_singleton,
      ofNat_succ, UInt64.add_assoc]

/-- One call less in flight. -/
theorem inFlight_dismiss {base g : Gauges} {n n' : Nat} (hn : n' + 1 = n)
    (h : g.inFlight = base.inFlight + UInt64.ofNat n) :
    g.dismiss.inFlight = base.inFlight + UInt64.ofNat n' := by
  show g.inFlight - 1 = _
  rw [h, ← hn, ofNat_succ, ← UInt64.add_assoc, UInt64.add_sub_cancel]

theorem Ledger.look {base : Gauges} {t : Tasks σ} (h : Ledger base t) (hs : t.Sound) (id : Nat) :
    Ledger base (t.step (.look id)) := by
  rcases look_step t id with ⟨hpending, hmetrics, hlen, hanswers⟩ |
    ⟨e, request, p, w, c', after, o, he, hp, hw, hpoll, hwire, hanswers⟩
  · have hg := gauges_eq_of_metrics hmetrics
    refine ⟨?_, ?_⟩
    · rw [hg, Http.Server.computing_congr hlen hpending]
      exact h.inFlight
    · rw [hg, hanswers]
      exact h.cancelled
  · have hwaits : t.wire.pending? id = some (request, p) := by
      simp [Http.Server.pending?, he, Http.Exchange.pending?, hp]
    obtain ⟨c'', after', hpoll', -, hg⟩ := Call.Core.poll_counted t.wire.core
      (hs.counted id request p hwaits) hw
    rw [hpoll] at hpoll'
    simp only [Prod.mk.injEq, Call.Progress.done.injEq] at hpoll'
    rw [← hpoll'.1, ← hpoll'.2.2] at hg
    have hcomputing := Http.Server.computing_put_idle (s := { t.wire with core := c' })
      (e := e.answered request o) (Http.Server.mem_computing.mpr ⟨request, p, hwaits⟩) rfl
    refine ⟨?_, ?_⟩
    · rw [hwire]
      show c'.gauges.inFlight = _
      rw [hg, Gauges.settle_dismiss]
      exact inFlight_dismiss hcomputing.2 h.inFlight
    · rw [hwire, hanswers]
      show c'.gauges.cancelled = _
      rw [hg]
      exact cancelled_settle h.cancelled ⟨_, _, o⟩

theorem Ledger.leave {base : Gauges} {t : Tasks σ} (h : Ledger base t) (id : Nat) :
    Ledger base (t.step (.leave id)) := by
  refine ⟨?_, ?_⟩
  · show (t.wire.abort id).core.gauges.inFlight =
      base.inFlight + UInt64.ofNat (t.wire.abort id).computing.length
    rcases Http.Server.abort_cases t.wire id with ⟨-, heq⟩ | ⟨e, he, hidle, heq⟩ |
      ⟨e, request, p, he, hp, heq⟩ <;> rw [heq]
    · exact h.inFlight
    · rw [Http.Server.computing_congr List.length_set
        (Http.Server.pending?_put_idle he hidle (by simp [Http.Exchange.pending?]))]
      exact h.inFlight
    · have hwaits : t.wire.pending? id = some (request, p) := by
        simp [Http.Server.pending?, he, Http.Exchange.pending?, hp]
      have hcomputing := Http.Server.computing_put_idle
        (s := { t.wire with core := t.wire.core.abandon }) (e := { e with phase := .dropped })
        (Http.Server.mem_computing.mpr ⟨request, p, hwaits⟩) rfl
      exact inFlight_dismiss hcomputing.2 h.inFlight
  · show (t.wire.abort id).core.gauges.cancelled = _
    rcases Http.Server.abort_cases t.wire id with ⟨-, heq⟩ | ⟨e, -, -, heq⟩ |
      ⟨e, request, p, -, -, heq⟩ <;> rw [heq] <;> exact h.cancelled

theorem Ledger.step {base : Gauges} {t : Tasks σ} (h : Ledger base t) (hs : t.Sound) (u : Turn) :
    Ledger base (t.step u) := by
  rcases request_cases t u with ⟨r, rfl⟩ | ⟨id, rfl⟩ | ⟨id, rfl⟩ | hu
  · exact h.receive hs r
  · exact h.look hs id
  · exact h.leave id
  · exact h.untouched hu

theorem ledger_run (b : Blueprint σ) (hw : ∀ s ∈ b.core.stages, s.Watches) (a : Net.SocketAddress)
    (turns : List Turn) : Ledger b.core.gauges ((b.running a).tasks.run turns) := by
  refine (run_keeps (P := fun t : Tasks σ => t.Sound ∧ Ledger b.core.gauges t)
    (fun _ u h => ⟨h.1.step u, h.2.step h.1 u⟩) ⟨sound_run b hw a [], ?_⟩ turns).2
  have hmetrics := (b.frame_running a).metrics
  refine ⟨?_, ?_⟩
  · show (b.running a).wire.core.gauges.inFlight =
      b.core.gauges.inFlight + UInt64.ofNat (b.running a).wire.computing.length
    rw [gauges_eq_of_metrics hmetrics, Http.Server.computing, exchanges_running]
    simp [Blueprint.fresh, Http.Server.new, Call.Core.gauges]
  · show (b.running a).wire.core.gauges.cancelled =
      b.core.gauges.cancelled + UInt64.ofNat (cancellations [])
    rw [gauges_eq_of_metrics hmetrics]
    simp [Blueprint.fresh, Http.Server.new, Call.Core.gauges, cancellations]

end EmbedServer.Lifecycle.Tasks
