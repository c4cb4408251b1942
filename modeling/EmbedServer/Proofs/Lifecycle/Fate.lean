/-
What becomes of the calls that are in flight when a stop is taken up.

Left alone, a call ends by itself when its computation does or when its time is up, whichever comes
first.  During a stop there are three things it can do: it waits, and then neither its own end nor the
end of the drain timeout is past; it has ended by itself, no later than the drain timeout; or it was
cancelled, at the end of the drain timeout and no later than its own end.  That is `Fate`, and every
turn keeps it, as long as the clock waits for everybody.

The step that needs an argument is the passing of time.  It may pass only while no call has anything
to do, so none is due and nothing is cancelled; then the supervisor cannot be past its wait for the
transport, because past it there has been a cancellation, or the transport has ended and no call
waits.  So the clock goes no further than the drain timeout, and no further than the end of any call.

No call joins those that wait, because the state has moved by the time at which anybody but the
supervisor has a turn again.
-/
import EmbedServer.Proofs.Lifecycle.Bound
import EmbedServer.Proofs.Lifecycle.Served

namespace EmbedServer

namespace Http.Server

variable {σ : Type}

/-- No call is due before the first of them. -/
theorem le_of_nextMoment {s : Server σ} {id x : Nat} {e : Exchange σ} {request : Call.Request}
    {p : Call.Pending σ} (he : s.exchanges[id]? = some e) (hp : e.phase = .waiting request p)
    (h : s.nextMoment.all (x ≤ ·) = true) : x ≤ p.race.nextMoment := by
  obtain ⟨l, hl, hmem⟩ : ∃ l : List Nat, s.nextMoment = l.min? ∧ p.race.nextMoment ∈ l :=
    ⟨_, rfl, List.mem_filterMap.mpr ⟨e, List.mem_of_getElem? he, by simp only [hp]⟩⟩
  rw [hl] at h
  cases hm : l.min? with
  | none =>
      rw [List.min?_eq_none_iff.mp hm] at hmem
      cases hmem
  | some m =>
      rw [hm] at h
      simp only [Option.all_some, decide_eq_true_eq] at h
      exact Nat.le_trans h ((List.min?_eq_some_iff.mp hm).2 _ hmem)

end Http.Server

namespace Lifecycle.Tasks

open Call (isCancelled Outcome)

variable {σ : Type} {limit deadline : Nat}

/-! ### How calls end

A call's own end is settled when it begins to wait, since its race has its moment and its answer whoever
looks at it.  So both can be read off at the moment at which the stop is taken up.
-/

/-- The moment at which a waiting call ends by itself. -/
def ownEnd (t : Tasks σ) (p : Call.Pending σ) : Nat := max t.now p.race.nextMoment

/-- The answer with which it does. -/
def ownAnswer (t : Tasks σ) (p : Call.Pending σ) : Backend.Answer :=
  p.race.ownAnswer t.wire.core.handler (t.ownEnd p)

/-- A request has been answered, once and with this outcome. -/
structure Got (u : Tasks σ) (id : Nat) (e : Http.Exchange σ) (request : Call.Request) (moment : Nat)
    (o : Outcome) : Prop where
  exchange : u.wire.exchanges[id]? = some (e.answered request o)
  answers : u.answersTo id = [⟨moment, id, o⟩]

theorem Got.step {u : Tasks σ} {id : Nat} {e : Http.Exchange σ} {request : Call.Request}
    {moment : Nat} {o : Outcome} (h : u.Got id e request moment o) (v : Turn) :
    (u.step v).Got id e request moment o where
  exchange := complete_step h.exchange rfl v
  answers := (answersTo_complete h.exchange rfl v).trans h.answers

/-- A look at a call that has won or lost its race answers it, now. -/
theorem got_look {u : Tasks σ} {id : Nat} {e : Http.Exchange σ} {request : Call.Request}
    {p : Call.Pending σ} {w : Call.Race.Winner} (he : u.wire.exchanges[id]? = some e)
    (hp : e.phase = .waiting request p) (hnone : u.answersTo id = [])
    (hw : p.race.winner? u.now u.wire.core.cancel.ready = some w) :
    (u.step (.look id)).Got id e request u.now
      (p.outcome u.now (p.race.answer u.wire.core.handler w)) := by
  obtain ⟨c', after, hpoll⟩ := Call.Core.poll_outcome u.wire.core p hw
  have hout : u.wire.outcomeAt? id = some (p.outcome u.now (p.race.answer u.wire.core.handler w)) := by
    simp only [Http.Server.outcomeAt?, Http.Server.pending?_of_waiting he hp, hpoll]
    rfl
  have hanswers : (u.step (.look id)).answers =
      u.answers ++ [⟨u.now, id, p.outcome u.now (p.race.answer u.wire.core.handler w)⟩] := by
    simp [step, answer, hout]
  refine ⟨?_, ?_⟩
  · rw [look_answered he hp hpoll]
    exact List.getElem?_set_self (List.getElem?_eq_some_iff.mp he).1
  · rw [answersTo_append hanswers, hnone, if_pos rfl]
    rfl

theorem Got.settled {u : Tasks σ} {id : Nat} {e : Http.Exchange σ} {request : Call.Request}
    {moment : Nat} {o : Outcome} (h : u.Got id e request moment o) : u.wire.pending? id = none := by
  simp [Http.Server.pending?, h.exchange, Http.Exchange.pending?]

/-- What has become of a call that waited when a stop was taken up. -/
inductive Fate (t : Tasks σ) (limit : Nat) (u : Tasks σ) (id : Nat) (e : Http.Exchange σ)
    (request : Call.Request) (p : Call.Pending σ) : Prop
  | waits (he : u.wire.exchanges[id]? = some e) (hnone : u.answersTo id = [])
      (hown : u.now ≤ t.ownEnd p) (hlimit : u.now ≤ limit)
  | ended (hle : t.ownEnd p ≤ limit)
      (h : u.Got id e request (t.ownEnd p) (p.outcome (t.ownEnd p) (t.ownAnswer p)))
  | cancelled (hge : limit ≤ t.ownEnd p) (hfired : u.wire.core.cancel.ready = true)
      (h : u.Got id e request limit (p.outcome limit (.error .cancelled)))

/-! ### What is known during a stop

`Under` is what every turn of the stop keeps, whoever has it.  It speaks of moments at which the
supervisor is in the middle of something as well; what it says of the calls then needs nothing but its
fields.
-/

/-- A server `u` whose stop was taken up when it was `t`. -/
structure Under (t : Tasks σ) (limit deadline : Nat) (u : Tasks σ) : Prop where
  le_deadline : limit ≤ deadline
  pace : Pace t.now limit deadline u
  orderly : u.Orderly
  served : u.Served
  once : u.Once
  handler : u.wire.core.handler = t.wire.core.handler
  /-- No call has joined those that waited. -/
  closed : ∀ id, t.wire.pending? id = none → u.wire.pending? id = none
  calls : ∀ id e request p, t.wire.exchanges[id]? = some e → e.phase = .waiting request p →
    Fate t limit u id e request p

variable {t u : Tasks σ}

/-- Somebody but the supervisor has a turn only when the state has moved. -/
theorem Under.late (h : Under t limit deadline u) (htodo : u.todo = []) : u.state ≠ .running :=
  h.orderly.late_of_draining (Stopping.draining ⟨h.orderly, h.pace.begun.1, h.pace.begun.2, htodo⟩)

/-- A cancellation that shows has been planned for the end of the drain timeout, which is past. -/
theorem Under.marked (h : Under t limit deadline u) (hc : u.wire.core.cancel.ready = true) :
    (limit, Act.cancel) ∈ u.marks ∧ limit ≤ u.now := by
  have hmem : Act.cancel ∈ u.milestones := by
    rw [← List.contains_iff_mem, ← h.orderly.cancel]
    exact hc
  obtain ⟨m, hm⟩ := (mem_milestones rfl).mp hmem
  have hmark := mem_marks rfl hm
  obtain ⟨hmoment, hpast⟩ := h.pace.stage.cancel_moment h.le_deadline hmark
  rw [hmoment] at hmark
  exact ⟨hmark, hpast⟩

/-- As long as a call waits that is not cancelled, the supervisor waits for the transport. -/
theorem Under.draining (h : Under t limit deadline u) (htodo : u.todo = [])
    (hc : u.wire.core.cancel.ready = false) {id : Nat} (hwaits : u.wire.pending? id ≠ none) :
    ∃ timeout, u.stage = .draining timeout limit deadline := by
  refine h.pace.stage.draining_of_calm ?_ ?_
  · cases hended : u.endedAt with
    | none => rfl
    | some f =>
        have hnil := (h.served (by rw [hended]; rfl)).2
        exact absurd (computing_eq_nil.mp hnil id) hwaits
  · intro m hm
    have hdone := (done_iff_marks (a := .cancel) rfl fun _ _ => Or.inr htodo).mpr ⟨m, hm⟩
    have hfired : u.wire.core.cancel.fired = true := by
      rw [h.orderly.cancel, List.contains_iff_mem]
      exact (mem_milestones rfl).mpr hdone
    rw [show u.wire.core.cancel.fired = false from hc] at hfired
    cases hfired

/-! ### Every turn keeps a call's fate

Two kinds of turns matter: time passes, and somebody looks at this very call.
-/

theorem Fate.pass {id : Nat} {e : Http.Exchange σ} {request : Call.Request} {p : Call.Pending σ}
    (h : Fate t limit u id e request p) (hu : Under t limit deadline u)
    (hp : e.phase = .waiting request p) {time : Duration} (hallowed : u.isPrompt (.pass time) = true) :
    Fate t limit (u.step (.pass time)) id e request p := by
  cases h with
  | ended hle h => exact .ended hle (h.step _)
  | cancelled hge hfired h => exact .cancelled hge hfired (h.step _)
  | waits he hnone hown hlimit =>
      simp only [isPrompt, isQuiet, rests, Bool.and_eq_true, List.isEmpty_iff] at hallowed
      obtain ⟨⟨⟨⟨⟨htodo, -⟩, hready⟩, -⟩, hstage⟩, hcalls⟩ := hallowed
      have hcalm := List.all_eq_true.mp hready e (List.mem_of_getElem? he)
      simp only [Http.Server.isReady, hp, Bool.not_eq_true', Option.isSome_eq_false_iff,
        Option.isNone_iff_eq_none] at hcalm
      obtain ⟨hc, hsoon⟩ := Call.Race.winner?_eq_none.mp hcalm
      have hwaits : u.wire.pending? id ≠ none := by
        rw [Http.Server.pending?_of_waiting he hp]
        simp
      obtain ⟨timeout, hdraining⟩ := hu.draining htodo hc hwaits
      rw [hdraining] at hstage
      simp only [Stage.nextMoment, Option.all_some, decide_eq_true_eq] at hstage
      have hdue : u.now + time.nanos ≤ p.race.nextMoment :=
        Http.Server.le_of_nextMoment he hp hcalls
      refine .waits he hnone ?_ hstage
      show u.now + time.nanos ≤ t.ownEnd p
      unfold ownEnd
      omega

theorem Fate.look {id : Nat} {e : Http.Exchange σ} {request : Call.Request} {p : Call.Pending σ}
    (h : Fate t limit u id e request p) (hu : Under t limit deadline u)
    (hp : e.phase = .waiting request p) : Fate t limit (u.step (.look id)) id e request p := by
  cases h with
  | ended hle h => exact .ended hle (h.step _)
  | cancelled hge hfired h => exact .cancelled hge ((signals_step u _).2 hfired) (h.step _)
  | waits he hnone hown hlimit =>
      have hpend := Http.Server.pending?_of_waiting he hp
      cases hw : p.race.winner? u.now u.wire.core.cancel.ready with
      | none =>
          have hpoll := Call.Core.poll_none u.wire.core p hw
          have hlook : u.wire.look id = u.wire := by simp only [Http.Server.look, he, hp, hpoll]
          have hout : u.wire.outcomeAt? id = none := by
            simp only [Http.Server.outcomeAt?, hpend, hpoll]
          have hnow : (u.step (.look id)).now = u.now := congrArg (·.core.now) hlook
          refine .waits ?_ ?_ (by rw [hnow]; exact hown) (by rw [hnow]; exact hlimit)
          · show (u.wire.look id).exchanges[id]? = some e
            rw [hlook]
            exact he
          · simpa [answersTo, step, answer, hout] using hnone
      | some w =>
          have hgot := got_look he hp hnone hw
          rw [hu.handler] at hgot
          cases hc : u.wire.core.cancel.ready with
          | true =>
              -- Somebody has cancelled, so it is the end of the drain timeout.
              rw [hc] at hw
              have hnow : u.now = limit := Nat.le_antisymm hlimit (hu.marked hc).2
              simp only [Call.Race.winner?, if_true, Option.some.injEq] at hw
              rw [← hw, hnow] at hgot
              exact .cancelled (by omega) ((signals_step u _).2 hc) hgot
          | false =>
              -- The call has come to its own end.
              rw [hc] at hw
              have hdue : p.race.nextMoment ≤ u.now := by
                refine Nat.le_of_not_lt ?_
                intro hlt
                rw [Call.Race.winner?_eq_none.mpr ⟨rfl, hlt⟩] at hw
                cases hw
              have hsince : t.now ≤ u.now := hu.pace.since_le
              have hnow : u.now = t.ownEnd p := by
                unfold ownEnd at hown ⊢
                omega
              rw [Call.Race.answer_eq_ownAnswer hw, hnow] at hgot
              exact .ended (by omega) hgot

/-- A turn of anybody else leaves a call as it is. -/
theorem Fate.other {id : Nat} {e : Http.Exchange σ} {request : Call.Request} {p : Call.Pending σ}
    (h : Fate t limit u id e request p) {v : Turn} (hlook : v ≠ .look id) (hleave : v ≠ .leave id)
    (hnow : (u.step v).now = u.now) : Fate t limit (u.step v) id e request p := by
  cases h with
  | ended hle h => exact .ended hle (h.step _)
  | cancelled hge hfired h => exact .cancelled hge ((signals_step u v).2 hfired) (h.step _)
  | waits he hnone hown hlimit =>
      refine .waits (exchange_step he hlook hleave) ?_ (by rw [hnow]; exact hown)
        (by rw [hnow]; exact hlimit)
      rw [answersTo_step (List.getElem?_eq_some_iff.mp he).1 hlook]
      exact hnone

private theorem now_finish (t : Tasks σ) : (t.step .finish).now = t.now := rfl

theorem Fate.step {id : Nat} {e : Http.Exchange σ} {request : Call.Request} {p : Call.Pending σ}
    (h : Fate t limit u id e request p) (hu : Under t limit deadline u)
    (hp : e.phase = .waiting request p) {v : Turn} (hallowed : u.isPrompt v = true) :
    Fate t limit (u.step v) id e request p := by
  by_cases hlook : v = .look id
  · subst hlook
    exact h.look hu hp
  · have hleave : v ≠ .leave id := by
      intro hc
      subst hc
      cases hallowed
    rcases clock_cases u v with ⟨time, rfl⟩ | rfl | ⟨hnow, -⟩
    · exact h.pass hu hp hallowed
    · exact h.other hlook hleave (now_finish u)
    · exact h.other hlook hleave hnow

/-! ### Every turn keeps what is known -/

private theorem isServed_of_isPrompt {v : Turn} (h : u.isPrompt v = true) : u.isServed v = true := by
  cases v with
  | finish =>
      simp only [isPrompt, Bool.and_eq_true] at h
      exact h.2
  | _ => rfl

/-- A supervisor that is in the middle of something goes on with it. -/
theorem act_of_busy {v : Turn} (h : u.isPrompt v = true) (htodo : u.todo ≠ []) : v = .act := by
  have hbusy : u.todo.isEmpty = false := by simpa using htodo
  cases v with
  | act => rfl
  | pass time => simp [isPrompt, isQuiet, rests, hbusy] at h
  | leave id => cases h
  | _ => simp [isPrompt, isWhole, hbusy] at h

theorem Under.closed_step (h : Under t limit deadline u) {v : Turn} (hallowed : u.isPrompt v = true)
    {id : Nat} (hnone : u.wire.pending? id = none) : (u.step v).wire.pending? id = none := by
  by_cases htodo : u.todo = []
  · exact pending_late (h.late htodo) v hnone
  · have hact := act_of_busy hallowed htodo
    subst hact
    rcases request_cases u .act with ⟨r, hc⟩ | ⟨j, hc⟩ | ⟨j, hc⟩ | hun
    · cases hc
    · cases hc
    · cases hc
    · rw [hun.pending]
      exact hnone

theorem Under.step (h : Under t limit deadline u) {v : Turn} (hallowed : u.isPrompt v = true) :
    Under t limit deadline (u.step v) where
  le_deadline := h.le_deadline
  pace := h.pace.step h.le_deadline (isPunctual_of_isPrompt hallowed)
  orderly := h.orderly.step v
  served := h.served.step h.orderly (isServed_of_isPrompt hallowed)
  once := h.once.step v
  handler := (parts_step u v).2.1.trans h.handler
  closed := fun id hid => h.closed_step hallowed (h.closed id hid)
  calls := fun id e request p he hp => (h.calls id e request p he hp).step h hp hallowed

/-- What is known when a stop is taken up. -/
theorem under_start {exitFirst : Bool} {cue : Cue} (ho : t.Orderly) (hserved : t.Served)
    (honce : t.Once) (hserving : t.stage = .serving) (hidle : t.planned = [])
    (hpast : ∀ f, t.endedAt = some f → f ≤ t.now) (hcue : (t.sight exitFirst).cue = some cue)
    (hd : t.now + cue.drain.nanos + t.grace.nanos < endOfTime) :
    Under t (t.now + cue.drain.nanos) (t.now + cue.drain.nanos + t.grace.nanos)
      (t.step (.wake exitFirst)) := by
  have hwire : (t.step (.wake exitFirst)).wire = t.wire := wire_wake t exitFirst
  have hanswers : (t.step (.wake exitFirst)).answers = t.answers := answers_wake t exitFirst
  have hnow : (t.step (.wake exitFirst)).now = t.now := now_wake t exitFirst
  refine ⟨Nat.le_add_right _ _, pace_start hserving hidle hpast hcue hd, ho.step _, hserved.step ho rfl,
    honce.step _, (parts_step t _).2.1, ?_, ?_⟩
  · intro id hid
    rw [hwire]
    exact hid
  · intro id e request p he hp
    refine .waits (by rw [hwire]; exact he) ?_ ?_ ?_
    · rw [answersTo, hanswers]
      refine List.filter_eq_nil_iff.mpr ?_
      intro x hx hid
      have hover := honce.settled x hx
      rw [show x.id = id by simpa using hid, Http.Server.pending?_of_waiting he hp] at hover
      cases hover
    · rw [hnow]
      exact Nat.le_max_left _ _
    · rw [hnow]
      exact Nat.le_add_right _ _

/-- What is known of a stop at every moment, if the transport ends only when it is drained and the
clock waits for everybody. -/
theorem under_run (b : Blueprint σ) (a : Net.SocketAddress) (before after : List Turn)
    (exitFirst : Bool) (cue : Cue)
    (hbefore : follows isServed (b.running a).tasks before = true)
    (hserving : ((b.running a).tasks.run before).stage = .serving)
    (hcue : (((b.running a).tasks.run before).sight exitFirst).cue = some cue)
    (hd : ((b.running a).tasks.run before).now + cue.drain.nanos + b.graceMargin.nanos < endOfTime)
    (hafter : follows isPrompt ((b.running a).tasks.run (before ++ [.wake exitFirst])) after = true) :
    Under ((b.running a).tasks.run before)
      (((b.running a).tasks.run before).now + cue.drain.nanos)
      (((b.running a).tasks.run before).now + cue.drain.nanos + b.graceMargin.nanos)
      ((b.running a).tasks.run (before ++ .wake exitFirst :: after)) := by
  rw [← grace_run b a before] at hd ⊢
  have hstart := under_start (orderly_run b a before) (served_run b a hbefore) (once_run b a before)
    hserving (idle_run b a before hserving) (ended_run b a before) hcue hd
  rw [run_append] at hafter ⊢
  exact follows_keeps (fun _ _ h hv => h.step hv) hstart hafter

/-! ### What a call's fate comes to

With some time between the drain timeout and the deadline, everybody who is cancelled has a turn before
the transport is given up, and so nobody waits any longer when it is gone.
-/

/-- A call in flight now was in flight when the stop was taken up, and waits still. -/
theorem Under.waits_of_mem (h : Under t limit deadline u) {id : Nat}
    (hid : id ∈ u.wire.computing) : ∃ e request p, t.wire.exchanges[id]? = some e ∧
      e.phase = .waiting request p ∧ u.wire.exchanges[id]? = some e ∧
      u.now ≤ t.ownEnd p ∧ u.now ≤ limit := by
  obtain ⟨request, p, hpend⟩ := Http.Server.mem_computing.mp hid
  cases hold : t.wire.pending? id with
  | none =>
      rw [h.closed id hold] at hpend
      cases hpend
  | some x =>
      obtain ⟨e, he, hp⟩ := Http.Server.pending?_eq_some hold
      refine ⟨e, x.1, x.2, he, hp, ?_⟩
      cases h.calls id e x.1 x.2 he hp with
      | waits he' hnone hown hlimit => exact ⟨he', hown, hlimit⟩
      | ended hle hgot =>
          rw [hgot.settled] at hpend
          cases hpend
      | cancelled hge hfired hgot =>
          rw [hgot.settled] at hpend
          cases hpend

/-- With some time left between the drain timeout and the deadline, no call is in flight once the
transport is waited for no longer. -/
theorem Under.idle_of_gone (h : Under t limit deadline u) (hlt : limit < deadline)
    (hgone : u.endedAt.isSome = true ∨ deadline ≤ u.now) : u.wire.computing = [] := by
  rcases hgone with hended | hlate
  · exact (h.served hended).2
  · refine List.eq_nil_iff_forall_not_mem.mpr ?_
    intro id hid
    obtain ⟨e, request, p, -, -, -, -, hlimit⟩ := h.waits_of_mem hid
    omega

theorem Under.idle_of_stopped (h : Under t limit deadline u) (hl : t.now ≤ limit)
    (hlt : limit < deadline) (hs : u.state = .stopped) : u.wire.computing = [] := by
  obtain ⟨m, hm⟩ := (mem_milestones rfl).mp (h.orderly.stopped_iff.mp hs)
  have hfinished := (h.pace.stage.stopped hl h.le_deadline (mem_marks rfl hm)).1
  exact h.idle_of_gone hlt (h.pace.stage.gone (by rw [hfinished]; decide))

end Lifecycle.Tasks

end EmbedServer
