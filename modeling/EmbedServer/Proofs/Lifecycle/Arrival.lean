/-
Whether a stop that has been accepted comes to its end.

A request that has been accepted is on its way until the supervisor takes something up, so a supervisor
that waits for nothing else can always be brought to begin.  What it does then goes by one sum, the moment
and the two spans that it has to add to it: with a moment before the end of time it goes on to the
end of the stop, and with a sum beyond it it is lost on the spot, with the server left running.

Those who wait for the end cannot tell the two apart: `Running.isOver` holds in both cases.
-/
import EmbedServer.Proofs.Lifecycle.Asking
import EmbedServer.Proofs.Lifecycle.Bound

namespace EmbedServer.Lifecycle

variable {σ : Type}

namespace Tasks

/-! ### From the request to the supervisor -/

/-- While the supervisor waits for a request, it has nothing to do, and one that has been accepted is on
its way. -/
structure Reachable (t : Tasks σ) : Prop where
  idle : t.stage = .serving → t.todo = []
  underway : t.stage = .serving → t.requested = true →
    t.sending.isSome = true ∨ t.request.isSome = true

theorem Reachable.calm {t t' : Tasks σ} (h : t.Reachable) (stage : t'.stage = t.stage)
    (todo : t'.todo = t.todo) (requested : t'.requested = t.requested)
    (sending : t'.sending = t.sending) (request : t'.request = t.request) : t'.Reachable := by
  refine ⟨?_, ?_⟩
  · rw [stage, todo]
    exact h.idle
  · rw [stage, requested, sending, request]
    exact h.underway

theorem Reachable.trigger {t : Tasks σ} (h : t.Reachable) (d : Duration) : (t.ask d).Reachable := by
  cases hreq : t.requested with
  | true =>
      simp only [ask, Running.claim, hreq, if_true]
      exact h.calm rfl rfl rfl rfl rfl
  | false =>
      simp only [ask, Running.claim, hreq, Bool.false_eq_true, if_false]
      exact ⟨h.idle, fun _ _ => Or.inl rfl⟩

theorem Reachable.send {t : Tasks σ} (h : t.Reachable) : t.send.Reachable := by
  unfold Tasks.send
  split
  · exact h
  · rename_i drain hsending htodo
    rcases hand_cases t.toRunning drain with ⟨-, heq⟩ | ⟨hbusy, heq⟩ | ⟨hbusy, e, heq⟩ <;> rw [heq]
    · exact ⟨fun _ => htodo, fun _ _ => Or.inr rfl⟩
    · exact ⟨h.idle, fun hserving => absurd hserving hbusy⟩
    · exact ⟨h.idle, fun hserving => absurd hserving hbusy⟩
  · rename_i htodo
    have hbusy : t.stage ≠ .serving := by
      intro hserving
      rw [h.idle hserving] at htodo
      cases htodo
    exact ⟨h.idle, fun hserving => absurd hserving hbusy⟩

theorem Reachable.step {t : Tasks σ} (h : t.Reachable) (u : Turn) : (t.step u).Reachable := by
  cases u with
  | trigger d => exact h.trigger d
  | send => exact h.send
  | wake exitFirst =>
      show (t.wake exitFirst).Reachable
      rcases wake_cases t exitFirst with heq | ⟨acts, stage, -, hstep, heq⟩ <;> rw [heq]
      · exact h
      · have hbusy := (Stage.steps_of_step hstep).ne_serving
        exact ⟨fun hserving => absurd hserving hbusy, fun hserving => absurd hserving hbusy⟩
  | act =>
      show t.act.Reachable
      rcases act_cases t with ⟨-, heq⟩ | ⟨a, rest, htodo, heq⟩ <;> rw [heq]
      · exact h
      · have hbusy : t.stage ≠ .serving := by
          intro hserving
          rw [h.idle hserving] at htodo
          cases htodo
        exact ⟨fun hserving => absurd hserving hbusy, fun hserving => absurd hserving hbusy⟩
  | receive r => exact h.calm rfl rfl rfl rfl rfl
  | look id => exact h.calm rfl rfl rfl rfl rfl
  | leave id => exact h.calm rfl rfl rfl rfl rfl
  | pass time => exact h.calm rfl rfl rfl rfl rfl
  | publish key status => exact h.calm rfl rfl rfl rfl rfl
  | publishAll status => exact h.calm rfl rfl rfl rfl rfl
  | note e => exact h.calm rfl rfl rfl rfl rfl
  | retain => exact h.calm rfl rfl rfl rfl rfl
  | release => exact h.calm rfl rfl rfl rfl rfl
  | finish => exact h.calm rfl rfl rfl rfl rfl

theorem reachable_run (b : Blueprint σ) (a : Net.SocketAddress) (turns : List Turn) :
    ((b.running a).tasks.run turns).Reachable :=
  run_keeps (fun _ u h => h.step u) ⟨fun _ => rfl, fun _ => nofun⟩ turns

/-- A request that has reached the supervisor wakes it. -/
theorem begun_of_request {t : Tasks σ} (hserving : t.stage = .serving) (htodo : t.todo = [])
    (h : t.request.isSome = true) : (t.step (.wake false)).stage ≠ .serving := by
  obtain ⟨d, hd⟩ := Option.isSome_iff_exists.mp h
  have hcue : (t.sight false).cue = some (.request d) := by
    have hown : t.cue = some (.request d) := by simp only [Running.cue, hd]
    simp only [sight, Bool.false_eq_true, if_false, hown, Option.some_or]
  obtain ⟨⟨acts, stage⟩, hstep⟩ :
      ∃ next, t.stage.step t.grace (t.sight false) = some next := by
    refine Option.ne_none_iff_exists'.mp ?_
    rw [hserving]
    simp [Stage.step, hcue]
  show (t.wake false).stage ≠ .serving
  rw [wake_of_step htodo hstep]
  exact (Stage.steps_of_step hstep).ne_serving

/-- A stop that has been accepted can be taken up at once. -/
theorem Reachable.begins {t : Tasks σ} (h : t.Reachable) (hrequested : t.requested = true) :
    ∃ more, follows isPrompt t more = true ∧ (t.run more).stage ≠ .serving := by
  by_cases hserving : t.stage = .serving
  · have htodo := h.idle hserving
    have hsend : t.isPrompt .send = true := by simp [isPrompt, isWhole, isServed, htodo]
    have hnext : (t.step .send).stage = .serving ∧ (t.step .send).todo = [] ∧
        (t.step .send).request.isSome = true := by
      show t.send.stage = _ ∧ t.send.todo = _ ∧ t.send.request.isSome = true
      cases hsending : t.sending with
      | none =>
          have hrequest := h.underway hserving hrequested
          rw [hsending] at hrequest
          simp only [Tasks.send, hsending]
          exact ⟨hserving, htodo, hrequest.resolve_left (by simp)⟩
      | some d =>
          simp only [Tasks.send, hsending, htodo, Running.hand, hserving]
          exact ⟨trivial, trivial, rfl⟩
    obtain ⟨hserving', htodo', hrequest'⟩ := hnext
    refine ⟨[.send, .wake false], ?_, begun_of_request hserving' htodo' hrequest'⟩
    refine follows_cons.mpr ⟨hsend, follows_cons.mpr ⟨?_, rfl⟩⟩
    simp [isPrompt, isWhole, isServed, htodo']
  · exact ⟨[], rfl, hserving⟩

/-! ### How a stop is over

The moment, the drain timeout and the grace margin are added up in one sum.  If there is no such moment
the supervisor is gone before it has done anything, and the server keeps running.
-/

/-- A supervisor that is lost has done nothing of the stop. -/
theorem Orderly.running_of_lost {t : Tasks σ} (h : t.Orderly) (hlost : t.stage = .lost) :
    t.state = .running := by
  obtain ⟨cancelled, htold⟩ := h.told
  rw [hlost] at htold
  have hstate : t.state = stateOf t.milestones := h.state
  rw [hstate, (List.append_eq_nil_iff.mp htold).1]
  rfl

theorem Orderly.finished_of_stopped {t : Tasks σ} (h : t.Orderly) (hstopped : t.state = .stopped) :
    t.stage = .finished := by
  obtain ⟨cancelled, htold⟩ := h.told
  have hmem : .advance .stopped ∈ t.stage.told cancelled := by
    rw [← htold]
    exact List.mem_append_left _ (h.stopped_iff.mp hstopped)
  cases hs : t.stage with
  | finished => rfl
  | _ =>
      rw [hs] at hmem
      cases cancelled <;> simp [Stage.told, opening, cancellation] at hmem

private theorem deadline_none {now : Nat} {drain grace : Duration} (h : deadline? now drain grace = none) :
    endOfTime ≤ now + drain.nanos + grace.nanos := by
  refine Nat.le_of_not_lt fun hlt => ?_
  simp only [deadline?, hlt, if_true] at h
  cases h

private theorem deadline_some {now deadline : Nat} {drain grace : Duration}
    (h : deadline? now drain grace = some deadline) :
    now + drain.nanos + grace.nanos < endOfTime := by
  refine Decidable.byContradiction fun hnot => ?_
  simp only [deadline?, hnot, if_false] at h
  cases h

/-- Where a stop ends that was taken up at a moment: the server has stopped if the deadline is before
the end of time, and else it runs on without a supervisor. -/
structure EndsAt (moment : Nat) (drain : Duration) (t : Tasks σ) : Prop where
  stopped : t.state = .stopped ↔ moment + drain.nanos + t.grace.nanos < endOfTime
  lost : t.stage = .lost ∧ t.state = .running ↔
    endOfTime ≤ moment + drain.nanos + t.grace.nanos

private theorem endsAt_of_over {t : Tasks σ} (ho : t.Orderly) (hw : t.Waits) (hover : t.isOver = true) :
    ∃ moment cue, t.taken = some (moment, cue) ∧ t.EndsAt moment cue.drain := by
  unfold Waits at hw
  simp only [Running.isOver, Bool.or_eq_true, decide_eq_true_eq] at hover
  by_cases hlost : t.stage = .lost
  · have hrunning := ho.running_of_lost hlost
    rw [hlost] at hw
    obtain ⟨moment, cue, htaken, hd⟩ := hw
    have hlate := deadline_none hd
    refine ⟨moment, cue, htaken, ?_, iff_of_true ⟨hlost, hrunning⟩ hlate⟩
    exact iff_of_false (by rw [hrunning]; simp) (Nat.not_lt.mpr hlate)
  · have hstopped := hover.resolve_right hlost
    rw [ho.finished_of_stopped hstopped] at hw
    obtain ⟨moment, cue, deadline, htaken, hd⟩ := hw
    have hearly := deadline_some hd
    refine ⟨moment, cue, htaken, iff_of_true hstopped hearly, ?_⟩
    exact iff_of_false (fun h => hlost h.1) (Nat.not_le.mpr hearly)

theorem taken_step {t : Tasks σ} {x : Nat × Cue} (h : t.taken = some x) (u : Turn) :
    (t.step u).taken = some x := by
  rcases turn_cases u with ⟨exitFirst, rfl⟩ | rfl | hu
  · show (t.wake exitFirst).taken = some x
    rcases wake_cases t exitFirst with heq | ⟨acts, stage, -, -, heq⟩ <;> rw [heq]
    · exact h
    · show t.taken.or _ = some x
      rw [h, Option.some_or]
  · show t.act.taken = some x
    rcases act_cases t with ⟨-, heq⟩ | ⟨a, rest, -, heq⟩ <;> rw [heq] <;> exact h
  · rw [(beside_step t hu).taken]
    exact h

theorem taken_run {t : Tasks σ} {x : Nat × Cue} (h : t.taken = some x) (turns : List Turn) :
    (t.run turns).taken = some x :=
  run_keeps (P := fun t => t.taken = some x) (fun _ u h => taken_step h u) h turns

/-- What is over stays over. -/
theorem over_step {t : Tasks σ} (h : t.isOver = true) (u : Turn) : (t.step u).isOver = true := by
  simp only [Running.isOver, Bool.or_eq_true, decide_eq_true_eq] at h ⊢
  rcases h with hstopped | hlost
  · left
    have hrank := rank_step t u
    rw [hstopped] at hrank
    cases hs : (t.step u).state with
    | stopped => rfl
    | _ => rw [hs] at hrank; simp [State.rank] at hrank
  · right
    rcases turn_cases u with ⟨exitFirst, rfl⟩ | rfl | hu
    · show (t.wake exitFirst).stage = .lost
      rcases wake_cases t exitFirst with heq | ⟨acts, stage, -, hstep, heq⟩ <;> rw [heq]
      · exact hlost
      · rw [hlost] at hstep
        cases hstep
    · show t.act.stage = .lost
      rcases act_cases t with ⟨-, heq⟩ | ⟨a, rest, -, heq⟩ <;> rw [heq] <;> exact hlost
    · rw [(beside_step t hu).stage]
      exact hlost

/-! ### What an accepted stop comes to -/

/-- What comes of a server on which a stop has been accepted that lets calls take `drain`. -/
structure Accepted (b : Blueprint σ) (drain : Duration) (t : Tasks σ) : Prop where
  /-- Whoever waits for the end can be told, and without anybody being late. -/
  arrives : ∃ more, follows isPrompt t more = true ∧ (t.run more).isOver = true
  /-- Who is told can be sure of the end exactly if there is a moment for it. -/
  ends : ∀ more, (t.run more).isOver = true → ∃ moment cue,
    (t.run more).taken = some (moment, cue) ∧ (cue = .request drain ∨ cue.drain = .zero) ∧
      ((t.run more).state = .stopped ↔
        moment + cue.drain.nanos + b.graceMargin.nanos < endOfTime) ∧
      ((t.run more).stage = .lost ∧ (t.run more).state = .running ↔
        endOfTime ≤ moment + cue.drain.nanos + b.graceMargin.nanos)
  /-- What was taken up is not taken up again. -/
  kept : ∀ x, t.taken = some x → ∀ more, (t.run more).taken = some x
  /-- What is over stays so. -/
  stays : ∀ more rest, (t.run more).isOver = true → (t.run (more ++ rest)).isOver = true

/-- **A stop that has been accepted ends with the server stopped exactly if its deadline is before the end
of time.**  Otherwise the supervisor is lost when it takes the stop up: the server runs on for good,
and those who wait for its end are told all the same. -/
theorem stop_arrives_iff (b : Blueprint σ) (a : Net.SocketAddress) (turns : List Turn)
    (drain : Duration) (hasked : (asked turns).head? = some drain) :
    Accepted b drain ((b.running a).tasks.run turns) := by
  have horderly := orderly_run b a turns
  have hrequested : ((b.running a).tasks.run turns).requested = true := by
    have hclaimed := (claimed_run (claimed_running b a) turns).requested
    rw [List.nil_append] at hclaimed
    rw [hclaimed]
    cases hlist : asked turns with
    | nil => rw [hlist] at hasked; cases hasked
    | cons d rest => rfl
  constructor
  case arrives =>
    obtain ⟨first, hfirst, hserving⟩ := (reachable_run b a turns).begins hrequested
    have ho : (((b.running a).tasks.run turns).run first).Orderly :=
      run_keeps (fun _ u h => h.step u) horderly first
    by_cases hlost : (((b.running a).tasks.run turns).run first).stage = .lost
    · refine ⟨first, hfirst, ?_⟩
      simp [Running.isOver, hlost]
    · obtain ⟨more, hmore, hstopped⟩ := stop_reached ho hserving hlost
      refine ⟨first ++ more, follows_append.mpr ⟨hfirst, hmore⟩, ?_⟩
      rw [run_append]
      simp [Running.isOver, hstopped]
  case ends =>
    intro more hover
    rw [← run_append] at hover ⊢
    obtain ⟨moment, cue, htaken, hstopped, hlost⟩ :=
      endsAt_of_over (orderly_run b a (turns ++ more)) (waits_run b a (turns ++ more)) hover
    rw [grace_run] at hstopped hlost
    refine ⟨moment, cue, htaken, ?_, hstopped, hlost⟩
    cases cue with
    | abandoned => exact Or.inr rfl
    | exited => exact Or.inr rfl
    | request d =>
        have hfirst := (claimed_run (claimed_running b a) (turns ++ more)).taken moment d htaken
        have hhead : (asked turns ++ asked more).head? = some d := by
          simpa [asked] using hfirst
        rw [List.head?_append, hasked, Option.some_or] at hhead
        exact Or.inl (by rw [Option.some.inj hhead])
  case kept => exact fun x hx more => taken_run hx more
  case stays =>
    intro more rest hover
    rw [run_append]
    exact run_keeps (P := fun t => t.isOver = true) (fun _ u h => over_step h u) hover rest

/-- A stop that may take as long as it likes is accepted, and whoever waits for its end is told of it while
the server runs. -/
theorem stop_lost :
    let drain := Duration.ofSecs 0x8000000000000000
    let r := (Blueprint.trial [] .zero (.ofMillis 500)).running Blueprint.home
    drain.secs < UInt64.size ∧ (r.requestStop drain).1 = .initiated ∧
      (r.requestStop drain).2.isOver = true ∧ (r.requestStop drain).2.state = .running := by
  decide +kernel

/-- The same stop, turn by turn. -/
theorem stop_arrives_iff_endless :
    let start := ((Blueprint.trial [] .zero (.ofMillis 500)).running Blueprint.home).tasks
    let drain := Duration.ofSecs 0x8000000000000000
    let turns : List Turn := [.trigger drain, .send, .wake false]
    (asked turns).head? = some drain ∧ (start.run turns).isOver = true ∧
      (start.run turns).state = .running ∧
      Accepted (Blueprint.trial [] .zero (.ofMillis 500)) drain (start.run turns) := by
  intro start drain turns
  exact ⟨rfl, by decide +kernel, by decide +kernel,
    stop_arrives_iff (Blueprint.trial [] .zero (.ofMillis 500)) Blueprint.home turns drain rfl⟩

end Tasks

end EmbedServer.Lifecycle
