/-
What is going on when the backend is closed.

A supervisor that closes the backend has seen the transport end, or has cancelled the calls.  In the
first case nobody waits any longer.  In the second the calls know of it only when they have their next
turn, and until then their computations go on.

  * Whatever the order of turns is, those computations are in progress whose calls were in flight at
    the cancellation and have not had a turn since.
  * If the clock waits for everybody, that is none of them, provided that there is some time between
    the end of the drain timeout and the deadline.  Otherwise the supervisor cancels, gives up on the
    transport and closes the backend without a wait in between, and then it is all of them.

Afterwards no computation begins, in any case.
-/
import EmbedServer.Proofs.Lifecycle.Drain

namespace EmbedServer.Lifecycle.Tasks

variable {σ : Type} {t u : Tasks σ}

/-! ### When an act was done -/

/-- What has been done in a run was done at one of its turns. -/
theorem split_of_done {turns : List Turn} {x : Nat × Act} (h : x ∈ (t.run turns).done) :
    x ∈ t.done ∨ ∃ earlier since, turns = earlier ++ .act :: since ∧
      (t.run earlier).isAbout x.2 = true := by
  induction turns generalizing t with
  | nil => exact Or.inl h
  | cons u rest ih =>
      rcases ih (t := t.step u) h with hdone | ⟨earlier, since, hsplit, habout⟩
      · have hold : (t.step u).done = t.done → x ∈ t.done ∨ ∃ earlier since,
            u :: rest = earlier ++ .act :: since ∧ (t.run earlier).isAbout x.2 = true := by
          intro hsame
          rw [hsame] at hdone
          exact Or.inl hdone
        rcases turn_cases u with ⟨exitFirst, rfl⟩ | rfl | hu
        · refine hold ?_
          rcases wake_cases t exitFirst with heq | ⟨acts, stage, -, -, heq⟩ <;>
            rw [show t.step (.wake exitFirst) = _ from heq]
        · rcases act_cases t with ⟨-, heq⟩ | ⟨a, todo, htodo, heq⟩
          · exact hold (by rw [show t.step .act = t from heq])
          · rw [show t.step .act = _ from heq] at hdone
            rcases List.mem_append.mp hdone with hmem | hmem
            · exact Or.inl hmem
            · refine Or.inr ⟨[], rest, rfl, ?_⟩
              rw [List.mem_singleton.mp hmem]
              simp [run, isAbout, htodo]
        · exact hold (beside_step t hu).done
      · exact Or.inr ⟨u :: earlier, since, by rw [hsplit]; rfl, habout⟩

/-! ### Calls that are cancelled

Once no more calls are taken the computations in progress can only become fewer, by a look at the call or
by the loss of its caller.
-/

private theorem computing_act (t : Tasks σ) : t.act.wire.computing = t.wire.computing := by
  rcases request_cases t .act with ⟨r, hr⟩ | ⟨id, hid⟩ | ⟨id, hid⟩ | hun
  · cases hr
  · cases hid
  · cases hid
  · exact hun.computing

/-- A cancelled call is in progress until it has a turn, or its caller goes away. -/
theorem mem_computing_step (ho : t.Orderly) (hd : t.wire.draining.ready = true)
    (hc : t.wire.core.cancel.ready = true) (v : Turn) (id : Nat) :
    id ∈ (t.step v).wire.computing ↔ id ∈ t.wire.computing ∧ v ≠ .look id ∧ v ≠ .leave id := by
  have hlate := ho.late_of_draining hd
  have hover : (t.step v).wire.pending? id = none → id ∉ (t.step v).wire.computing := by
    intro hnone hid
    obtain ⟨request, p, hp⟩ := Http.Server.mem_computing.mp hid
    rw [hnone] at hp
    cases hp
  refine ⟨?_, ?_⟩
  · intro hid
    cases hpend : t.wire.pending? id with
    | none => exact absurd hid (hover (pending_late hlate v hpend))
    | some x =>
        refine ⟨Http.Server.mem_computing.mpr ⟨x.1, x.2, hpend⟩, ?_, ?_⟩
        · intro hv
          subst hv
          obtain ⟨e, he, hp⟩ := Http.Server.pending?_eq_some hpend
          have hw : x.2.race.winner? t.wire.core.now t.wire.core.cancel.ready =
              some .cancellation := by rw [hc]; rfl
          obtain ⟨c', after, hpoll⟩ := Call.Core.poll_outcome t.wire.core x.2 hw
          refine hover ?_ hid
          rw [look_answered he hp hpoll, Http.Server.pending?_put { t.wire with core := c' } _
            (List.getElem?_eq_some_iff.mp he).1, if_pos rfl]
          rfl
        · intro hv
          subst hv
          exact hover (Http.Server.pending?_abort t.wire id) hid
  · rintro ⟨hid, hlook, hleave⟩
    obtain ⟨e, request, p, he, hp⟩ := Http.Server.waiting_of_mem_computing hid
    exact Http.Server.mem_computing_of_waiting (exchange_step he hlook hleave) hp

theorem mem_computing_run (ho : t.Orderly) (hd : t.wire.draining.ready = true)
    (hc : t.wire.core.cancel.ready = true) (turns : List Turn) (id : Nat) :
    id ∈ (t.run turns).wire.computing ↔
      id ∈ t.wire.computing ∧ .look id ∉ turns ∧ .leave id ∉ turns := by
  induction turns generalizing t with
  | nil => simp [run]
  | cons v rest ih =>
      obtain ⟨hdraining, hcancel⟩ := signals_step t v
      rw [run_cons, ih (ho.step v) (hdraining hd) (hcancel hc), mem_computing_step ho hd hc]
      simp only [List.mem_cons, not_or, ne_eq, @eq_comm _ v]
      constructor
      · rintro ⟨⟨h, hl, hv⟩, hl', hv'⟩
        exact ⟨h, ⟨hl, hl'⟩, hv, hv'⟩
      · rintro ⟨h, ⟨hl, hl'⟩, hv, hv'⟩
        exact ⟨⟨h, hl, hv⟩, hl', hv'⟩

/-! ### Why the backend is closed

There are stops with a cancellation and stops without, and the order of a stop does not tell which.  What
can be told is that a supervisor has an excuse for closing the backend, one of two, from the moment at
which it decides on it.
-/

/-- Whoever is going to close the backend has seen the transport end, or cancels the calls. -/
def Excused (t : Tasks σ) : Prop :=
  .close ∈ t.todo → t.endedAt.isSome = true ∨ .cancel ∈ t.milestones ++ t.todo

theorem Excused.act (h : t.Excused) : t.act.Excused := by
  rcases act_cases t with ⟨-, heq⟩ | ⟨a, rest, htodo, heq⟩
  · rw [heq]
    exact h
  · intro hmem
    rw [heq] at hmem ⊢
    have hmem' : Act.close ∈ t.todo := by
      rw [htodo]
      exact List.mem_cons_of_mem _ hmem
    refine (h hmem').imp id ?_
    intro hcancel
    rw [show Tasks.milestones { t with
          wire := Act.apply t.wire a, todo := rest, done := t.done ++ [(t.now, a)] } =
        t.milestones ++ if a.isMilestone then [a] else [] from milestones_snoc t.done t.now a]
    rw [htodo] at hcancel
    by_cases ha : a = .cancel
    · subst ha
      simp [Act.isMilestone]
    · simp only [List.mem_append, List.mem_cons, Ne.symm ha, false_or] at hcancel ⊢
      exact hcancel.imp Or.inl id

theorem Excused.wake (h : t.Excused) (ho : t.Orderly) (exitFirst : Bool) :
    (t.wake exitFirst).Excused := by
  rcases wake_cases t exitFirst with heq | ⟨acts, stage, htodo, hstep, heq⟩
  · rw [heq]
    exact h
  · intro hmem
    rw [heq] at hmem ⊢
    rcases (Stage.steps_of_step hstep).of_close hmem with ⟨deadline, hs⟩ | ⟨-, hdone | hcancel⟩
    · obtain ⟨cancelled, htold⟩ := ho.told
      rw [htodo, hs, List.filter_nil, List.append_nil] at htold
      refine Or.inr (List.mem_append_left _ ?_)
      show Act.cancel ∈ t.milestones
      rw [htold]
      simp [Stage.told]
    · exact Or.inl hdone
    · exact Or.inr (List.mem_append_right _ hcancel)

theorem Excused.step (h : t.Excused) (ho : t.Orderly) (v : Turn) : (t.step v).Excused := by
  rcases turn_cases v with ⟨exitFirst, rfl⟩ | rfl | hv
  · exact h.wake ho exitFirst
  · exact h.act
  · have hb := beside_step t hv
    have hended : t.endedAt.isSome = true → (t.step v).endedAt.isSome = true := by
      intro hsome
      rcases clock_cases t v with ⟨time, rfl⟩ | rfl | ⟨-, hsame⟩
      · exact hsome
      · obtain ⟨f, hf⟩ := Option.isSome_iff_exists.mp hsome
        simp [Tasks.step, hf]
      · rw [hsame]
        exact hsome
    have hm : (t.step v).milestones = t.milestones := by rw [milestones, milestones, hb.done]
    intro hmem
    rw [hb.todo] at hmem
    rw [hm, hb.todo]
    exact (h hmem).imp hended id

theorem excused_run (b : Blueprint σ) (a : Net.SocketAddress) (turns : List Turn) :
    ((b.running a).tasks.run turns).Excused :=
  (run_keeps (P := fun t : Tasks σ => t.Orderly ∧ t.Excused)
    (fun _ v h => ⟨h.1.step v, h.2.step h.1 v⟩)
    ⟨orderly_run b a [], fun h => absurd h List.not_mem_nil⟩ turns).2

/-- What stands before the first of its kind. -/
theorem mem_of_mem_takeWhile {a x : Act} {xs ys : List Act}
    (h : x ∈ (xs ++ a :: ys).takeWhile (· ≠ a)) : x ∈ xs := by
  induction xs with
  | nil => simp at h
  | cons b rest ih =>
      rw [List.cons_append, List.takeWhile_cons] at h
      split at h
      · rcases List.mem_cons.mp h with hx | hx
        · rw [hx]
          exact List.mem_cons_self
        · exact List.mem_cons_of_mem _ (ih hx)
      · cases h

/-- Calls are no longer taken when they are cancelled or the backend is closed, and they are cancelled
before it is closed if they ever are. -/
theorem script_order {acts : List Act} {cancelled : Bool} (h : acts <+: script cancelled) :
    (.cancel ∈ acts → .drain ∈ acts.takeWhile (· ≠ .cancel)) ∧
      (.close ∈ acts → .drain ∈ acts.takeWhile (· ≠ .close)) ∧
      (.close ∈ acts → .cancel ∈ acts → .cancel ∈ acts.takeWhile (· ≠ .close)) := by
  refine ⟨?_, ?_, ?_⟩
  · refine of_within (P := fun acts => .cancel ∈ acts → .drain ∈ acts.takeWhile (· ≠ .cancel)) ?_ h
    decide
  · refine of_within (P := fun acts => .close ∈ acts → .drain ∈ acts.takeWhile (· ≠ .close)) ?_ h
    decide
  · refine of_within (P := fun acts => .close ∈ acts → .cancel ∈ acts →
      .cancel ∈ acts.takeWhile (· ≠ .close)) ?_ h
    decide

/-- What has been done, what is done next, and what is left to do. -/
theorem Orderly.about (ho : t.Orderly) {a : Act} (ha : a.isMilestone = true)
    (h : t.isAbout a = true) : ∃ rest cancelled c, t.todo = a :: rest ∧
      t.stage.told cancelled = t.milestones ++ a :: rest.filter Act.isMilestone ∧
      t.milestones ++ a :: rest.filter Act.isMilestone <+: script c := by
  obtain ⟨rest, htodo⟩ := List.head?_eq_some_iff.mp (of_decide_eq_true h)
  obtain ⟨cancelled, htold⟩ := ho.told
  obtain ⟨c, hwithin⟩ := told_within cancelled t.stage
  rw [htodo, List.filter_cons_of_pos ha] at htold
  rw [← htold] at hwithin
  exact ⟨rest, cancelled, c, htodo, htold.symm, hwithin⟩

theorem Orderly.draining_of_mem (ho : t.Orderly) (h : .drain ∈ t.milestones) :
    t.wire.draining.ready = true := by
  show t.wire.draining.fired = true
  rw [ho.draining, List.contains_iff_mem]
  exact h

theorem Orderly.of_cancel (ho : t.Orderly) (h : t.isAbout .cancel = true) :
    t.wire.draining.ready = true := by
  obtain ⟨rest, cancelled, c, -, -, hwithin⟩ := ho.about rfl h
  exact ho.draining_of_mem (mem_of_mem_takeWhile ((script_order hwithin).1 (by simp)))

/-- Where the supervisor is when it is about to close the backend, and what it has done by then. -/
theorem Orderly.of_close (ho : t.Orderly) (h : t.isAbout .close = true) :
    t.stage.left ≤ 1 ∧ t.wire.draining.ready = true ∧
      (t.Excused → t.endedAt = none → .cancel ∈ t.milestones) := by
  obtain ⟨rest, cancelled, c, htodo, htold, hwithin⟩ := ho.about rfl h
  obtain ⟨-, hdrain, hcancel⟩ := script_order hwithin
  refine ⟨?_, ho.draining_of_mem (mem_of_mem_takeWhile (hdrain (by simp))),
    fun hexcused hopen => mem_of_mem_takeWhile (hcancel (by simp) ?_)⟩
  · have hmem : Act.close ∈ t.stage.told cancelled := by
      rw [htold]
      simp
    cases hs : t.stage <;> rw [hs] at hmem <;>
      simp [Stage.told, opening, cancellation, Stage.left] at hmem ⊢
  · rcases hexcused (by rw [htodo]; exact List.mem_cons_self) with hended | hmem
    · rw [hopen] at hended
      cases hended
    · rw [htodo] at hmem
      simp only [List.mem_append, List.mem_cons, reduceCtorEq, false_or] at hmem ⊢
      exact hmem.imp id fun hrest => List.mem_filter.mpr ⟨hrest, rfl⟩

/-! ### No time between the end of the drain timeout and the deadline

Then the supervisor cancels, gives up on the transport and closes the backend in one go, and no call has a
turn meanwhile.  `Hasty` goes along with such a stop from its beginning.
-/

/-- The supervisor waits for the transport once only, and until the backend is closed everybody waits
who outlasts the drain timeout. -/
structure Hasty (t : Tasks σ) (limit : Nat) (u : Tasks σ) : Prop where
  once : ∀ deadline, u.stage ≠ .cancelling deadline
  waits : .close ∈ u.todo → ∀ id ∈ t.endingAfter limit, id ∈ u.wire.computing

variable {limit : Nat}

theorem Hasty.wake (h : Hasty t limit u) (hu : Under t limit limit u) (exitFirst : Bool) :
    Hasty t limit (u.wake exitFirst) := by
  rcases wake_cases u exitFirst with heq | ⟨acts, stage, htodo, hstep, heq⟩
  · rw [heq]
    exact h
  · have hsteps := Stage.steps_of_step hstep
    rw [heq]
    refine ⟨?_, ?_⟩
    · intro deadline hs
      simp only at hs
      rw [hs] at hsteps
      obtain ⟨timeout, limit', hstage, hge, hlt⟩ := hsteps.to_cancelling
      have hpaced := hu.pace.stage
      rw [hstage] at hpaced
      obtain ⟨hlimit, hdeadline, -⟩ := hpaced
      have hge' : limit' ≤ u.now := hge
      have hlt' : u.now < deadline := hlt
      omega
    · intro hmem id hid
      rcases hsteps.of_close hmem with ⟨deadline, hs⟩ | ⟨hs | ⟨timeout, limit', deadline, hs⟩, -⟩
      · exact absurd hs (h.once deadline)
      · exact absurd hs hu.pace.begun.1
      · obtain ⟨e, request, p, he, hp, hlater⟩ := mem_endingAfter.mp hid
        cases hu.calls id e request p he hp with
        | waits he' hnone hown hle =>
            exact Http.Server.mem_computing_of_waiting he' hp
        | ended hle hgot => omega
        | cancelled hge hfired hgot =>
            -- Nothing is cancelled while the supervisor waits for the first time.
            have hpaced := hu.pace.stage
            rw [hs] at hpaced
            have hmark := (hu.marked hfired).1
            rw [hpaced.2.2.1] at hmark
            cases hmark

theorem Hasty.step (h : Hasty t limit u) (hu : Under t limit limit u) {v : Turn}
    (hallowed : u.isPrompt v = true) : Hasty t limit (u.step v) := by
  rcases turn_cases v with ⟨exitFirst, rfl⟩ | rfl | hv
  · exact h.wake hu exitFirst
  · show Hasty t limit u.act
    have hcomputing := computing_act u
    rcases act_cases u with ⟨-, heq⟩ | ⟨a, rest, htodo, heq⟩
    · rw [heq]
      exact h
    · refine ⟨by rw [heq]; exact h.once, ?_⟩
      intro hmem
      rw [heq] at hmem
      rw [hcomputing]
      exact h.waits (by rw [htodo]; exact List.mem_cons_of_mem _ hmem)
  · have hb := beside_step u hv
    refine ⟨by rw [hb.stage]; exact h.once, ?_⟩
    intro hmem
    have hnil : u.todo = [] := Decidable.byContradiction fun hne =>
      absurd (act_of_busy hallowed hne) hv.2
    rw [hb.todo, hnil] at hmem
    cases hmem

private theorem hasty_start {exitFirst : Bool} (hserving : t.stage = .serving) (hidle : t.planned = []) :
    Hasty t limit (t.step (.wake exitFirst)) := by
  show Hasty t limit (t.wake exitFirst)
  rcases wake_cases t exitFirst with heq | ⟨acts, stage, -, hstep, heq⟩ <;> rw [heq]
  · have hnil : t.todo = [] := by
      simp only [planned, List.append_eq_nil_iff, List.map_eq_nil_iff] at hidle
      exact hidle.2
    constructor
    · intro deadline hs
      rw [hserving] at hs
      cases hs
    · intro hmem
      rw [hnil] at hmem
      cases hmem
  · have hsteps := Stage.steps_of_step hstep
    refine ⟨?_, fun hmem id hid => (List.mem_filter.mp hid).1⟩
    intro deadline hs
    simp only at hs
    rw [hs] at hsteps
    obtain ⟨timeout, limit', hstage, -⟩ := hsteps.to_cancelling
    rw [hserving] at hstage
    cases hstage

/-- A run in which a stop is taken up after some turns, and the clock waits for everybody from then
on. -/
structure Taken (start : Tasks σ) (before : List Turn) (exitFirst : Bool) (cue : Cue)
    (after : List Turn) : Prop where
  serving : (start.run before).stage = .serving
  cued : ((start.run before).sight exitFirst).cue = some cue
  inTime : (start.run before).now + cue.drain.nanos + start.grace.nanos < endOfTime
  prompt : follows isPrompt (start.run (before ++ [.wake exitFirst])) after = true

theorem hasty_run (b : Blueprint σ) (a : Net.SocketAddress) (before after : List Turn)
    (exitFirst : Bool) (cue : Cue) (hbefore : follows isServed (b.running a).tasks before = true)
    (htaken : Taken (b.running a).tasks before exitFirst cue after)
    (hgrace : b.graceMargin.nanos = 0) :
    let limit := ((b.running a).tasks.run before).now + cue.drain.nanos
    Under ((b.running a).tasks.run before) limit limit
        ((b.running a).tasks.run (before ++ .wake exitFirst :: after)) ∧
      Hasty ((b.running a).tasks.run before) limit
        ((b.running a).tasks.run (before ++ .wake exitFirst :: after)) := by
  intro limit
  have hunder := under_run b a before [] exitFirst cue hbefore htaken.serving htaken.cued
    htaken.inTime rfl
  rw [hgrace, Nat.add_zero] at hunder
  have hstart : Hasty ((b.running a).tasks.run before) limit
      (((b.running a).tasks.run before).step (.wake exitFirst)) :=
    hasty_start htaken.serving (idle_run b a before htaken.serving)
  rw [run_split]
  refine follows_keeps (P := fun u => Under ((b.running a).tasks.run before) limit limit u ∧
    Hasty ((b.running a).tasks.run before) limit u)
    (fun _ _ h hv => ⟨h.1.step hv, h.2.step h.1 hv⟩) ⟨hunder, ?_⟩ htaken.prompt
  rw [run_append]
  exact hstart

/-! ### The backend and the calls -/

/-- What is true when the next thing that the supervisor does is to close the backend. -/
structure Closing (start : Tasks σ) (turns : List Turn) : Prop where
  /-- A transport that has ended has left no computation behind. -/
  ended : (start.run turns).endedAt.isSome = true → (start.run turns).wire.computing = []
  /-- Otherwise the calls were cancelled, and those are in progress that have had no turn since. -/
  aborted : (start.run turns).endedAt = none → ∃ earlier since, turns = earlier ++ .act :: since ∧
    (start.run earlier).isAbout .cancel = true ∧
    ∀ id, id ∈ (start.run turns).wire.computing ↔
      id ∈ (start.run earlier).wire.computing ∧ .look id ∉ since ∧ .leave id ∉ since
  /-- No computation begins any more. -/
  quiet : ∀ more v, ((start.run turns).run more).begins v = false
  /-- If the clock waits for everybody, no computation is in progress. -/
  idle : ∀ before exitFirst cue after, turns = before ++ .wake exitFirst :: after →
    Taken start before exitFirst cue after → 0 < start.grace.nanos →
    (start.run turns).wire.computing = []
  /-- Without a grace margin, those are in progress that outlast the drain timeout. -/
  hasty : ∀ before exitFirst cue after, turns = before ++ .wake exitFirst :: after →
    Taken start before exitFirst cue after → start.grace.nanos = 0 →
    (start.run before).endingAfter ((start.run before).now + cue.drain.nanos) ⊆
        (start.run turns).wire.computing ∧
      (start.run turns).wire.computing ⊆
        (start.run before).endingFrom ((start.run before).now + cue.drain.nanos)

/-- **Once the backend is about to be closed no computation begins**, and those in progress are those
whose calls do not know yet that they are cancelled: none, if there is a grace margin and the clock
waits for everybody. -/
theorem backend_closed (b : Blueprint σ) (a : Net.SocketAddress) (turns : List Turn)
    (hserved : follows isServed (b.running a).tasks turns = true)
    (hclose : ((b.running a).tasks.run turns).isAbout .close = true) :
    Closing (b.running a).tasks turns := by
  have ho := orderly_run b a turns
  obtain ⟨hleft, hdraining, hcancelled⟩ := ho.of_close hclose
  have hended := served_run b a hserved
  have hbefore : ∀ before after, turns = before ++ after →
      follows isServed (b.running a).tasks before = true := by
    intro before after hsplit
    rw [hsplit] at hserved
    exact (follows_append.mp hserved).1
  refine ⟨fun h => (hended h).2, ?_, ?_, ?_, ?_⟩
  · intro hopen
    obtain ⟨moment, hdone⟩ := (mem_milestones rfl).mp (hcancelled (excused_run b a turns) hopen)
    rcases split_of_done hdone with hold | ⟨earlier, since, hsplit, habout⟩
    · cases hold
    · refine ⟨earlier, since, hsplit, habout, ?_⟩
      intro id
      have hprior := orderly_run b a earlier
      have hdrain := hprior.of_cancel habout
      obtain ⟨rest, htodo⟩ := List.head?_eq_some_iff.mp (of_decide_eq_true habout)
      have hfired : (((b.running a).tasks.run earlier).step .act).wire.core.cancel.ready = true := by
        simp only [step, Tasks.act, htodo]
        rfl
      have hrun := mem_computing_run (hprior.step .act) ((signals_step _ _).1 hdrain) hfired since id
      rw [hsplit, run_append, run_cons, hrun, show (Tasks.step _ .act).wire.computing = _ from
        computing_act ((b.running a).tasks.run earlier)]
  · intro more v
    have hready : ((b.running a).tasks.run (turns ++ more)).wire.draining.ready = true := by
      rw [run_append]
      exact run_keeps (P := fun t : Tasks σ => t.wire.draining.ready = true)
        (fun t u => (signals_step t u).1) hdraining more
    have hlate := (orderly_run b a (turns ++ more)).late_of_draining hready
    rw [run_append] at hlate
    cases v with
    | receive r => exact Http.Server.begins_late hlate r
    | _ => rfl
  · intro before exitFirst cue after hsplit htaken hgrace
    have hunder := under_run b a before after exitFirst cue (hbefore _ _ hsplit) htaken.serving
      htaken.cued htaken.inTime htaken.prompt
    rw [← hsplit] at hunder
    exact hunder.idle_of_gone (Nat.lt_add_of_pos_right hgrace) (hunder.pace.stage.gone hleft)
  · intro before exitFirst cue after hsplit htaken hgrace
    obtain ⟨rest, htodo⟩ := List.head?_eq_some_iff.mp (of_decide_eq_true hclose)
    obtain ⟨hunder, hhasty⟩ := hasty_run b a before after exitFirst cue (hbefore _ _ hsplit) htaken
      hgrace
    rw [← hsplit] at hunder hhasty
    refine ⟨fun id hid => hhasty.waits (by rw [htodo]; exact List.mem_cons_self) id hid,
      ?_⟩
    intro id hid
    obtain ⟨e, request, p, he, hp, -, hown, -⟩ := hunder.waits_of_mem hid
    refine mem_endingFrom he hp ?_
    rcases hunder.pace.stage.gone hleft with hsome | hlate
    · rw [(hended hsome).2] at hid
      cases hid
    · exact Nat.le_trans hlate hown

/-- A call that outlasts the drain timeout is cancelled and hears of it before the backend is
closed. -/
theorem backend_closed_after_call :
    let start := ((Blueprint.trial [] (.ofMillis 5000) (.ofMillis 500)).running Blueprint.home).tasks
    let turns : List Turn := [.receive Blueprint.errand, .trigger (.ofMillis 60), .send, .wake false,
      .act, .act, .act, .act, .pass (.ofMillis 60), .wake false, .act, .act, .look 0, .finish,
      .wake false, .act]
    follows isServed start turns = true ∧ (start.run turns).isAbout .close = true ∧
      (start.run turns).endedAt.isSome = true ∧ Closing start turns := by
  intro start turns
  have hserved : follows isServed start turns = true := by decide +kernel
  have hclose : (start.run turns).isAbout .close = true := by decide +kernel
  exact ⟨hserved, hclose, by decide +kernel,
    backend_closed (Blueprint.trial [] (.ofMillis 5000) (.ofMillis 500)) Blueprint.home turns hserved
      hclose⟩

/-- **Without a grace margin the backend is closed under a call**, although nobody is late. -/
theorem backend_closed_under_call :
    let start := ((Blueprint.trial [] (.ofMillis 5000) .zero).running Blueprint.home).tasks
    let before : List Turn := [.receive Blueprint.errand, .trigger (.ofMillis 60), .send]
    let after : List Turn := [.act, .act, .act, .act, .pass (.ofMillis 60), .wake false, .act, .act,
      .act, .act]
    let last := start.run (before ++ .wake false :: after)
    follows isServed start before = true ∧
      Taken start before false (.request (.ofMillis 60)) after ∧
      last.isAbout .close = true ∧ last.wire.computing = [0] := by
  intro start before after last
  refine ⟨by decide +kernel, ⟨?_, ?_, ?_, ?_⟩, ?_, ?_⟩ <;> decide +kernel

end EmbedServer.Lifecycle.Tasks
