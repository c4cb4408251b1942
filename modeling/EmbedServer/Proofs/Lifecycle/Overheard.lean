/-
A started server whose backend rings when it is closed.

Two servers are started from one blueprint, but the second one's backend rings.  As long as nobody closes
the backend they go the same way and log the same.  When the supervisor closes it the second one logs the
bell besides, and that is all: `overheard_run` says of every run that the second server is the first one
with as many bells in the log as the backend has been closed.

What has been logged stays in the log, so an event that the supervisor has logged is found there ever after
(`exceed_logged`).
-/
import EmbedServer.Proofs.Http.Overheard
import EmbedServer.Proofs.Lifecycle.Order

namespace EmbedServer.Lifecycle

variable {σ : Type} {bell : Log.Event} {past past' : List Log.Event}

/-! ### Acts

Closing the backend is the one act that rings.
-/

namespace Act

variable {s s' : Http.Server σ}

/-- An act other than the closing is done alike. -/
theorem echoes_apply (h : s.Echoes bell past past' s') {a : Act} (ha : a ≠ .close) :
    (apply s a).Echoes bell past past' (apply s' a) := by
  cases a with
  | advance next =>
      refine h.changed ?_
      show (advanceCore s.core next).Echoes bell past past' (advanceCore s'.core next)
      obtain ⟨log, hs⟩ := h.exists_rung
      have hstate : s'.core.state = s.core.state := by rw [hs]; rfl
      unfold advanceCore
      rw [hstate]
      split
      · exact (h.core.replaced (f := fun c => { c with state := next }) (fun _ => rfl)
          (fun _ _ => rfl)).logAll _
      · exact h.core
  | publish key status => exact h.changed (h.core.publish key status)
  | note e => exact h.changed (h.core.logAll [e])
  | freeze =>
      exact h.changed (h.core.replaced (f := fun c => { c with health := c.health.freeze })
        (fun _ => rfl) (fun _ _ => rfl))
  | drain =>
      refine ⟨h.core, ?_⟩
      rw [h.rest]
      rfl
  | exceed inFlight timeout => exact h.changed (h.core.logAll [exceedEvent inFlight timeout])
  | cancel =>
      exact h.changed (h.core.replaced (f := fun c => { c with cancel := c.cancel.fire.2 })
        (fun _ => rfl) (fun _ _ => rfl))
  | abort => exact h.changed h.core
  | close => exact absurd rfl ha
  | closed =>
      exact h.changed (h.core.replaced
        (f := fun c => { c with compute := (c.backend.close c.compute).settle c.compute })
        (fun _ => rfl) (fun _ _ => rfl))

private theorem echoes_applyAll (h : s.Echoes bell past past' s') {acts : List Act} (hacts : .close ∉ acts) :
    (applyAll s acts).Echoes bell past past' (applyAll s' acts) := by
  induction acts generalizing s s' with
  | nil => exact h
  | cons a rest ih =>
      have ha : a ≠ .close := Ne.symm (List.ne_of_not_mem_cons hacts)
      exact ih (echoes_apply h ha) (List.not_mem_of_not_mem_cons hacts)

end Act

/-! ### Starts -/

namespace Blueprint

/-- The same server with a bell on its backend. -/
def ringing (b : Blueprint σ) (bell : Log.Event) : Blueprint σ :=
  { b with core := b.core.rung bell b.core.log }

/-- A start does not close the backend. -/
theorem echoes_running (b : Blueprint σ) (a : Net.SocketAddress) :
    (b.running a).wire.Echoes bell b.core.log b.core.log ((b.ringing bell).running a).wire := by
  refine Act.echoes_applyAll ?_ ?_
  · exact ⟨Call.Core.echoes_rung { b.core with state := .created, cancel := .new } bell b.core.log, rfl⟩
  · intro hmem
    rcases startActs_cases hmem with ⟨next, heq⟩ | ⟨e, heq⟩ | ⟨key, status, heq⟩ <;> cases heq

end Blueprint

/-! ### Turns

The two servers part in one turn only, the act that closes the backend.  Everything else is the same turn
of both, and logs the same.
-/

namespace Tasks

variable {t t' : Tasks σ}

/-- The second server is the first one with a bell, and since their logs were these they have logged the
same. -/
structure Echoes (bell : Log.Event) (past past' : List Log.Event) (t t' : Tasks σ) : Prop where
  wire : t.wire.Echoes bell past past' t'.wire
  rest : t' = { t with wire := t'.wire }

/-- The same server with a bell on its backend, and with this log. -/
def rung (t : Tasks σ) (bell : Log.Event) (log : List Log.Event) : Tasks σ :=
  { t with wire := { t.wire with core := t.wire.core.rung bell log } }

theorem echoes_rung (t : Tasks σ) (bell : Log.Event) (log : List Log.Event) :
    t.Echoes bell t.wire.core.log log (t.rung bell log) :=
  ⟨⟨Call.Core.echoes_rung t.wire.core bell log, rfl⟩, rfl⟩

theorem Echoes.exists_rung (h : t.Echoes bell past past' t') : ∃ log, t' = t.rung bell log := by
  obtain ⟨log, hwire⟩ := h.wire.exists_rung
  exact ⟨log, h.rest.trans (by rw [hwire]; rfl)⟩

/-- The wire and the record of answers alone are changed. -/
theorem Echoes.wired (h : t.Echoes bell past past' t') {s s' : Http.Server σ}
    (hs : s.Echoes bell past past' s') (answers : List Answered) :
    Echoes bell past past' { t with wire := s, answers } { t' with wire := s', answers } where
  wire := hs
  rest := by rw [h.rest]

theorem Echoes.note (h : t.Echoes bell past past' t') (e : Log.Event) :
    Echoes bell past past' { t with toRunning := t.toRunning.note e }
      { t' with toRunning := t'.toRunning.note e } where
  wire := Act.echoes_apply h.wire (a := .note e) nofun
  rest := by rw [h.rest]; rfl

theorem Echoes.now_eq (h : t.Echoes bell past past' t') : t'.now = t.now := by
  obtain ⟨log, rfl⟩ := h.exists_rung
  rfl

/-- A wake asks how long the backend takes to let go, but not what it logs then. -/
theorem Echoes.wake (h : t.Echoes bell past past' t') (exitFirst : Bool) :
    (t.wake exitFirst).Echoes bell past past' (t'.wake exitFirst) := by
  have hsight : t'.sight exitFirst = t.sight exitFirst := by
    obtain ⟨log, rfl⟩ := h.exists_rung
    rfl
  have htodo' : t'.todo = t.todo := by rw [h.rest]
  have hstep' : t'.stage.step t'.grace (t'.sight exitFirst) =
      t.stage.step t.grace (t.sight exitFirst) := by rw [hsight, h.rest]
  cases htodo : t.todo with
  | cons a rest =>
      simp only [Tasks.wake, htodo', htodo]
      exact h
  | nil =>
      cases hstep : t.stage.step t.grace (t.sight exitFirst) with
      | none =>
          simp only [Tasks.wake, htodo', htodo, hstep', hstep]
          exact h
      | some next =>
          rw [wake_of_step htodo hstep, wake_of_step (htodo'.trans htodo) (hstep'.trans hstep), hsight,
            h.now_eq]
          exact ⟨h.wire, by rw [h.rest]⟩

theorem Echoes.act (h : t.Echoes bell past past' t') (hnext : t.isAbout .close = false) :
    t.act.Echoes bell past past' t'.act := by
  have htodo' : t'.todo = t.todo := by rw [h.rest]
  have hdone' : t'.done = t.done := by rw [h.rest]
  cases htodo : t.todo with
  | nil =>
      simp only [Tasks.act, htodo', htodo]
      exact h
  | cons a rest =>
      have ha : a ≠ .close := fun heq => by simp [isAbout, htodo, heq] at hnext
      simp only [Tasks.act, htodo', htodo, hdone', h.now_eq]
      exact ⟨Act.echoes_apply h.wire ha, by rw [h.rest]⟩

theorem Echoes.ask (h : t.Echoes bell past past' t') (drain : Duration) :
    (t.ask drain).Echoes bell past past' (t'.ask drain) := by
  have hrequested : t'.requested = t.requested := by rw [h.rest]
  have houtcomes : t'.outcomes = t.outcomes := by rw [h.rest]
  cases hreq : t.requested with
  | true =>
      simp only [Tasks.ask, Running.claim, hrequested, hreq, if_true, houtcomes]
      exact ⟨Act.echoes_apply h.wire (a := .note _) (by simp), by rw [h.rest]; rfl⟩
  | false =>
      simp only [Tasks.ask, Running.claim, hrequested, hreq, Bool.false_eq_true, if_false, houtcomes]
      exact ⟨h.wire, by rw [h.rest]⟩

theorem Echoes.send (h : t.Echoes bell past past' t') :
    t.send.Echoes bell past past' t'.send := by
  have hsending : t'.sending = t.sending := by rw [h.rest]
  have htodo : t'.todo = t.todo := by rw [h.rest]
  have hstage : t'.stage = t.stage := by rw [h.rest]
  unfold Tasks.send
  rw [hsending, htodo]
  split
  · exact h
  · rename_i drain hdrain hidle
    unfold Running.hand
    rw [hstage]
    split
    · exact ⟨h.wire, by rw [h.rest]⟩
    · exact ⟨Act.echoes_apply h.wire (a := .note _) nofun, by rw [h.rest]; rfl⟩
    · exact ⟨Act.echoes_apply h.wire (a := .note _) nofun, by rw [h.rest]; rfl⟩
    all_goals exact ⟨h.wire, by rw [h.rest]⟩
  · exact ⟨h.wire, by rw [h.rest]⟩

/-- A turn in which the backend is not closed goes alike. -/
theorem Echoes.step (h : t.Echoes bell past past' t') (u : Turn)
    (hu : u = .act → t.isAbout .close = false) : (t.step u).Echoes bell past past' (t'.step u) := by
  have hanswer : ∀ id o, t'.answer id o = t.answer id o := by
    intro id o
    rw [Tasks.answer, Tasks.answer, h.now_eq, h.rest]
  cases u with
  | receive r =>
      have hnumber : t'.wire.exchanges.length = t.wire.exchanges.length := by rw [h.wire.rest]
      simp only [Tasks.step, hanswer, h.wire.outcomeOf?, hnumber]
      exact h.wired (h.wire.receive r) _
  | look id =>
      simp only [Tasks.step, hanswer, h.wire.outcomeAt?]
      exact h.wired (h.wire.look id) _
  | leave id => exact ⟨h.wire.abort id, by rw [h.rest]; rfl⟩
  | pass time =>
      refine ⟨h.wire.changed (h.wire.core.replaced
        (f := fun c => { c with now := c.now + time.nanos }) (fun _ => rfl) (fun _ _ => rfl)), ?_⟩
      rw [h.rest]
      rfl
  | publish key status =>
      exact ⟨h.wire.changed (h.wire.core.publish key status), by rw [h.rest]; rfl⟩
  | publishAll status =>
      refine ⟨h.wire.changed (h.wire.core.replaced
        (f := fun c => { c with health := c.health.setAll status }) (fun _ => rfl)
          (fun _ _ => rfl)), ?_⟩
      rw [h.rest]
      rfl
  | note e => exact h.note e
  | trigger drain => exact h.ask drain
  | send => exact h.send
  | retain => exact ⟨h.wire, by rw [h.rest]; rfl⟩
  | release => exact ⟨h.wire, by rw [h.rest]; rfl⟩
  | finish => exact ⟨h.wire, by simp only [Tasks.step, h.now_eq]; rw [h.rest]⟩
  | wake exitFirst => exact h.wake exitFirst
  | act => exact h.act (hu rfl)

/-! ### Runs

What has been logged before a turn is there after it, and the bells are counted by what the supervisor has
done.
-/

/-- The second server is the first one with a bell, and has as many bells in its log as its backend has
been closed. -/
structure Overheard (bell : Log.Event) (t t' : Tasks σ) : Prop where
  same : ∃ log, t' = t.rung bell log
  bells : t'.wire.core.log.Perm
    (t.wire.core.log ++ List.replicate (t.milestones.count .close) bell)

theorem Overheard.echoes (h : Overheard bell t t') :
    t.Echoes bell t.wire.core.log t'.wire.core.log t' := by
  obtain ⟨log, rfl⟩ := h.same
  exact t.echoes_rung bell log

/-- What both have logged, and what the second one has logged besides. -/
theorem perm_heard {logged heard log added more rest : List Log.Event} (h : log.Perm (logged ++ heard))
    (hmore : more.Perm (added ++ rest)) : (log ++ more).Perm (logged ++ added ++ (heard ++ rest)) := by
  refine (h.append hmore).trans ?_
  rw [List.append_assoc, List.append_assoc, ← List.append_assoc heard, ← List.append_assoc added]
  exact (List.perm_append_comm.append_right rest).append_left logged

/-- The backend is closed. -/
theorem Overheard.close (h : Overheard bell t t') (hnext : t.isAbout .close = true) :
    Overheard bell t.act t'.act := by
  obtain ⟨rest, htodo⟩ := List.head?_eq_some_iff.mp (of_decide_eq_true hnext)
  obtain ⟨log, rfl⟩ := h.same
  have hm : Tasks.milestones { t with
        wire := Act.apply t.wire .close, todo := rest, done := t.done ++ [(t.now, .close)] } =
      t.milestones ++ [.close] := milestones_snoc t.done t.now .close
  have htodo' : (t.rung bell log).todo = .close :: rest := htodo
  simp only [Tasks.act, htodo, htodo']
  refine ⟨⟨_, rfl⟩, ?_⟩
  rw [hm, List.count_append, List.count_singleton_self, List.replicate_succ']
  let closing := (t.wire.core.backend.close t.wire.core.compute).events
  have hlast : ([bell] ++ closing).Perm (closing ++ [bell]) := List.perm_append_comm
  exact perm_heard h.bells hlast

/-- Only the closing of the backend is one more. -/
theorem count_close_step (u : Turn) (hu : u = .act → t.isAbout .close = false) :
    (t.step u).milestones.count .close = t.milestones.count .close := by
  rcases turn_cases u with ⟨exitFirst, rfl⟩ | rfl | hother
  · show (t.wake exitFirst).milestones.count .close = _
    rcases wake_cases t exitFirst with heq | ⟨acts, stage, -, -, heq⟩
    · rw [heq]
    · rw [heq]
      rfl
  · show t.act.milestones.count .close = _
    rcases act_cases t with ⟨-, heq⟩ | ⟨a, rest, htodo, heq⟩
    · rw [heq]
    · have ha : a ≠ .close := fun hclose => by simp [isAbout, htodo, hclose] at hu
      rw [heq, show Tasks.milestones { t with
            wire := Act.apply t.wire a, todo := rest, done := t.done ++ [(t.now, a)] } =
          t.milestones ++ if a.isMilestone then [a] else [] from milestones_snoc t.done t.now a,
        List.count_append]
      split <;> simp [ha]
  · rw [milestones, milestones, (beside_step t hother).done]

theorem Overheard.step (h : Overheard bell t t') (u : Turn) :
    Overheard bell (t.step u) (t'.step u) := by
  by_cases hclose : u = .act ∧ t.isAbout .close = true
  · obtain ⟨rfl, hnext⟩ := hclose
    exact h.close hnext
  · have hu : u = .act → t.isAbout .close = false := fun hact =>
      Bool.eq_false_iff.mpr fun hnext => hclose ⟨hact, hnext⟩
    have hechoes := h.echoes.step u hu
    refine ⟨hechoes.exists_rung, ?_⟩
    obtain ⟨added, hlog, hcore⟩ := hechoes.wire.core
    rw [count_close_step u hu, hcore, hlog]
    show (t'.wire.core.log ++ added).Perm _
    have hbells := perm_heard h.bells (List.Perm.refl (added ++ []))
    rwa [List.append_nil, List.append_nil] at hbells

theorem Overheard.run (h : Overheard bell t t') (turns : List Turn) :
    Overheard bell (t.run turns) (t'.run turns) := by
  induction turns generalizing t t' with
  | nil => exact h
  | cons u rest ih => exact ih (h.step u)

/-- **The bell of a backend rings once for every time the supervisor closes it**, and the server goes the
same way without it. -/
theorem overheard_run (b : Blueprint σ) (bell : Log.Event) (a : Net.SocketAddress) (turns : List Turn) :
    Overheard bell ((b.running a).tasks.run turns) (((b.ringing bell).running a).tasks.run turns) := by
  refine Overheard.run ?_ turns
  have hstart : (b.running a).tasks.Echoes bell b.core.log b.core.log
      ((b.ringing bell).running a).tasks := ⟨b.echoes_running a, rfl⟩
  refine ⟨hstart.exists_rung, ?_⟩
  obtain ⟨added, hlog, hcore⟩ := hstart.wire.core
  rw [hcore, hlog]
  show (b.core.log ++ added).Perm (b.core.log ++ added ++ [])
  rw [List.append_nil]

/-! ### What has been logged

A turn adds to the log and takes nothing from it, so an event is there from the act on that logs it.
-/

theorem log_step (t : Tasks σ) (u : Turn) : t.wire.core.log <+: (t.step u).wire.core.log := by
  by_cases hclose : u = .act ∧ t.isAbout .close = true
  · obtain ⟨rfl, hnext⟩ := hclose
    obtain ⟨rest, htodo⟩ := List.head?_eq_some_iff.mp (of_decide_eq_true hnext)
    simp only [step, Tasks.act, htodo]
    exact List.prefix_append _ _
  · have hu : u = .act → t.isAbout .close = false := fun hact =>
      Bool.eq_false_iff.mpr fun hnext => hclose ⟨hact, hnext⟩
    -- Any bell will do.
    obtain ⟨added, hlog, -⟩ := ((t.echoes_rung (Act.stateEvent .created .created) []).step u hu).wire.core
    exact ⟨added, hlog.symm⟩

/-- Whoever has warned of the end of the drain timeout has logged it. -/
theorem exceed_logged (b : Blueprint σ) (a : Net.SocketAddress) (turns : List Turn) {moment n : Nat}
    {timeout : Duration} (h : (moment, .exceed n timeout) ∈ ((b.running a).tasks.run turns).done) :
    Act.exceedEvent n timeout ∈ ((b.running a).tasks.run turns).wire.core.log := by
  refine run_keeps (P := fun t : Tasks σ => ∀ moment n timeout,
    (moment, Act.exceed n timeout) ∈ t.done → Act.exceedEvent n timeout ∈ t.wire.core.log)
    ?_ (fun _ _ _ hmem => absurd hmem List.not_mem_nil) turns moment n timeout h
  intro t u ih moment n timeout hmem
  rcases turn_cases u with ⟨exitFirst, rfl⟩ | rfl | hu
  · refine (log_step t _).subset (ih moment n timeout ?_)
    rcases wake_cases t exitFirst with heq | ⟨acts, stage, -, -, heq⟩ <;>
      rwa [show t.step (.wake exitFirst) = _ from heq] at hmem
  · rcases act_cases t with ⟨-, heq⟩ | ⟨a, rest, -, heq⟩
    · rw [show t.step .act = t from heq] at hmem ⊢
      exact ih moment n timeout hmem
    · rw [show t.step .act = _ from heq] at hmem
      rcases List.mem_append.mp hmem with hold | hnew
      · exact (log_step t .act).subset (ih moment n timeout hold)
      · obtain ⟨-, rfl⟩ := Prod.mk.inj (List.mem_singleton.mp hnew)
        rw [show t.step .act = _ from heq]
        exact List.mem_append_right _ List.mem_cons_self
  · refine (log_step t u).subset (ih moment n timeout ?_)
    rwa [(beside_step t hu).done] at hmem

end Tasks

end EmbedServer.Lifecycle
