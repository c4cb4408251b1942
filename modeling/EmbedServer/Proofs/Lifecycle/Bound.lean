/-
A stop is over by its deadline.

The supervisor keeps pace (`Proofs/Lifecycle/Pace`), so what it has done of a stop lies within the waits of
its stages.  The backend is closed at the very moment at which the transport is gone, and the stop is over
when the backend has let go, or at the deadline.
-/
import EmbedServer.Proofs.Lifecycle.Pace

namespace EmbedServer.Lifecycle

variable {σ : Type} {since limit deadline : Nat}

namespace Tasks

/-! ### What has been done

Keeping pace is about what is planned, and the bound is about what has been done.  The two agree on every
moment that is past, and on the present one when nothing is left to do.
-/

private theorem done_of_planned {t : Tasks σ} {x : Nat × Act} (h : x ∈ t.planned)
    (hpast : x.1 < t.now ∨ t.todo = []) : x ∈ t.done := by
  rcases List.mem_append.mp h with hdone | hsoon
  · exact hdone
  · obtain ⟨a, ha, rfl⟩ := List.mem_map.mp hsoon
    rcases hpast with hlt | hnil
    · exact absurd hlt (Nat.lt_irrefl _)
    · rw [hnil] at ha
      cases ha

theorem mem_milestones {t : Tasks σ} {a : Act} (ha : a.isMilestone = true) :
    a ∈ t.milestones ↔ ∃ m, (m, a) ∈ t.done := by
  simp [milestones, List.mem_filter, ha]

theorem mem_marks {t : Tasks σ} {m : Nat} {a : Act} (ha : a.isMark = true) (h : (m, a) ∈ t.done) :
    (m, a) ∈ t.marks :=
  List.mem_filter.mpr ⟨List.mem_append_left _ h, ha⟩

/-- What is planned for a moment that is past, or with nothing left to do, has been done. -/
theorem done_iff_marks {t : Tasks σ} {a : Act} (ha : a.isMark = true)
    (hpast : ∀ m, (m, a) ∈ t.marks → m < t.now ∨ t.todo = []) :
    (∃ m, (m, a) ∈ t.done) ↔ ∃ m, (m, a) ∈ t.marks := by
  refine ⟨fun ⟨m, hm⟩ => ⟨m, mem_marks ha hm⟩, fun ⟨m, hm⟩ => ⟨m, ?_⟩⟩
  exact done_of_planned (List.mem_filter.mp hm).1 (hpast m hm)

/-- A stop that has ended has nothing left to do. -/
theorem Orderly.todo_of_stopped {t : Tasks σ} (h : t.Orderly) (hs : t.state = .stopped)
    (hfinished : t.stage = .finished)
    (hlast : t.todo = [] ∨ t.todo.getLast? = some (.advance .stopped)) : t.todo = [] := by
  rcases hlast with hnil | hlast
  · exact hnil
  · exfalso
    have hdone := List.count_pos_iff.mpr (h.stopped_iff.mp hs)
    have htodo : Act.advance .stopped ∈ t.todo.filter Act.isMilestone :=
      List.mem_filter.mpr ⟨List.mem_of_getLast? hlast, rfl⟩
    have hsoon := List.count_pos_iff.mpr htodo
    obtain ⟨c, htold⟩ := h.told
    have hcount := congrArg (List.count (Act.advance .stopped)) htold
    have honce : (script c).count (.advance .stopped) = 1 := by cases c <;> decide
    rw [List.count_append, hfinished, show Stage.told c .finished = script c from rfl, honce] at hcount
    omega

theorem isPunctual_of_isPrompt {t : Tasks σ} {u : Turn} (h : t.isPrompt u = true) :
    t.isPunctual u = true := by
  cases u with
  | pass time =>
      simp only [isPrompt, isQuiet, Bool.and_eq_true] at h
      simp only [isPunctual, Bool.and_eq_true]
      exact ⟨h.1.1.1.1, h.1.2⟩
  | _ => rfl

/-- How a stop stands that was taken up at `since`, for a server with this grace margin. -/
structure Bounded (since : Nat) (drain grace : Duration) (t : Tasks σ) : Prop where
  inTime : since + drain.nanos + grace.nanos < t.now → t.state = .stopped
  /-- Computations are cancelled exactly if the transport outlasts the drain timeout. -/
  cancelled : since + drain.nanos < t.now ∨ t.state = .stopped →
    t.endedAt ≠ some (since + drain.nanos) →
    (t.wire.core.cancel.fired = true ↔ ∀ f, t.endedAt = some f → since + drain.nanos < f)
  /-- The transport is given up exactly if it outlasts the deadline. -/
  aborted : since + drain.nanos + grace.nanos < t.now ∨ t.state = .stopped →
    t.endedAt ≠ some (since + drain.nanos + grace.nanos) →
    ((∃ moment, (moment, .abort) ∈ t.done) ↔
      ∀ f, t.endedAt = some f → since + drain.nanos + grace.nanos < f)
  /-- The server has stopped when the backend has let go, and at the deadline at the latest. -/
  stopped : ∀ moment, (moment, .advance .stopped) ∈ t.done →
    ∃ takes, t.letGo = some takes ∧
      moment = overAt (since + drain.nanos + grace.nanos)
        (goneAt since (since + drain.nanos + grace.nanos) t.endedAt) takes
  /-- Time is never stuck before the end. -/
  reaches : ∃ more, follows isPunctual t more = true ∧ (t.run more).state = .stopped

theorem Pace.bounded {drain grace : Duration} {t : Tasks σ}
    (h : Pace since (since + drain.nanos) (since + drain.nanos + grace.nanos) t) (ho : t.Orderly) :
    Bounded since drain grace t := by
  have hlimit : since ≤ since + drain.nanos := Nat.le_add_right _ _
  have hd : since + drain.nanos ≤ since + drain.nanos + grace.nanos := Nat.le_add_right _ _
  have hend : t.state = .stopped → ∃ m, (m, .advance .stopped) ∈ t.marks := by
    intro hstopped
    obtain ⟨m, hm⟩ := (mem_milestones rfl).mp (ho.stopped_iff.mp hstopped)
    exact ⟨m, mem_marks rfl hm⟩
  have hidle : t.state = .stopped → t.todo = [] := by
    intro hstopped
    obtain ⟨m, hm⟩ := hend hstopped
    obtain ⟨hfinished, hlast, -⟩ := h.stage.stopped hlimit hd hm
    exact ho.todo_of_stopped hstopped hfinished hlast
  refine ⟨?_, ?_, ?_, ?_, ?_⟩
  · intro hlate
    obtain ⟨m, hm, hpast⟩ := h.stage.inTime hd hlate
    have hdone := done_of_planned (List.mem_filter.mp hm).1 (Or.inl hpast)
    exact ho.stopped_iff.mpr ((mem_milestones rfl).mpr ⟨m, hdone⟩)
  · intro hlate htie
    rw [← h.stage.cancel_mem hd (hlate.imp_right hend) htie, ho.cancel, List.contains_iff_mem,
      mem_milestones rfl]
    refine done_iff_marks rfl ?_
    intro m hm
    rw [(h.stage.cancel_moment hd hm).1]
    exact hlate.imp_right hidle
  · intro hlate htie
    rw [← h.stage.abort_mem hd (hlate.imp_right hend) htie]
    refine done_iff_marks rfl ?_
    intro m hm
    rw [h.stage.abort_moment hm]
    exact hlate.imp_right hidle
  · intro m hm
    exact (h.stage.stopped hlimit hd (mem_marks rfl hm)).2.2
  · obtain ⟨more, hf, hstopped⟩ := stop_reached ho h.begun.1 h.begun.2
    exact ⟨more, follows_mono (fun _ _ => isPunctual_of_isPrompt) hf, hstopped⟩

/-! ### The bound -/

theorem grace_run (b : Blueprint σ) (a : Net.SocketAddress) (turns : List Turn) :
    ((b.running a).tasks.run turns).grace = b.graceMargin := by
  refine run_keeps (P := fun t => t.grace = b.graceMargin) ?_ rfl turns
  intro t u h
  rcases turn_cases u with ⟨exitFirst, rfl⟩ | rfl | hu
  · show (t.wake exitFirst).grace = b.graceMargin
    rcases wake_cases t exitFirst with heq | ⟨acts, stage, -, -, heq⟩ <;> rw [heq] <;> exact h
  · show t.act.grace = b.graceMargin
    rcases act_cases t with ⟨-, heq⟩ | ⟨a, rest, -, heq⟩ <;> rw [heq] <;> exact h
  · rw [(beside_step t hu).grace]
    exact h

theorem ended_run (b : Blueprint σ) (a : Net.SocketAddress) (turns : List Turn) :
    ∀ f, ((b.running a).tasks.run turns).endedAt = some f →
      f ≤ ((b.running a).tasks.run turns).now :=
  run_keeps (P := fun t : Tasks σ => ∀ f, t.endedAt = some f → f ≤ t.now)
    (fun _ u h => ended_step h u) (fun _ h => by cases h) turns

/-- The stop keeps pace from the moment at which it is taken up. -/
theorem pace_run (b : Blueprint σ) (a : Net.SocketAddress) (before after : List Turn)
    (exitFirst : Bool) (cue : Cue)
    (hserving : ((b.running a).tasks.run before).stage = .serving)
    (hcue : (((b.running a).tasks.run before).sight exitFirst).cue = some cue)
    (hd : ((b.running a).tasks.run before).now + cue.drain.nanos + b.graceMargin.nanos < endOfTime)
    (hf : follows isPunctual ((b.running a).tasks.run (before ++ [.wake exitFirst])) after = true) :
    Pace ((b.running a).tasks.run before).now
      (((b.running a).tasks.run before).now + cue.drain.nanos)
      (((b.running a).tasks.run before).now + cue.drain.nanos + b.graceMargin.nanos)
      ((b.running a).tasks.run (before ++ .wake exitFirst :: after)) := by
  have hgrace := grace_run b a before
  rw [← hgrace] at hd ⊢
  have hstart := pace_start hserving (idle_run b a before hserving) (ended_run b a before) hcue hd
  rw [run_append] at hf ⊢
  exact follows_keeps (fun _ _ h hu => h.step (Nat.le_add_right _ _) hu) hstart hf

end Tasks

end EmbedServer.Lifecycle
