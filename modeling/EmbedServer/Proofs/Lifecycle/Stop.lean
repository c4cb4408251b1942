/-
A stop as a whole.

What has been done of a stop is a beginning of its script (`Proofs/Lifecycle/Order`), and every entry of the
script is tied here to what the server shows: the entries that move the lifecycle to its state, the freeze
to the registry, the drain and the cancellation to their signals, and the closing to the backend.  For the
last there are two witnesses that no record can replace: somebody who overhears the backend hears it being
closed, and a backend that counts how often it has let go counts it.

`stop_in_order` is the main result.  It asks nothing of the turns.
-/
import EmbedServer.Proofs.Lifecycle.Asking
import EmbedServer.Proofs.Lifecycle.LetGo
import EmbedServer.Proofs.Lifecycle.Overheard

namespace EmbedServer.Lifecycle

variable {σ : Type}

/-! ### The frozen registry

Registries are frozen by the supervisor alone: whoever else writes one leaves it as frozen as it was.
-/

private theorem frozen_set (r : Health.Registry) (key : String) (status : Health.Status) :
    (r.set key status).frozen = r.frozen := by
  unfold Health.Registry.set
  split <;> rfl

private theorem frozen_setAll (r : Health.Registry) (status : Health.Status) :
    (r.setAll status).frozen = r.frozen := by
  unfold Health.Registry.setAll
  split <;> rfl

theorem Act.frozen_apply (s : Http.Server σ) {a : Act} (h : a ≠ .freeze) :
    (apply s a).core.health.frozen = s.core.health.frozen := by
  cases a with
  | freeze => exact absurd rfl h
  | advance next =>
      simp only [apply, applyCore, advanceCore]
      split <;> rfl
  | publish key status => exact frozen_set s.core.health key status
  | _ => rfl

namespace Tasks

private theorem frozen_beside (t : Tasks σ) {u : Turn} (h : IsOther u) :
    (t.step u).wire.core.health.frozen = t.wire.core.health.frozen := by
  cases u with
  | receive r => exact congrArg _ (Http.Server.same_receive t.wire r).core.health
  | look id => exact congrArg _ (Http.Server.same_look t.wire id).core.health
  | leave id => exact congrArg _ (Http.Server.same_abort t.wire id).core.health
  | publish key status => exact frozen_set t.wire.core.health key status
  | publishAll status => exact frozen_setAll t.wire.core.health status
  | trigger drain => exact (jots_ask t drain).kept (f := fun s => s.core.health.frozen) fun _ => rfl
  | send => exact (jots_send t).kept (f := fun s => s.core.health.frozen) fun _ => rfl
  | wake exitFirst => exact absurd rfl (h.1 exitFirst)
  | act => exact absurd rfl h.2
  | _ => rfl

/-- A registry is frozen if it was from the start, or once the supervisor has frozen it. -/
theorem frozen_run (b : Blueprint σ) (a : Net.SocketAddress) (turns : List Turn) :
    ((b.running a).tasks.run turns).wire.core.health.frozen =
      (b.core.health.frozen || ((b.running a).tasks.run turns).milestones.contains .freeze) := by
  refine run_keeps (P := fun t : Tasks σ => t.wire.core.health.frozen =
    (b.core.health.frozen || t.milestones.contains .freeze)) ?_ ?_ turns
  · intro t u h
    rcases turn_cases u with ⟨exitFirst, rfl⟩ | rfl | hu
    · show (t.wake exitFirst).wire.core.health.frozen = (_ || (t.wake exitFirst).milestones.contains _)
      rw [wire_wake, h]
      rcases wake_cases t exitFirst with heq | ⟨acts, stage, -, -, heq⟩
      · rw [heq]
      · rw [heq]
        rfl
    · show t.act.wire.core.health.frozen = (_ || t.act.milestones.contains _)
      rcases act_cases t with ⟨-, heq⟩ | ⟨x, rest, -, heq⟩
      · rw [heq, h]
      · rw [heq, show Tasks.milestones { t with
              wire := Act.apply t.wire x, todo := rest, done := t.done ++ [(t.now, x)] } =
            t.milestones ++ if x.isMilestone then [x] else [] from milestones_snoc t.done t.now x]
        show (Act.apply t.wire x).core.health.frozen = _
        by_cases hx : x = .freeze
        · subst hx
          simp [Act.apply, Act.applyCore, Health.Registry.freeze, Act.isMilestone]
        · rw [Act.frozen_apply t.wire hx, h]
          split <;> simp [Ne.symm hx]
    · rw [frozen_beside t hu, h, milestones, milestones, (beside_step t hu).done]
  · exact (Blueprint.kept_running (f := fun s => s.core.health.frozen) (x := .freeze)
      (fun s _ h => Act.frozen_apply s h) (by simp) (by simp) (by simp) b a).trans
      (Bool.or_false _).symm

end Tasks

/-! ### The stop as a whole

Every part has been shown of all runs by now.  What is left is to read the parts off one and the same run.
-/

namespace Tasks

/-- How a server that was started from this blueprint stands after these turns. -/
structure InOrder (b : Blueprint σ) (a : Net.SocketAddress) (turns : List Turn) (t : Tasks σ) :
    Prop where
  states : t.state = .running ∨ t.state = .stopping ∨ t.state = .stopped
  /-- Who asked first was told so, and nobody else was. -/
  outcomes : t.outcomes = replies (asked turns)
  /-- Nothing happened twice, or before its time. -/
  order : ∃ cancelled, t.milestones <+: script cancelled
  stopping : t.state ≠ .running ↔ .advance .stopping ∈ t.milestones
  frozen : .freeze ∈ t.milestones → Act.IsOut t.wire.core.health
  /-- Nobody but the supervisor freezes the registry. -/
  frozenBy : t.wire.core.health.frozen = true ↔ b.core.health.frozen = true ∨ .freeze ∈ t.milestones
  draining : t.wire.draining.fired = true ↔ .drain ∈ t.milestones
  cancelled : t.wire.core.cancel.fired = true ↔ .cancel ∈ t.milestones
  stopped : t.state = .stopped ↔ .advance .stopped ∈ t.milestones
  closed : t.state = .stopped → t.milestones.count .close = 1
  /-- Whoever overhears the backend hears it being closed as often as that has been done, and nothing else
  is different. -/
  heard : ∀ bell, Overheard bell t (((b.ringing bell).running a).tasks.run turns)
  /-- In a server that has stopped that is exactly once. -/
  heardOnce : t.state = .stopped → ∀ bell,
    (((b.ringing bell).running a).tasks.run turns).wire.core.log.count bell =
      t.wire.core.log.count bell + 1
  /-- The backend has let go at most once, and after it was told to. -/
  parted : (t.done.map Prod.snd).filter Act.isClosing <+: [.close, .closed]
  /-- A backend that counts how often it has let go agrees. -/
  letGo : ∀ closings, b.core.backend.Counts closings →
    closings t.wire.core.compute = closings b.core.compute + (t.done.map Prod.snd).count .closed
  /-- A request that was taken up is the first that was made. -/
  first : ∀ moment d, t.taken = some (moment, .request d) → (asked turns).head? = some d
  /-- Calls are waited for as long as what was taken up says. -/
  timeout : ∀ timeout limit deadline, t.stage = .draining timeout limit deadline →
    ∃ moment cue, t.taken = some (moment, cue) ∧ timeout = cue.drain ∧
      limit = moment + timeout.nanos ∧ deadline = limit + t.grace.nanos

theorem inOrder_run (b : Blueprint σ) (a : Net.SocketAddress) (turns : List Turn) :
    InOrder b a turns ((b.running a).tasks.run turns) := by
  have ho := orderly_run b a turns
  have hc := claimed_run (claimed_running b a) turns
  have hw := waits_run b a turns
  have hfrozen := frozen_run b a turns
  have hheard := fun bell => overheard_run b bell a turns
  have hparted := closings_within b a turns
  have hletGo := fun closings (hcounts : b.core.backend.Counts closings) => closings_run b a turns hcounts
  rw [List.nil_append] at hc
  generalize (b.running a).tasks.run turns = t at *
  obtain ⟨c, hwithin⟩ := ho.within
  have hstate : t.state = stateOf t.milestones := ho.state
  have hclosed : t.state = .stopped → t.milestones.count .close = 1 := by
    rw [hstate]
    intro hstopped
    rcases stateOf_within hwithin with ⟨h, -⟩ | ⟨h, -⟩ | ⟨-, -, -, hcount⟩
    · rw [h] at hstopped; cases hstopped
    · rw [h] at hstopped; cases hstopped
    · exact hcount
  refine ⟨?_, hc.outcomes, ⟨c, hwithin⟩, ?_, ho.health, ?_, ?_, ?_, ho.stopped_iff, hclosed, hheard, ?_,
    hparted, hletGo, hc.taken, ?_⟩
  · rw [hstate]
    rcases stateOf_within hwithin with ⟨h, -⟩ | ⟨h, -⟩ | ⟨h, -⟩
    · exact Or.inl h
    · exact Or.inr (Or.inl h)
    · exact Or.inr (Or.inr h)
  · rw [hstate]
    rcases stateOf_within hwithin with ⟨h, hnil⟩ | ⟨h, hmem, -⟩ | ⟨h, hmem, -⟩
    · rw [h]
      simp [hnil]
    · simp [h, hmem]
    · simp [h, hmem]
  · rw [hfrozen, Bool.or_eq_true, List.contains_iff_mem]
  · rw [ho.draining, List.contains_iff_mem]
  · rw [ho.cancel, List.contains_iff_mem]
  · intro hstopped bell
    rw [(hheard bell).bells.count_eq, hclosed hstopped, List.count_append]
    simp
  · intro timeout limit deadline hstage
    unfold Waits at hw
    rw [hstage] at hw
    obtain ⟨moment, cue, htaken, htimeout, hlimit, hd⟩ := hw
    have hdeadline := deadline_eq hd
    exact ⟨moment, cue, htaken, htimeout, by rw [hlimit, htimeout], by omega⟩

/-- **A server that has been started stops at most once, and in order**, whatever happens to it. -/
theorem stop_in_order (b : Blueprint σ) (a : Net.SocketAddress) (turns more : List Turn) :
    InOrder b a turns ((b.running a).tasks.run turns) ∧
      ((b.running a).tasks.run turns).state.rank ≤
        ((b.running a).tasks.run (turns ++ more)).state.rank := by
  refine ⟨inOrder_run b a turns, ?_⟩
  rw [run_append]
  exact rank_run _ more

/-- Two requests to stop, a call in between, and a backend that takes its time to let go: the first request
is the one that counts, the backend is heard being closed once, and it has counted that once. -/
theorem stop_in_order_twice :
    let b : Blueprint Backend.ScriptState :=
      ⟨.new [.logging, .metrics] ⟨.ofSecs 30, true⟩ (Backend.scripted ⟨[], .ofMillis 10, .ofMillis 5⟩)
        .start .empty, 0, ["softgrep.Model"], [], .ofMillis 500⟩
    let bell : Log.Event := .plain .backend .info "closing"
    let turns : List Turn := [.receive Blueprint.errand, .trigger (.ofMillis 60), .send, .wake false,
      .act, .act, .trigger (.ofMillis 5), .act, .act, .pass (.ofMillis 10), .look 0, .finish, .wake true,
      .act, .act, .pass (.ofMillis 5), .wake false, .act, .act]
    let last := (b.running Blueprint.home).tasks.run turns
    InOrder b Blueprint.home turns last ∧ last.state = .stopped ∧
      last.outcomes = [.initiated, .alreadyStopping] ∧ last.milestones = script false ∧
      b.core.backend.Counts Backend.ScriptState.closes ∧ last.wire.core.compute.closes = 1 ∧
      last.wire.core.log.count bell = 0 ∧
      (((b.ringing bell).running Blueprint.home).tasks.run turns).wire.core.log.count bell = 1 := by
  intro b bell turns last
  refine ⟨(stop_in_order b Blueprint.home turns []).1, ?_, ?_, ?_, Backend.counts_scripted _, ?_, ?_, ?_⟩
    <;> decide +kernel

end Tasks

end EmbedServer.Lifecycle
