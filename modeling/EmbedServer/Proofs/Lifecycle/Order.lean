/-
A stop happens at most once, and in order.

`script` is what others notice of a stop from its beginning to its end.  The invariant relates it to
the supervisor: what has been done of a stop, followed by what the supervisor has decided on, is what
its stage tells.  A wake adds to the one side what the step adds to the other, an act moves an entry
from what is decided to what is done, and no other turn touches either.  So what has been done is
always a beginning of the script, with a cancellation or without one.

The state, the signals and the registry are functions of what has been done, and the script says the
rest: it has every entry once, and the state it leads to never goes back.

Nothing is asked of the turns: the supervisor may be interrupted between any two acts, requests may come
from anywhere and at any time, and the transport may end whenever it likes.
-/
import EmbedServer.Proofs.Lifecycle.Supervisor
import EmbedServer.Proofs.Lifecycle.Turns

namespace EmbedServer.Lifecycle

variable {σ : Type}

/-! ### The script

Only what others can notice counts (`Act.isMilestone`): notes, the loss of patience with the transport,
and the word that the backend has let go leave no mark here.  A stage fixes how much of the script has
been told when the supervisor waits there, all but whether there was a cancellation, so `Stage.told` takes
that as an argument.
-/

/-- What others notice of the beginning of a stop. -/
def opening : List Act := [.advance .stopping, .freeze, .drain]

/-- A cancellation, if there is one. -/
def cancellation (cancelled : Bool) : List Act := if cancelled then [.cancel] else []

/-- What others notice of a stop. -/
def script (cancelled : Bool) : List Act :=
  opening ++ cancellation cancelled ++ [.close, .advance .stopped]

/-- What others have noticed when all is done that was decided on to get to a stage. -/
def Stage.told (cancelled : Bool) : Stage → List Act
  | .serving | .lost => []
  | .draining .. => opening
  | .cancelling _ => opening ++ [.cancel]
  | .closing .. => opening ++ cancellation cancelled ++ [.close]
  | .finished => script cancelled

theorem told_within (cancelled : Bool) (stage : Stage) : ∃ c, stage.told cancelled <+: script c := by
  cases stage with
  | serving => exact ⟨true, ⟨_, List.nil_append _⟩⟩
  | lost => exact ⟨true, ⟨_, List.nil_append _⟩⟩
  | draining timeout limit deadline => exact ⟨true, ⟨[.cancel, .close, .advance .stopped], rfl⟩⟩
  | cancelling deadline => exact ⟨true, ⟨[.close, .advance .stopped], rfl⟩⟩
  | closing endsAt deadline =>
      exact ⟨cancelled, ⟨[.advance .stopped], by simp [Stage.told, script]⟩⟩
  | finished => exact ⟨cancelled, List.prefix_rfl⟩

/-- A release that begins where the cancellation is settled goes on with the script. -/
theorem told_releases {v : Sight} {deadline : Nat} {acts : List Act} {stage : Stage}
    (h : Stage.Releases v deadline acts stage) (cancelled : Bool) :
    stage.told cancelled =
      opening ++ cancellation cancelled ++ acts.filter Act.isMilestone := by
  cases h with
  | atOnce hclose => rfl
  | late hclose hlate => rfl
  | wait hclose hearly => rfl

/-- What a step adds to what is decided, it adds to what the stage tells. -/
theorem told_steps {grace : Duration} {v : Sight} {stage stage' : Stage} {acts : List Act}
    (h : Stage.Steps grace v stage acts stage') (cancelled : Bool) :
    ∃ c, stage'.told c = stage.told cancelled ++ acts.filter Act.isMilestone := by
  have hbegin : ∀ cue, (Stage.beginning cue).filter Act.isMilestone = opening := by
    intro cue
    cases cue <;> rfl
  cases h with
  | lose hcue hd => exact ⟨cancelled, rfl⟩
  | start hcue hd hbusy => exact ⟨cancelled, (hbegin _).symm⟩
  | skip hcue hd hdone hr =>
      refine ⟨false, ?_⟩
      rw [told_releases hr, List.filter_append, hbegin]
      rfl
  | drain hdone hr =>
      refine ⟨false, ?_⟩
      rw [told_releases hr]
      rfl
  | exceed hbusy hlimit hearly => exact ⟨true, rfl⟩
  | overrun hbusy hlimit hlate hr =>
      refine ⟨true, ?_⟩
      rw [told_releases hr]
      rfl
  | follow hdone hr =>
      refine ⟨true, ?_⟩
      rw [told_releases hr]
      rfl
  | abort hbusy hlate hr =>
      refine ⟨true, ?_⟩
      rw [told_releases hr]
      rfl
  | close hends =>
      refine ⟨cancelled, ?_⟩
      simp only [Stage.told, script, List.append_assoc]
      rfl
  | desert hends hlate =>
      refine ⟨cancelled, ?_⟩
      simp only [Stage.told, script, List.append_assoc]
      rfl

/-! ### What a beginning of the script leads to

A script has six entries at most, so what is said of all its beginnings is checked for one after the other
(`of_within`).
-/

/-- The state that a running server is in after these acts. -/
def stateOf (acts : List Act) : State := acts.foldl Act.stateAfter .running

/-- What holds of all beginnings of the script. -/
theorem of_within {P : List Act → Prop} (h : ∀ cancelled, ∀ n < 7, P ((script cancelled).take n))
    {acts : List Act} {cancelled : Bool} (hp : acts <+: script cancelled) : P acts := by
  have hlen : acts.length < 7 := by
    have := hp.length_le
    have : (script cancelled).length ≤ 6 := by cases cancelled <;> decide
    omega
  rw [List.prefix_iff_eq_take.mp hp]
  exact h cancelled _ hlen

/-- The states that a stop leads through, and what they say of it. -/
theorem stateOf_within {acts : List Act} {cancelled : Bool} (h : acts <+: script cancelled) :
    (stateOf acts = .running ∧ acts = []) ∨
      (stateOf acts = .stopping ∧ .advance .stopping ∈ acts ∧ .advance .stopped ∉ acts) ∨
      (stateOf acts = .stopped ∧ .advance .stopping ∈ acts ∧ .advance .stopped ∈ acts ∧
        acts.count .close = 1) := by
  refine of_within (P := fun acts => (stateOf acts = .running ∧ acts = []) ∨
    (stateOf acts = .stopping ∧ .advance .stopping ∈ acts ∧ .advance .stopped ∉ acts) ∨
    (stateOf acts = .stopped ∧ .advance .stopping ∈ acts ∧ .advance .stopped ∈ acts ∧
      acts.count .close = 1)) ?_ h
  decide

/-! ### The supervisor and what it has done

What has been done would not do as an invariant by itself, because between two acts the supervisor is in
the middle of what it has decided on.  What is carried along is what has been done together with what is
left to do.
-/

namespace Tasks

/-- What has been done of a stop and what is decided on go together, and what has been done shows. -/
structure Orderly (t : Tasks σ) : Prop where
  told : ∃ cancelled, t.milestones ++ t.todo.filter Act.isMilestone = t.stage.told cancelled
  state : t.wire.core.state = stateOf t.milestones
  draining : t.wire.draining.fired = t.milestones.contains .drain
  cancel : t.wire.core.cancel.fired = t.milestones.contains .cancel
  health : .freeze ∈ t.milestones → Act.IsOut t.wire.core.health

theorem orderly_running (b : Blueprint σ) (a : Net.SocketAddress) : (b.running a).tasks.Orderly where
  told := ⟨true, rfl⟩
  state := b.state_running a
  draining := by
    show (b.running a).wire.draining.fired = false
    rw [(b.signals_running a).1]
    rfl
  cancel := by
    show (b.running a).wire.core.cancel.fired = false
    rw [(b.signals_running a).2]
    rfl
  health := fun h => by cases h

theorem milestones_snoc (done : List (Nat × Act)) (moment : Nat) (a : Act) :
    ((done ++ [(moment, a)]).map Prod.snd).filter Act.isMilestone =
      (done.map Prod.snd).filter Act.isMilestone ++ if a.isMilestone then [a] else [] := by
  rw [List.map_append, List.filter_append]
  simp [List.filter_cons]

/-- An act shows. -/
theorem Orderly.act {t : Tasks σ} (h : t.Orderly) : t.act.Orderly := by
  rcases act_cases t with ⟨-, heq⟩ | ⟨a, rest, htodo, heq⟩
  · rw [heq]
    exact h
  · rw [heq]
    have hm : Tasks.milestones { t with
          wire := Act.apply t.wire a, todo := rest, done := t.done ++ [(t.now, a)] } =
        t.milestones ++ if a.isMilestone then [a] else [] := milestones_snoc t.done t.now a
    refine ⟨?_, ?_, ?_, ?_, ?_⟩
    · obtain ⟨cancelled, htold⟩ := h.told
      refine ⟨cancelled, ?_⟩
      rw [hm, ← htold, htodo, List.filter_cons]
      split <;> simp
    · rw [hm]
      show (Act.apply t.wire a).core.state = _
      rw [Act.state_apply, h.state, stateOf, stateOf, List.foldl_append]
      cases a <;> rfl
    · rw [hm]
      show (Act.apply t.wire a).draining.fired = _
      by_cases ha : a = .drain
      · subst ha
        simp [Act.apply, Http.Server.drain, Cancellation.Signal.fire, Act.isMilestone]
      · rw [Act.draining_apply t.wire ha, h.draining]
        split <;> simp [Ne.symm ha]
    · rw [hm]
      show (Act.apply t.wire a).core.cancel.fired = _
      by_cases ha : a = .cancel
      · subst ha
        simp [Act.apply, Http.Server.cancelAll, Cancellation.Signal.fire, Act.isMilestone]
      · rw [Act.cancel_apply t.wire ha, h.cancel]
        split <;> simp [Ne.symm ha]
    · rw [hm]
      show _ → Act.IsOut (Act.apply t.wire a).core.health
      intro hmem
      by_cases ha : a = .freeze
      · subst ha
        exact Act.isOut_freeze t.wire.core.health
      · refine Act.isOut_apply (h.health ?_) a
        rcases List.mem_append.mp hmem with hold | hnew
        · exact hold
        · split at hnew
          · exact absurd (List.mem_singleton.mp hnew).symm ha
          · cases hnew

/-- A wake decides on what comes next, and does nothing of it. -/
theorem Orderly.wake {t : Tasks σ} (h : t.Orderly) (exitFirst : Bool) : (t.wake exitFirst).Orderly := by
  rcases wake_cases t exitFirst with heq | ⟨acts, stage, htodo, hstep, heq⟩
  · rw [heq]
    exact h
  · rw [heq]
    refine ⟨?_, h.state, h.draining, h.cancel, h.health⟩
    obtain ⟨cancelled, htold⟩ := h.told
    obtain ⟨c, hc⟩ := told_steps (Stage.steps_of_step hstep) cancelled
    refine ⟨c, ?_⟩
    rw [htodo, List.filter_nil, List.append_nil] at htold
    show t.milestones ++ acts.filter Act.isMilestone = stage.told c
    rw [hc, htold]

theorem Orderly.beside {t t' : Tasks σ} (h : t.Orderly) (hb : Beside t t') : t'.Orderly := by
  have hm : t'.milestones = t.milestones := by rw [milestones, milestones, hb.done]
  refine ⟨?_, ?_, ?_, ?_, ?_⟩
  · rw [hm, hb.todo, hb.stage]
    exact h.told
  · rw [hb.state, hm]
    exact h.state
  · rw [hb.draining, hm]
    exact h.draining
  · rw [hb.cancel, hm]
    exact h.cancel
  · rw [hm]
    intro hmem
    have hout := h.health hmem
    rw [hb.health hout.1]
    exact hout

theorem Orderly.step {t : Tasks σ} (h : t.Orderly) (u : Turn) : (t.step u).Orderly := by
  rcases turn_cases u with ⟨exitFirst, rfl⟩ | rfl | hu
  · exact h.wake exitFirst
  · exact h.act
  · exact h.beside (beside_step t hu)

theorem orderly_run (b : Blueprint σ) (a : Net.SocketAddress) (turns : List Turn) :
    ((b.running a).tasks.run turns).Orderly :=
  run_keeps (fun _ u h => h.step u) (orderly_running b a) turns

/-- What has been done of a stop is a beginning of the script. -/
theorem Orderly.within {t : Tasks σ} (h : t.Orderly) : ∃ c, t.milestones <+: script c := by
  obtain ⟨cancelled, htold⟩ := h.told
  obtain ⟨c, hc⟩ := told_within cancelled t.stage
  rw [← htold] at hc
  exact ⟨c, (List.prefix_append _ _).trans hc⟩

theorem Orderly.stopped_iff {t : Tasks σ} (h : t.Orderly) :
    t.state = .stopped ↔ .advance .stopped ∈ t.milestones := by
  have hstate : t.state = stateOf t.milestones := h.state
  obtain ⟨c, hwithin⟩ := h.within
  rw [hstate]
  rcases stateOf_within hwithin with ⟨hs, hnil⟩ | ⟨hs, -, hmem⟩ | ⟨hs, -, hmem, -⟩
  · rw [hs]
    simp [hnil]
  · simp [hs, hmem]
  · simp [hs, hmem]

/-! ### The state never goes back -/

private theorem rank_advance (current next : State) : current.rank ≤ (current.advance next).rank := by
  unfold State.advance
  split
  · omega
  · exact Nat.le_refl _

theorem rank_step (t : Tasks σ) (u : Turn) : t.state.rank ≤ (t.step u).state.rank := by
  rcases turn_cases u with ⟨exitFirst, rfl⟩ | rfl | hu
  · show t.wire.core.state.rank ≤ (t.wake exitFirst).wire.core.state.rank
    exact Nat.le_of_eq (by rw [wire_wake])
  · show t.wire.core.state.rank ≤ t.act.wire.core.state.rank
    rcases act_cases t with ⟨-, heq⟩ | ⟨a, rest, -, heq⟩
    · exact Nat.le_of_eq (by rw [heq])
    · rw [heq]
      show t.wire.core.state.rank ≤ (Act.apply t.wire a).core.state.rank
      rw [Act.state_apply]
      cases a with
      | advance next => exact rank_advance _ next
      | _ => exact Nat.le_refl _
  · show t.wire.core.state.rank ≤ (t.step u).wire.core.state.rank
    exact Nat.le_of_eq (by rw [(beside_step t hu).state])

theorem rank_run (t : Tasks σ) (turns : List Turn) : t.state.rank ≤ (t.run turns).state.rank :=
  run_keeps (P := fun t' => t.state.rank ≤ t'.state.rank)
    (fun t' u h => Nat.le_trans h (rank_step t' u)) (Nat.le_refl _) turns

end Tasks

end EmbedServer.Lifecycle
