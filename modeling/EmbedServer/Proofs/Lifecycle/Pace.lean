/-
Runs in which the supervisor keeps pace.

What has been planned is what has been done with its moments, and what is decided on with the present one.
Time does not pass before it is done, so doing it changes nothing, and only a wake adds to it.  `Pace` is
the invariant: every stage of the stop stands where `Paced` says, at the present moment.
-/
import EmbedServer.Proofs.Lifecycle.Paced

namespace EmbedServer.Lifecycle

variable {σ : Type} {since limit deadline : Nat}

/-! ### What keeping pace comes to

`Stage.Paced` has a case for every stage.  What is needed of it later on is read off once: which marks
have been planned and for which moments, and what is settled as soon as a moment is past.
-/

section Paced

variable {now : Nat} {endedAt : Option Nat} {letGo : Option (Option Duration)} {todo : List Act}
  {marks : List (Nat × Act)} {stage : Stage}

/-- The supervisor waits for the transport, or waits for it once more after a cancellation, or the
transport is gone. -/
theorem Stage.Paced.split (h : stage.Paced since limit deadline now endedAt letGo todo marks) :
    ((∃ timeout, stage = .draining timeout limit deadline) ∧ marks = [] ∧ now ≤ limit) ∨
      (stage = .cancelling deadline ∧ marks = [(limit, .cancel)] ∧ limit ≤ now ∧ now ≤ deadline ∧
        ∀ f, endedAt = some f → f = now) ∨
      ∃ moment before, Gone since limit deadline endedAt moment before ∧ moment ≤ now ∧
        (∀ m, (m, .cancel) ∈ marks ↔ (m, .cancel) ∈ before) ∧
        ∀ m, (m, .abort) ∈ marks ↔ (m, .abort) ∈ before := by
  cases stage with
  | serving => exact h.elim
  | lost => exact h.elim
  | draining timeout limit' deadline' =>
      obtain ⟨rfl, rfl, hmarks, hnow, -⟩ := h
      exact Or.inl ⟨⟨timeout, rfl⟩, hmarks, hnow⟩
  | cancelling deadline' =>
      obtain ⟨rfl, hmarks, hge, hnow, hlast⟩ := h
      exact Or.inr (Or.inl ⟨rfl, hmarks, hge, hnow, hlast⟩)
  | closing endsAt deadline' =>
      obtain ⟨-, moment, takes, -, hgone, -, hmoment, -⟩ := h
      exact Or.inr (Or.inr ⟨moment, marks, hgone, hmoment, fun _ => Iff.rfl, fun _ => Iff.rfl⟩)
  | finished =>
      obtain ⟨moment, takes, before, -, hgone, hmoment, hmarks, -⟩ := h
      refine Or.inr (Or.inr ⟨moment, before, hgone, hmoment, fun m => ?_, fun m => ?_⟩) <;>
        simp [hmarks]

/-- What is planned as the end of a stop is planned for the right moment, and comes last. -/
theorem Stage.Paced.stopped (h : stage.Paced since limit deadline now endedAt letGo todo marks)
    (hl : since ≤ limit) (hd : limit ≤ deadline) {m : Nat} (hm : (m, .advance .stopped) ∈ marks) :
    stage = .finished ∧ (todo = [] ∨ todo.getLast? = some (.advance .stopped)) ∧
      ∃ takes, letGo = some takes ∧ m = overAt deadline (goneAt since deadline endedAt) takes := by
  cases stage with
  | serving => exact h.elim
  | lost => exact h.elim
  | draining timeout limit' deadline' =>
      rw [h.2.2.1] at hm
      cases hm
  | cancelling deadline' =>
      rw [h.2.1] at hm
      simp at hm
  | closing endsAt deadline' =>
      obtain ⟨-, moment, takes, -, hgone, -⟩ := h
      exact absurd hm hgone.not_stopped
  | finished =>
      obtain ⟨moment, takes, before, hletGo, hgone, -, hmarks, -, hlast⟩ := h
      refine ⟨rfl, hlast, takes, hletGo, ?_⟩
      rw [hmarks] at hm
      rcases List.mem_append.mp hm with hearly | hend
      · exact absurd hearly hgone.not_stopped
      · rw [← hgone.eq_goneAt hl hd]
        exact (Prod.mk.inj (List.mem_singleton.mp hend)).1

/-- Once the deadline is past, the end of the stop is of the past. -/
theorem Stage.Paced.inTime (h : stage.Paced since limit deadline now endedAt letGo todo marks)
    (hd : limit ≤ deadline) (hlate : deadline < now) :
    ∃ m, (m, .advance .stopped) ∈ marks ∧ m < now := by
  cases stage with
  | serving => exact h.elim
  | lost => exact h.elim
  | draining timeout limit' deadline' =>
      obtain ⟨-, -, -, hnow, -⟩ := h
      omega
  | cancelling deadline' =>
      obtain ⟨-, -, -, hnow, -⟩ := h
      omega
  | closing endsAt deadline' =>
      obtain ⟨-, moment, takes, -, -, -, -, hnow, -⟩ := h
      omega
  | finished =>
      obtain ⟨moment, takes, before, -, -, -, hmarks, -, -⟩ := h
      refine ⟨overAt deadline moment takes, by rw [hmarks]; simp, ?_⟩
      cases takes with
      | none => exact hlate
      | some c =>
          rw [overAt]
          omega

/-- A cancellation is planned for the end of the drain timeout, and not before it. -/
theorem Stage.Paced.cancel_moment
    (h : stage.Paced since limit deadline now endedAt letGo todo marks) (hd : limit ≤ deadline)
    {m : Nat} (hm : (m, .cancel) ∈ marks) : m = limit ∧ limit ≤ now := by
  rcases h.split with ⟨-, hmarks, -⟩ | ⟨-, hmarks, hge, -⟩ | ⟨moment, before, hgone, hmoment, hmem, -⟩
  · rw [hmarks] at hm
    cases hm
  · rw [hmarks] at hm
    exact ⟨by simpa using hm, hge⟩
  · rw [hmem] at hm
    cases hgone with
    | calm _ _ _ => cases hm
    | cancelled _ hge _ => exact ⟨by simpa using hm, Nat.le_trans hge hmoment⟩
    | aborted hdeadline _ => exact ⟨by simpa using hm, by omega⟩

/-- The transport is given up at the deadline. -/
theorem Stage.Paced.abort_moment
    (h : stage.Paced since limit deadline now endedAt letGo todo marks) {m : Nat}
    (hm : (m, .abort) ∈ marks) : m = deadline := by
  rcases h.split with ⟨-, hmarks, -⟩ | ⟨-, hmarks, -⟩ | ⟨moment, before, hgone, -, -, hmem⟩
  · rw [hmarks] at hm
    cases hm
  · rw [hmarks] at hm
    simp at hm
  · rw [hmem] at hm
    cases hgone with
    | calm _ _ _ => cases hm
    | cancelled _ _ _ => simp at hm
    | aborted _ _ => simpa using hm

/-- A supervisor that is past the wait for the transport has seen it end, or has cancelled. -/
theorem Stage.Paced.draining_of_calm
    (h : stage.Paced since limit deadline now endedAt letGo todo marks)
    (hbusy : endedAt = none) (hcalm : ∀ m, (m, .cancel) ∉ marks) :
    ∃ timeout, stage = .draining timeout limit deadline := by
  rcases h.split with ⟨hstage, -⟩ | ⟨-, hmarks, -⟩ | ⟨moment, before, hgone, -, hmem, -⟩
  · exact hstage
  · exact absurd (by rw [hmarks]; simp) (hcalm limit)
  · have hnone := hcalm limit
    rw [hmem] at hnone
    cases hgone with
    | calm hended _ _ =>
        rw [hbusy] at hended
        cases hended
    | cancelled _ _ _ => exact absurd (by simp) hnone
    | aborted _ _ => exact absurd (by simp) hnone

/-- Past the waits for the transport it has ended, or the deadline is past. -/
theorem Stage.Paced.gone (h : stage.Paced since limit deadline now endedAt letGo todo marks)
    (hlate : stage.left ≤ 1) : endedAt.isSome = true ∨ deadline ≤ now := by
  rcases h.split with ⟨⟨timeout, hstage⟩, -⟩ | ⟨hstage, -⟩ | ⟨moment, before, hgone, hmoment, -⟩
  · rw [hstage] at hlate
    simp [Stage.left] at hlate
  · rw [hstage] at hlate
    simp [Stage.left] at hlate
  · cases hgone with
    | calm hended _ _ => exact Or.inl (by rw [hended]; rfl)
    | cancelled hended _ _ => exact Or.inl (by rw [hended]; rfl)
    | aborted hdeadline _ => exact Or.inr (by omega)

/-- Once the drain timeout is over, or the stop is, it is settled whether there is a cancellation. -/
theorem Stage.Paced.cancel_mem (h : stage.Paced since limit deadline now endedAt letGo todo marks)
    (hd : limit ≤ deadline) (hlate : limit < now ∨ ∃ m, (m, .advance .stopped) ∈ marks)
    (htie : endedAt ≠ some limit) :
    (∃ m, (m, .cancel) ∈ marks) ↔ ∀ f, endedAt = some f → limit < f := by
  rcases h.split with ⟨-, hmarks, hnow⟩ | ⟨-, hmarks, -, -, hlast⟩ | ⟨moment, before, hgone, -, hmem, -⟩
  · rw [hmarks] at hlate
    rcases hlate with hlt | ⟨m, hm⟩
    · omega
    · cases hm
  · rw [hmarks] at hlate ⊢
    rcases hlate with hlt | ⟨m, hm⟩
    · refine ⟨?_, fun _ => ⟨limit, by simp⟩⟩
      intro _ f hf
      rw [hlast f hf]
      exact hlt
    · simp at hm
  · simp only [hmem]
    exact hgone.cancel_mem hd htie

/-- Once the deadline is past, or the stop is over, it is settled whether the transport is given
up. -/
theorem Stage.Paced.abort_mem (h : stage.Paced since limit deadline now endedAt letGo todo marks)
    (hd : limit ≤ deadline) (hlate : deadline < now ∨ ∃ m, (m, .advance .stopped) ∈ marks)
    (htie : endedAt ≠ some deadline) :
    (∃ m, (m, .abort) ∈ marks) ↔ ∀ f, endedAt = some f → deadline < f := by
  have hend : ∃ m, (m, .advance .stopped) ∈ marks := by
    rcases hlate with hlt | hend
    · obtain ⟨m, hm, -⟩ := h.inTime hd hlt
      exact ⟨m, hm⟩
    · exact hend
  rcases h.split with ⟨-, hmarks, -⟩ | ⟨-, hmarks, -⟩ | ⟨moment, before, hgone, -, -, hmem⟩
  · rw [hmarks] at hend
    obtain ⟨m, hm⟩ := hend
    cases hm
  · rw [hmarks] at hend
    obtain ⟨m, hm⟩ := hend
    simp at hm
  · simp only [hmem]
    exact hgone.abort_mem hd htie

end Paced

/-! ### Runs that keep pace -/

namespace Tasks

/-- What the supervisor has done, and when, and what it is about to do at this moment. -/
def planned (t : Tasks σ) : List (Nat × Act) := t.done ++ t.todo.map (t.now, ·)

def marks (t : Tasks σ) : List (Nat × Act) := t.planned.filter (·.2.isMark)

/-- Where a stop that was taken up at `since` stands. -/
structure Pace (since limit deadline : Nat) (t : Tasks σ) : Prop where
  since_le : since ≤ t.now
  ended : ∀ f, t.endedAt = some f → f ≤ t.now
  stage : t.stage.Paced since limit deadline t.now t.endedAt t.letGo t.todo t.marks

private theorem planned_act (t : Tasks σ) : t.act.planned = t.planned := by
  have hnow := now_act t
  rcases act_cases t with ⟨-, h⟩ | ⟨a, rest, htodo, h⟩
  · rw [h]
  · rw [planned, hnow, h, planned, htodo]
    simp

private theorem planned_filter (done : List (Nat × Act)) (acts : List Act) (now : Nat) :
    (done ++ acts.map (now, ·)).filter (·.2.isMark) =
      done.filter (·.2.isMark) ++ (acts.filter Act.isMark).map (now, ·) := by
  rw [List.filter_append, List.filter_map]
  rfl

/-- A wake adds to what is planned, for this very moment. -/
theorem mem_planned_wake {t : Tasks σ} {exitFirst : Bool} {x : Nat × Act}
    (h : x ∈ (t.wake exitFirst).planned) :
    x ∈ t.planned ∨ ∃ acts stage, Stage.Steps t.grace (t.sight exitFirst) t.stage acts stage ∧
      x.1 = t.now ∧ x.2 ∈ acts := by
  rcases wake_cases t exitFirst with heq | ⟨acts, stage, htodo, hstep, heq⟩
  · rw [heq] at h
    exact Or.inl h
  · rw [heq] at h
    rcases List.mem_append.mp h with hdone | htodo'
    · exact Or.inl (List.mem_append_left _ hdone)
    · obtain ⟨a, ha, hpair⟩ := List.mem_map.mp htodo'
      rw [← hpair]
      exact Or.inr ⟨acts, stage, Stage.steps_of_step hstep, rfl, ha⟩

/-- Only a wake adds to what is planned, because time does not pass before all is done. -/
theorem planned_step {t : Tasks σ} {u : Turn} (hallowed : t.isPunctual u = true)
    (hwake : ∀ exitFirst, u ≠ .wake exitFirst) : (t.step u).planned = t.planned := by
  rcases turn_cases u with ⟨exitFirst, rfl⟩ | rfl | hu
  · exact absurd rfl (hwake exitFirst)
  · exact planned_act t
  · have hb := beside_step t hu
    rw [planned, planned, hb.done, hb.todo]
    rcases clock_cases t u with ⟨time, rfl⟩ | rfl | ⟨hnow, -⟩
    · simp only [isPunctual, rests, Bool.and_eq_true, List.isEmpty_iff] at hallowed
      rw [hallowed.1.1, List.map_nil, List.map_nil]
    · rfl
    · rw [hnow]

/-- The end of the transport is never in the future. -/
theorem ended_step {t : Tasks σ} (h : ∀ f, t.endedAt = some f → f ≤ t.now) (u : Turn) :
    ∀ f, (t.step u).endedAt = some f → f ≤ (t.step u).now := by
  rcases clock_cases t u with ⟨time, rfl⟩ | rfl | ⟨hnow, hended⟩
  · intro f hf
    exact Nat.le_trans (h f hf) (Nat.le_add_right _ _)
  · intro f hf
    show f ≤ t.now
    cases hended : t.endedAt with
    | none =>
        simp only [step, hended, Option.none_or, Option.some.injEq] at hf
        omega
    | some f' =>
        simp only [step, hended, Option.some_or, Option.some.injEq] at hf
        rw [← hf]
        exact h f' hended
  · rw [hnow, hended]
    exact h

/-- A server that serves has done nothing of a stop and decided on nothing. -/
theorem idle_run (b : Blueprint σ) (a : Net.SocketAddress) (turns : List Turn) :
    ((b.running a).tasks.run turns).stage = .serving →
      ((b.running a).tasks.run turns).planned = [] := by
  refine run_keeps (P := fun t => t.stage = .serving → t.planned = []) ?_ (fun _ => rfl) turns
  intro t u h hstage
  rcases turn_cases u with ⟨exitFirst, rfl⟩ | rfl | hu
  · rcases wake_cases t exitFirst with heq | ⟨acts, stage, htodo, hstep, heq⟩
    · rw [show t.step (.wake exitFirst) = t.wake exitFirst from rfl, heq] at hstage ⊢
      exact h hstage
    · have hnext : stage = .serving := by
        rw [show t.step (.wake exitFirst) = t.wake exitFirst from rfl, heq] at hstage
        exact hstage
      exact absurd hnext (Stage.steps_of_step hstep).ne_serving
  · rw [show t.step .act = t.act from rfl, planned_act]
    refine h ?_
    rcases act_cases t with ⟨-, heq⟩ | ⟨a, rest, -, heq⟩ <;>
      rw [show t.step .act = t.act from rfl, heq] at hstage <;> exact hstage
  · have hb := beside_step t hu
    rw [hb.stage] at hstage
    have hnil := h hstage
    simp only [planned, List.append_eq_nil_iff, List.map_eq_nil_iff] at hnil ⊢
    exact ⟨hb.done.trans hnil.1, hb.todo.trans hnil.2⟩

theorem Pace.act {t : Tasks σ} (h : Pace since limit deadline t) :
    Pace since limit deadline t.act := by
  have hmarks : t.act.marks = t.marks := by rw [marks, marks, planned_act]
  have hnow := now_act t
  have hended := endedAt_act t
  refine ⟨by rw [hnow]; exact h.since_le, by rw [hnow, hended]; exact h.ended, ?_⟩
  have hstage := h.stage
  rw [hmarks, hnow, hended]
  rcases act_cases t with ⟨-, heq⟩ | ⟨a, rest, htodo, heq⟩ <;> rw [heq]
  · exact hstage
  · show t.stage.Paced since limit deadline t.now t.endedAt t.letGo rest t.marks
    cases hs : t.stage with
    | finished =>
        rw [hs] at hstage
        obtain ⟨moment, takes, before, hletGo, hgone, hmoment, hm, hover, hlast⟩ := hstage
        refine ⟨moment, takes, before, hletGo, hgone, hmoment, hm, hover, ?_⟩
        cases hrest : rest with
        | nil => exact Or.inl rfl
        | cons a' rest' =>
            rw [htodo, hrest] at hlast
            rcases hlast with hnil | hlast
            · cases hnil
            · exact Or.inr hlast
    | serving => rw [hs] at hstage; exact hstage
    | lost => rw [hs] at hstage; exact hstage
    | draining timeout limit' deadline' => rw [hs] at hstage; exact hstage
    | cancelling deadline' => rw [hs] at hstage; exact hstage
    | closing endsAt deadline' => rw [hs] at hstage; exact hstage

private theorem marks_wake {t : Tasks σ} {acts : List Act} (htodo : t.todo = []) :
    (t.done ++ acts.map (t.now, ·)).filter (·.2.isMark) =
      t.marks ++ (acts.filter Act.isMark).map (t.now, ·) := by
  rw [planned_filter, marks, planned, htodo, List.map_nil, List.append_nil]

theorem Pace.wake {t : Tasks σ} (h : Pace since limit deadline t) (hd : limit ≤ deadline)
    (exitFirst : Bool) : Pace since limit deadline (t.wake exitFirst) := by
  rcases wake_cases t exitFirst with heq | ⟨acts, stage, htodo, hstep, heq⟩ <;> rw [heq]
  · exact h
  · have hstage := h.stage
    rw [htodo] at hstage
    have hnext := paced_steps (Stage.steps_of_step hstep) hstage rfl h.since_le hd
    refine ⟨h.since_le, h.ended, ?_⟩
    show stage.Paced since limit deadline t.now t.endedAt _ acts
      ((t.done ++ acts.map (t.now, ·)).filter (·.2.isMark))
    rw [marks_wake htodo]
    exact hnext

/-- The clock moves only while the supervisor rests, and not beyond its next moment. -/
theorem Pace.pass {t : Tasks σ} (h : Pace since limit deadline t) {time : Duration}
    (hallowed : t.isPunctual (.pass time) = true) :
    Pace since limit deadline (t.step (.pass time)) := by
  have hmarks : (t.step (.pass time)).marks = t.marks := by
    rw [marks, marks, planned_step hallowed (by simp)]
  simp only [isPunctual, rests, Bool.and_eq_true, List.isEmpty_iff, Option.isNone_iff_eq_none]
    at hallowed
  obtain ⟨⟨htodo, hrest⟩, hnext⟩ := hallowed
  have hle : t.now ≤ t.now + time.nanos := Nat.le_add_right _ _
  refine ⟨Nat.le_trans h.since_le hle, fun f hf => Nat.le_trans (h.ended f hf) hle, ?_⟩
  rw [hmarks]
  have hstage := h.stage
  show t.stage.Paced since limit deadline (t.now + time.nanos) t.endedAt t.letGo t.todo t.marks
  cases hs : t.stage with
  | serving => rw [hs] at hstage; exact hstage
  | lost => rw [hs] at hstage; exact hstage
  | draining timeout limit' deadline' =>
      rw [hs] at hstage hrest hnext
      obtain ⟨hlimit, hdeadline, hm, hnow, hlast⟩ := hstage
      simp only [Stage.nextMoment, Option.all_some, decide_eq_true_eq] at hnext
      have hbusy : t.endedAt = none := by
        cases hended : t.endedAt with
        | none => rfl
        | some f => simp [Stage.step, sight, hended] at hrest
      refine ⟨hlimit, hdeadline, hm, by omega, ?_⟩
      intro f hf
      rw [hbusy] at hf
      cases hf
  | cancelling deadline' =>
      rw [hs] at hstage hrest hnext
      obtain ⟨hdeadline, hm, hge, hnow, hlast⟩ := hstage
      simp only [Stage.nextMoment, Option.all_some, decide_eq_true_eq] at hnext
      have hbusy : t.endedAt = none := by
        cases hended : t.endedAt with
        | none => rfl
        | some f => simp [Stage.step, sight, hended] at hrest
      refine ⟨hdeadline, hm, by omega, by omega, ?_⟩
      intro f hf
      rw [hbusy] at hf
      cases hf
  | closing endsAt deadline' =>
      rw [hs] at hstage hnext
      obtain ⟨hdeadline, moment, takes, hletGo, hgone, hendsAt, hmoment, hnow, hx⟩ := hstage
      cases hends : endsAt with
      | none =>
          simp only [Stage.nextMoment, hends, Option.all_some, decide_eq_true_eq] at hnext
          rw [hends] at hendsAt
          refine ⟨hdeadline, moment, takes, hletGo, hgone, hendsAt, by omega, by omega, ?_⟩
          intro y hy
          cases hy
      | some x =>
          simp only [Stage.nextMoment, hends, Option.all_some, decide_eq_true_eq] at hnext
          rw [hends] at hendsAt
          refine ⟨hdeadline, moment, takes, hletGo, hgone, hendsAt, by omega, by omega, ?_⟩
          intro y hy
          cases hy
          omega
  | finished =>
      rw [hs] at hstage
      obtain ⟨moment, takes, before, hletGo, hgone, hmoment, hm, hover, hlast⟩ := hstage
      exact ⟨moment, takes, before, hletGo, hgone, by omega, hm, by omega, hlast⟩

theorem Pace.finish {t : Tasks σ} (h : Pace since limit deadline t) :
    Pace since limit deadline (t.step .finish) := by
  refine ⟨h.since_le, ended_step h.ended .finish, ?_⟩
  have hstage := h.stage
  have hlater : (∀ f, t.endedAt = some f → f = t.now) →
      ∀ f, t.endedAt.or (some t.now) = some f → f = t.now := by
    intro hlast f hf
    cases hended : t.endedAt with
    | none =>
        rw [hended] at hf
        exact (Option.some.inj hf).symm
    | some f' =>
        rw [hended] at hf
        exact hlast f (hended.trans hf)
  show t.stage.Paced since limit deadline t.now (t.endedAt.or (some t.now)) t.letGo t.todo t.marks
  cases hs : t.stage with
  | serving => rw [hs] at hstage; exact hstage
  | lost => rw [hs] at hstage; exact hstage
  | draining timeout limit' deadline' =>
      rw [hs] at hstage
      obtain ⟨hlimit, hdeadline, hm, hnow, hlast⟩ := hstage
      exact ⟨hlimit, hdeadline, hm, hnow, hlater hlast⟩
  | cancelling deadline' =>
      rw [hs] at hstage
      obtain ⟨hdeadline, hm, hge, hnow, hlast⟩ := hstage
      exact ⟨hdeadline, hm, hge, hnow, hlater hlast⟩
  | closing endsAt deadline' =>
      rw [hs] at hstage
      obtain ⟨hdeadline, moment, takes, hletGo, hgone, hendsAt, hmoment, hnow, hx⟩ := hstage
      exact ⟨hdeadline, moment, takes, hletGo, hgone.later hmoment, hendsAt, hmoment, hnow, hx⟩
  | finished =>
      rw [hs] at hstage
      obtain ⟨moment, takes, before, hletGo, hgone, hmoment, hm, hover, hlast⟩ := hstage
      exact ⟨moment, takes, before, hletGo, hgone.later hmoment, hmoment, hm, hover, hlast⟩

theorem Pace.step {t : Tasks σ} (h : Pace since limit deadline t) (hd : limit ≤ deadline)
    {u : Turn} (hallowed : t.isPunctual u = true) : Pace since limit deadline (t.step u) := by
  rcases turn_cases u with ⟨exitFirst, rfl⟩ | rfl | hu
  · exact h.wake hd exitFirst
  · exact h.act
  · rcases clock_cases t u with ⟨time, rfl⟩ | rfl | ⟨hnow, hended⟩
    · exact h.pass hallowed
    · exact h.finish
    · have hb := beside_step t hu
      have hmarks : (t.step u).marks = t.marks := by
        rw [marks, marks, planned_step hallowed hu.1]
      refine ⟨by rw [hnow]; exact h.since_le, ended_step h.ended u, ?_⟩
      rw [hb.stage, hnow, hended, hb.letGo, hb.todo, hmarks]
      exact h.stage

/-- A stop that is taken up keeps pace from then on. -/
theorem pace_start {t : Tasks σ} {exitFirst : Bool} {cue : Cue} (hserving : t.stage = .serving)
    (hidle : t.planned = []) (hpast : ∀ f, t.endedAt = some f → f ≤ t.now)
    (hcue : (t.sight exitFirst).cue = some cue)
    (hd : t.now + cue.drain.nanos + t.grace.nanos < endOfTime) :
    Pace t.now (t.now + cue.drain.nanos) (t.now + cue.drain.nanos + t.grace.nanos)
      (t.wake exitFirst) := by
  have hdeadline : deadline? t.now cue.drain t.grace =
      some (t.now + cue.drain.nanos + t.grace.nanos) := by
    simp only [deadline?, hd, if_true]
  obtain ⟨⟨acts, stage⟩, hstep⟩ :
      ∃ next, t.stage.step t.grace (t.sight exitFirst) = some next := by
    refine Option.ne_none_iff_exists'.mp ?_
    intro hnone
    rw [hserving] at hnone
    simp [Stage.step, hcue] at hnone
  simp only [planned, List.append_eq_nil_iff, List.map_eq_nil_iff] at hidle
  have hsteps := Stage.steps_of_step hstep
  rw [hserving] at hsteps
  have hpaced := paced_start t.letGo hsteps hcue hdeadline rfl hpast
  rw [wake_of_step hidle.2 hstep]
  refine ⟨Nat.le_refl _, hpast, ?_⟩
  show stage.Paced t.now _ _ t.now t.endedAt _ acts
    ((t.done ++ acts.map (t.now, ·)).filter (·.2.isMark))
  rw [planned_filter, hidle.1, List.filter_nil, List.nil_append]
  exact hpaced

/-- A server that keeps pace is being stopped. -/
theorem Pace.begun {t : Tasks σ} (h : Pace since limit deadline t) :
    t.stage ≠ .serving ∧ t.stage ≠ .lost := by
  have hstage := h.stage
  refine ⟨fun hs => ?_, fun hs => ?_⟩ <;> rw [hs] at hstage <;> exact hstage

end Tasks

end EmbedServer.Lifecycle
