/-
A stop can always go on to its end.

The measure is

    μ(t) = open requests + stages left + (1 unless the transport has ended)

and as long as somebody has something to do at this moment there is a turn that lowers it: a look at
a call that is due answers it, a look at a stream ends it since no more calls are taken, a transport
with nothing under way ends, and a wake leads to a later stage.  When nobody has anything to do, the
clock may go on to the next moment at which a call or the supervisor is due, and then somebody has.

Time passes only in such moments, so the run that is found is a prompt one.
-/
import EmbedServer.Proofs.Lifecycle.Order

namespace EmbedServer

namespace Http

variable {σ : Type}

/-- Whether a request is still under way. -/
def Exchange.isOpen (e : Exchange σ) : Bool :=
  match e.phase with
  | .waiting _ _ | .following _ _ => true
  | .complete | .dropped => false

/-- Once no more calls are taken, a stream that is looked at is over. -/
theorem Follow.isOver_take (r : Health.Registry) (f : Follow) : (f.take r true).2.isOver = true := by
  cases h : f.watch with
  | none => simp [take, pollAll, poll, h, isOver]
  | some w => simp [take, pollAll, poll, h, isOver]

namespace Server

/-- How many requests are under way. -/
def openCount (s : Server σ) : Nat := s.exchanges.countP Exchange.isOpen

private theorem openCount_put {s : Server σ} {i : Nat} {e e' : Exchange σ} (h : s.exchanges[i]? = some e)
    (hopen : e.isOpen = true) (hover : e'.isOpen = false) :
    (s.put i e').openCount < s.openCount := by
  obtain ⟨hi, hget⟩ := List.getElem?_eq_some_iff.mp h
  have hpos : 0 < s.openCount := List.countP_pos_iff.mpr ⟨e, List.mem_of_getElem? h, hopen⟩
  have hset : (s.put i e').openCount = s.openCount - 1 := by
    simp only [openCount, put]
    rw [List.countP_set hi, hget, hopen, hover]
    simp
  omega

/-- A look at a request that has something to do ends it, once no more calls are taken. -/
theorem openCount_look {s : Server σ} {i : Nat} {e : Exchange σ} (h : s.exchanges[i]? = some e)
    (hdraining : s.draining.ready = true) (hready : s.isReady e = true) :
    (s.look i).openCount < s.openCount := by
  cases hp : e.phase with
  | waiting request p =>
      simp only [isReady, hp] at hready
      rcases look_cases s i with ⟨hlook, hnone⟩ | ⟨e', f, heard, he', hp', -⟩ |
        ⟨e', request', p', w, c', after, o, he', hp', hw, hpoll, -, hlook, -⟩
      · exfalso
        have hpend : s.pending? i = some (request, p) := by
          simp [pending?, h, Exchange.pending?, hp]
        obtain ⟨w, hw⟩ := Option.isSome_iff_exists.mp hready
        obtain ⟨c', after, hpoll⟩ := Call.Core.poll_outcome s.core p hw
        rw [outcomeAt?, hpend] at hnone
        simp only [hpoll] at hnone
        cases hnone
      · rw [h] at he'
        cases he'
        rw [hp] at hp'
        cases hp'
      · rw [hlook]
        rw [h] at he'
        cases he'
        exact openCount_put (s := { s with core := c' }) h (by simp [Exchange.isOpen, hp]) rfl
  | following f heard =>
      have hlook : s.look i = s.put i (s.followUp e f heard) := by simp [look, h, hp]
      rw [hlook]
      refine openCount_put h (by simp [Exchange.isOpen, hp]) ?_
      have hover := f.isOver_take s.core.health
      simp only [followUp, hdraining, hover, if_true, Exchange.isOpen]
  | complete => simp [isReady, hp] at hready
  | dropped => simp [isReady, hp] at hready

/-- The call that is due first. -/
theorem nextMoment_eq_some {s : Server σ} {m : Nat} (h : s.nextMoment = some m) :
    ∃ e request p, e ∈ s.exchanges ∧ e.phase = .waiting request p ∧ p.race.nextMoment = m := by
  have hmem := List.min?_mem h
  obtain ⟨e, he, hm⟩ := List.mem_filterMap.mp hmem
  cases hp : e.phase <;> simp only [hp, Option.some.injEq, reduceCtorEq] at hm
  exact ⟨e, _, _, he, hp, hm⟩

end Server

end Http

namespace Lifecycle

variable {σ : Type}

/-! ### Stages -/

/-- A stage at which the supervisor rests has not come to its next moment. -/
theorem Stage.lt_of_rest {grace : Duration} {v : Sight} {stage : Stage} {m : Nat}
    (h : stage.step grace v = none) (hm : stage.nextMoment = some m) : v.now < m := by
  refine Nat.lt_of_not_le ?_
  intro hle
  cases stage with
  | serving => simp [nextMoment] at hm
  | finished => simp [nextMoment] at hm
  | lost => simp [nextMoment] at hm
  | draining timeout limit deadline =>
      simp only [nextMoment, Option.some.injEq] at hm
      rw [← hm] at hle
      simp only [step, hle, if_true] at h
      split at h
      · cases h
      · split at h <;> cases h
  | cancelling deadline =>
      simp only [nextMoment, Option.some.injEq] at hm
      rw [← hm] at hle
      simp only [step, hle, if_true] at h
      split at h <;> cases h
  | closing endsAt deadline =>
      cases hends : endsAt with
      | none =>
          simp only [nextMoment, hends, Option.some.injEq] at hm
          rw [← hm] at hle
          simp [step, hends, hle] at h
      | some x =>
          simp only [nextMoment, hends, Option.some.injEq] at hm
          by_cases hx : x ≤ v.now
          · simp [step, hends, hx] at h
          · have hd : deadline ≤ v.now := by omega
            simp [step, hends, hx, hd] at h

/-! ### Turns that help

The run is put together from three kinds of turns, none of which raises the measure: the supervisor does
what it has decided on (`flush`), somebody does what he has to do (`hurry`), and time passes when nobody
has anything to do (`wait`).
-/

namespace Tasks

/-- What is left to be done. -/
def measure (t : Tasks σ) : Nat :=
  t.wire.openCount + t.stage.left + if t.endedAt.isSome then 0 else 1

/-- A server whose stop is under way, with a supervisor that waits. -/
structure Stopping (t : Tasks σ) : Prop where
  orderly : t.Orderly
  begun : t.stage ≠ .serving
  kept : t.stage ≠ .lost
  todo : t.todo = []

theorem Stopping.draining {t : Tasks σ} (h : t.Stopping) : t.wire.draining.ready = true := by
  obtain ⟨cancelled, htold⟩ := h.orderly.told
  rw [h.todo, List.filter_nil, List.append_nil] at htold
  show t.wire.draining.fired = true
  rw [h.orderly.draining, htold, List.contains_iff_mem]
  cases hs : t.stage with
  | serving => exact absurd hs h.begun
  | lost => exact absurd hs h.kept
  | draining timeout limit deadline => simp [Stage.told, opening]
  | cancelling deadline => simp [Stage.told, opening]
  | closing endsAt deadline => simp [Stage.told, opening]
  | finished => simp [Stage.told, script, opening]

/-- The supervisor does what it has decided on. -/
theorem flush {t : Tasks σ} (ho : t.Orderly) (hs : t.stage ≠ .serving) (hl : t.stage ≠ .lost) :
    ∃ more, follows isPrompt t more = true ∧ (t.run more).Stopping ∧
      (t.run more).measure = t.measure := by
  generalize hn : t.todo.length = n
  induction n generalizing t with
  | zero => exact ⟨[], rfl, ⟨ho, hs, hl, List.length_eq_zero_iff.mp hn⟩, rfl⟩
  | succ n ih =>
      rcases act_cases t with ⟨hnil, -⟩ | ⟨a, rest, htodo, heq⟩
      · rw [hnil] at hn
        cases hn
      · have hact : t.step .act = { t with
            wire := Act.apply t.wire a, todo := rest, done := t.done ++ [(t.now, a)] } := heq
        have hlen : (t.step .act).todo.length = n := by
          rw [hact]
          rw [htodo, List.length_cons] at hn
          exact Nat.succ.inj hn
        have hstage : (t.step .act).stage = t.stage := by rw [hact]
        have hmeasure : (t.step .act).measure = t.measure := by
          rw [hact]
          simp only [measure, Http.Server.openCount, (Act.frame_apply t.wire a).exchanges]
        obtain ⟨more, hf, hstop, hm⟩ := ih (ho.step .act) (by rw [hstage]; exact hs)
          (by rw [hstage]; exact hl) hlen
        exact ⟨.act :: more, follows_cons.mpr ⟨rfl, hf⟩, hstop, hm.trans hmeasure⟩

/-- If somebody has something to do, there is a turn that helps. -/
theorem hurry {t : Tasks σ} (h : t.Stopping) (hbusy : t.isQuiet = false) :
    ∃ more, follows isPrompt t more = true ∧ (t.run more).Stopping ∧
      (t.run more).measure < t.measure := by
  have hwhole : t.todo.isEmpty = true := by rw [h.todo]; rfl
  have hbeside : ∀ u, IsOther u → (t.step u).Stopping := by
    intro u hu
    have hb := beside_step t hu
    exact ⟨h.orderly.step u, by rw [hb.stage]; exact h.begun, by rw [hb.stage]; exact h.kept,
      by rw [hb.todo]; exact h.todo⟩
  simp only [isQuiet, Bool.and_eq_false_iff] at hbusy
  rcases hbusy with (hrest | hready) | hended
  · -- The supervisor wakes.
    obtain ⟨⟨acts, stage⟩, hstep⟩ : ∃ next, t.stage.step t.grace (t.sight false) = some next := by
      refine Option.ne_none_iff_exists'.mp ?_
      intro hnone
      simp [rests, hwhole, hnone] at hrest
    have hsteps := Stage.steps_of_step hstep
    have hlater := hsteps.left_lt
    have hstage : (t.step (.wake false)).stage = stage := by
      rw [show t.step (.wake false) = t.wake false from rfl, wake_of_step h.todo hstep]
    obtain ⟨more, hf, hstop, hm⟩ := flush (h.orderly.step (.wake false))
      (by rw [hstage]; exact hsteps.ne_serving) (by rw [hstage]; exact hsteps.ne_lost h.begun)
    refine ⟨.wake false :: more, follows_cons.mpr ⟨by simp [isPrompt, isWhole, isServed, hwhole],
      hf⟩, hstop, ?_⟩
    have hwire : (t.step (.wake false)).wire = t.wire := wire_wake t false
    have hend : (t.step (.wake false)).endedAt = t.endedAt := endedAt_wake t false
    rw [run_cons, hm, measure, measure, hstage, hwire, hend]
    omega
  · -- A request has something to do.
    obtain ⟨e, he, hr⟩ := List.all_eq_false.mp hready
    obtain ⟨i, hi⟩ := List.getElem?_of_mem he
    have hlook : IsOther (.look i) := ⟨fun _ => nofun, nofun⟩
    refine ⟨[.look i], follows_cons.mpr ⟨by simp [isPrompt, isWhole, isServed, hwhole], rfl⟩,
      hbeside _ hlook, ?_⟩
    have hlt := Http.Server.openCount_look hi h.draining (by simpa using hr)
    show (t.wire.look i).openCount + t.stage.left + _ < t.measure
    simp only [measure]
    exact Nat.add_lt_add_right (Nat.add_lt_add_right hlt _) _
  · -- The transport ends.
    simp only [Bool.or_eq_false_iff, Bool.not_eq_false'] at hended
    have hfinish : IsOther .finish := ⟨fun _ => nofun, nofun⟩
    refine ⟨[.finish], follows_cons.mpr ⟨by simp [isPrompt, isWhole, isServed, hwhole, hended.2],
      rfl⟩, hbeside _ hfinish, ?_⟩
    have hnone : t.endedAt = none := by simpa using hended.1
    show t.wire.openCount + t.stage.left + (if (t.endedAt.or (some t.now)).isSome then 0 else 1) < _
    simp [measure, hnone]

/-- While nobody has anything to do, the supervisor is not due. -/
theorem lt_of_isQuiet {t : Tasks σ} {m : Nat} (h : t.isQuiet = true)
    (hm : t.stage.nextMoment = some m) : t.now < m := by
  simp only [isQuiet, rests, Bool.and_eq_true, Option.isNone_iff_eq_none] at h
  obtain ⟨⟨⟨-, hrest⟩, -⟩, -⟩ := h
  exact Stage.lt_of_rest hrest hm

/-- While nobody has anything to do, no call is due. -/
theorem wire_lt_of_isQuiet {t : Tasks σ} {w : Nat} (h : t.isQuiet = true)
    (hw : t.wire.nextMoment = some w) : t.now < w := by
  simp only [isQuiet, Bool.and_eq_true] at h
  obtain ⟨⟨-, hready⟩, -⟩ := h
  obtain ⟨e, request, p, he, hp, hpm⟩ := Http.Server.nextMoment_eq_some hw
  have hnot := List.all_eq_true.mp hready e he
  simp only [Http.Server.isReady, hp, Bool.not_eq_true', Option.isSome_eq_false_iff,
    Option.isNone_iff_eq_none] at hnot
  rw [← hpm]
  exact (Call.Race.winner?_eq_none.mp hnot).2

/-- Once the clock has come to a moment at which something is due, somebody has something to do. -/
theorem rouse {t : Tasks σ} {m : Nat} (hlt : t.now < m)
    (hdue : t.stage.nextMoment = some m ∨ t.wire.nextMoment = some m) :
    (t.step (.pass ⟨m - t.now⟩)).isQuiet = false := by
  cases hq : (t.step (.pass ⟨m - t.now⟩)).isQuiet with
  | false => rfl
  | true =>
      exfalso
      have hsoon : t.now + (m - t.now) < m := by
        rcases hdue with hm | hw
        · exact lt_of_isQuiet hq hm
        · exact wire_lt_of_isQuiet hq hw
      omega

/-- If nobody has anything to do, time may pass until somebody has. -/
theorem wait {t : Tasks σ} (h : t.Stopping) (hquiet : t.isQuiet = true) (hf : t.stage ≠ .finished) :
    ∃ time, t.isPrompt (.pass time) = true ∧ (t.step (.pass time)).Stopping ∧
      (t.step (.pass time)).isQuiet = false ∧ (t.step (.pass time)).measure = t.measure := by
  obtain ⟨m, hm⟩ : ∃ m, t.stage.nextMoment = some m := by
    cases hs : t.stage with
    | serving => exact absurd hs h.begun
    | lost => exact absurd hs h.kept
    | finished => exact absurd hs hf
    | draining timeout limit deadline => exact ⟨_, rfl⟩
    | cancelling deadline => exact ⟨_, rfl⟩
    | closing endsAt deadline => exact ⟨_, rfl⟩
  have hlate : t.now < m := lt_of_isQuiet hquiet hm
  have hpass : ∀ time, (t.step (.pass time)).Stopping := by
    intro time
    exact ⟨h.orderly.step _, h.begun, h.kept, h.todo⟩
  -- Whose moment comes first?
  by_cases hfirst : ∃ w, t.wire.nextMoment = some w ∧ w < m
  · obtain ⟨w, hw, hlt⟩ := hfirst
    have hcalm : t.now < w := wire_lt_of_isQuiet hquiet hw
    have hnow : t.now + (w - t.now) = w := by omega
    refine ⟨⟨w - t.now⟩, ?_, hpass _, rouse hcalm (Or.inr hw), rfl⟩
    simp only [isPrompt, hquiet, hm, hw, hnow, Option.all_some, Nat.le_refl, Nat.le_of_lt hlt,
      decide_true, Bool.and_self]
  · have hnow : t.now + (m - t.now) = m := by omega
    have hall : t.wire.nextMoment.all (m ≤ ·) = true := by
      cases hw : t.wire.nextMoment with
      | none => rfl
      | some w =>
          simp only [Option.all_some, decide_eq_true_eq]
          exact Nat.le_of_not_lt fun hlt => hfirst ⟨w, hw, hlt⟩
    refine ⟨⟨m - t.now⟩, ?_, hpass _, rouse hlate (Or.inl hm), rfl⟩
    simp only [isPrompt, hquiet, hm, hnow, hall, Option.all_some, Nat.le_refl, decide_true,
      Bool.and_self]

/-- A stop under way gets to its end. -/
theorem Stopping.reaches {t : Tasks σ} (h : t.Stopping) :
    ∃ more, follows isPrompt t more = true ∧ (t.run more).state = .stopped := by
  generalize hn : t.measure = n
  induction n using Nat.strongRecOn generalizing t with
  | _ n ih =>
      have hbusy : ∀ t' : Tasks σ, t'.Stopping → t'.measure = n → t'.isQuiet = false →
          ∃ more, follows isPrompt t' more = true ∧ (t'.run more).state = .stopped := by
        intro t' h' hn' hq
        obtain ⟨more, hf, hstop, hlt⟩ := hurry h' hq
        obtain ⟨rest, hrest, hend⟩ := ih _ (by omega) hstop rfl
        exact ⟨more ++ rest, follows_append.mpr ⟨hf, hrest⟩, by rw [run_append]; exact hend⟩
      by_cases hfinished : t.stage = .finished
      · refine ⟨[], rfl, h.orderly.stopped_iff.mpr ?_⟩
        obtain ⟨cancelled, htold⟩ := h.orderly.told
        rw [h.todo, List.filter_nil, List.append_nil, hfinished] at htold
        rw [htold]
        simp [Stage.told, script]
      · cases hq : t.isQuiet with
        | false => exact hbusy t h hn hq
        | true =>
            obtain ⟨time, hallowed, hstop, hnot, hsame⟩ := wait h hq hfinished
            obtain ⟨more, hf, hend⟩ := hbusy _ hstop (by omega) hnot
            exact ⟨.pass time :: more, follows_cons.mpr ⟨hallowed, hf⟩, hend⟩

/-- **A stop that has been taken up can always go on to its end**, and without anybody being late. -/
theorem stop_reached {t : Tasks σ} (ho : t.Orderly) (hs : t.stage ≠ .serving)
    (hl : t.stage ≠ .lost) :
    ∃ more, follows isPrompt t more = true ∧ (t.run more).state = .stopped := by
  obtain ⟨more, hf, hstop, -⟩ := flush ho hs hl
  obtain ⟨rest, hrest, hend⟩ := hstop.reaches
  exact ⟨more ++ rest, follows_append.mpr ⟨hf, hrest⟩, by rw [run_append]; exact hend⟩

end Tasks

end Lifecycle

end EmbedServer
