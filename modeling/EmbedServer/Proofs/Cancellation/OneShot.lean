/-
A cancellation is told once, for good, and to everybody.

What an outline says of a history (`Proofs/Cancellation/History`) holds of every session that the outline is
of: over every channel that keeps its promises, after every history.  `Session.Truthful` puts it together.
-/
import EmbedServer.Proofs.Cancellation.History

namespace EmbedServer.Cancellation

/-! ### Sessions -/

namespace Session

/-- The session that a history leads to. -/
def reached (c : Channel Bool) (history : List Op) : Session c := (start c).after history

/-- Whether a name is a notifier's. -/
def Knows {c : Channel Bool} (s : Session c) (id : String) : Prop :=
  (s.notifiers.lookup id).isSome = true

/-- What a session tells after a history. -/
structure Truthful (c : Channel Bool) (history : List Op) : Prop where
  /-- Firing tells whether this is the first time. -/
  fire : holds history = true → ((reached c history).step .fire).1 = .flag (!fires history)
  isFired : holds history = true → ((reached c history).step .isFired).1 = .flag (fires history)
  /-- Notifiers come from the owner or from one another, and stay. -/
  subscribe : ∀ id, holds history = true → ¬(reached c history).Knows id →
    ((reached c history).step (.subscribe id)).1 = .flag true ∧
      (reached c (history ++ [.subscribe id])).Knows id
  clone : ∀ id source, (reached c history).Knows source → ¬(reached c history).Knows id →
    ((reached c history).step (.clone id source)).1 = .flag true ∧
      (reached c (history ++ [.clone id source])).Knows id
  stays : ∀ id more, (reached c history).Knows id → (reached c (history ++ more)).Knows id
  notified : ∀ id, (reached c history).Knows id →
    ((reached c history).step (.notified id)).1 = .flag (fires history)
  /-- Once the signal has fired every notifier sees it, whatever is done from then on. -/
  sticky : ∀ id more, fires history = true → (reached c (history ++ more)).Knows id →
    ((reached c (history ++ more)).step (.notified id)).1 = .flag true
  /-- A wait that is begun now is ready at once if the signal has fired, and else not. -/
  wait : ∀ id notifier, (reached c history).Knows notifier →
    ((reached c (history ++ [.begin id notifier])).step (.poll id)).1 =
      if fires history then .fired else .pending
  /-- So is any wait that was begun earlier and has not been ready yet. -/
  poll : ∀ id notifier front later, history = front ++ .begin id notifier :: later →
    (reached c front).Knows notifier →
    .fired ∉ heard id later ((reached c (front ++ [.begin id notifier])).run later) →
    ((reached c history).step (.poll id)).1 = if fires history then .fired else .pending
  /-- If the owner has let go without firing, nobody is ever told otherwise. -/
  never : holds history = false → fires history = false → ∀ more, .fired ∉ (reached c history).run more
  /-- The owner's letting go makes no difference to the notifiers. -/
  release : ∀ more, (∀ op ∈ more, op.ofOwner = false) →
    (reached c (history ++ [.release])).run more = (reached c history).run more
  /-- What anybody else does makes no difference but to what it makes or moves. -/
  apart : ∀ op more, op.fires = false → op.releases = false →
    (∀ x, op.moves = some x → ∀ later ∈ more, later.concerns x = false) →
    (reached c (history ++ [op])).run more = (reached c history).run more

variable {c : Channel Bool}

theorem knows_iff {s : Session c} {id : String} : s.Knows id ↔ id ∈ s.outline.notifiers := by
  unfold Knows
  cases h : s.notifiers.lookup id with
  | some r => exact iff_of_true rfl (mem_notifiers h)
  | none => exact iff_of_false Bool.false_ne_true (not_mem_notifiers h)

/-- The outline that a history leads to. -/
def outlined (history : List Op) : Outline := Outline.after ⟨Signal.new, [], []⟩ history

private theorem outlined_append (history more : List Op) :
    outlined (history ++ more) = (outlined history).after more := List.foldl_append

private theorem outlined_signal (history : List Op) :
    (outlined history).signal = ⟨fires history, holds history⟩ := by
  rw [outlined, Outline.signal_after]
  simp [Signal.new]

/-- What a history leads to, in outline. -/
structure Leads (t : c.Terms) (history : List Op) : Prop where
  knows : ∀ id, (reached c history).Knows id ↔ id ∈ (outlined history).notifiers
  step : ∀ op, ((reached c history).step op).1 = ((outlined history).step op).1
  run : ∀ ops, (reached c history).run ops = (outlined history).run ops

private theorem leads {t : c.Terms} (lawful : t.Lawful) (history : List Op) : Leads t history := by
  obtain ⟨hsound, houtline⟩ := (sound_start lawful).after lawful history
  rw [outline_start lawful] at houtline
  have houtline : (reached c history).outline = outlined history := houtline
  refine ⟨fun id => ?_, fun op => ?_, fun ops => ?_⟩
  · rw [knows_iff, houtline]
  · rw [← houtline]
    exact (hsound.step lawful op).answer
  · rw [← houtline]
    exact hsound.run lawful ops

/-- A wait that has been begun and not been ready yet is told the truth. -/
theorem step_poll_outlined (id : String) {notifier : String} {front : List Op} (later : List Op)
    (hknows : notifier ∈ (outlined front).notifiers)
    (hheard : .fired ∉ heard id later ((outlined (front ++ [.begin id notifier])).run later)) :
    ((outlined (front ++ .begin id notifier :: later)).step (.poll id)).1 =
      if fires (front ++ .begin id notifier :: later) then .fired else .pending := by
  have hbegun : id ∈ (outlined (front ++ [.begin id notifier])).waits := by
    rw [outlined_append]
    show id ∈ ((outlined front).step (.begin id notifier)).2.waits
    simp only [Outline.step, if_pos hknows]
    exact List.mem_cons_self
  have hwaits := Outline.mem_waits_after hbegun hheard
  rw [← outlined_append, List.append_assoc] at hwaits
  have hpoll := Outline.step_poll hwaits
  rw [outlined_signal] at hpoll
  exact hpoll

/-- **A cancellation is one-shot, sticky and never spurious**, over every channel that keeps its promises
and after every history. -/
theorem cancellation_truthful (h : c.Lawful) (history : List Op) : Truthful c history := by
  obtain ⟨t, lawful⟩ := h
  have hleads := leads lawful history
  have hsignal := outlined_signal history
  have hfired : (outlined history).signal.fired = fires history := by rw [hsignal]
  have hheld : (outlined history).signal.held = holds history := by rw [hsignal]
  have hsnoc : ∀ op, outlined (history ++ [op]) = ((outlined history).step op).2 :=
    fun op => outlined_append history [op]
  constructor
  case fire =>
    intro hholds
    rw [hleads.step]
    simp only [Outline.step, hheld, hholds, if_true, Signal.fire, hfired]
  case isFired =>
    intro hholds
    rw [hleads.step]
    simp only [Outline.step, hheld, hholds, if_true, hfired]
  case subscribe =>
    intro id hholds hknows
    have hid := fun hc => hknows ((hleads.knows id).mpr hc)
    rw [hleads.step, (leads lawful _).knows, hsnoc]
    simp only [Outline.step, hheld, hholds, if_true, Outline.add, if_neg hid]
    exact ⟨trivial, List.mem_cons_self⟩
  case clone =>
    intro id source hsource hknows
    have hid := fun hc => hknows ((hleads.knows id).mpr hc)
    rw [hleads.step, (leads lawful _).knows, hsnoc]
    simp only [Outline.step, if_pos ((hleads.knows source).mp hsource), Outline.add, if_neg hid]
    exact ⟨trivial, List.mem_cons_self⟩
  case stays =>
    intro id more hknows
    rw [(leads lawful _).knows, outlined_append]
    exact Outline.mem_notifiers_after ((hleads.knows id).mp hknows) more
  case notified =>
    intro id _
    rw [hleads.step]
    simp only [Outline.step, hfired]
  case sticky =>
    intro id more hfires _
    rw [(leads lawful _).step]
    simp only [Outline.step, outlined_signal, fires_append hfires]
  case wait =>
    intro id notifier hknows
    have hpoll := step_poll_outlined id [] ((hleads.knows notifier).mp hknows) List.not_mem_nil
    have hsame : fires (history ++ [.begin id notifier]) = fires history := by
      have hlater := outlined_signal (history ++ [.begin id notifier])
      rw [hsnoc, Outline.signal_step rfl rfl, hsignal] at hlater
      exact (congrArg Signal.fired hlater).symm
    rw [(leads lawful _).step, hpoll, hsame]
  case poll =>
    rintro id notifier front later rfl hknows hheard
    rw [(leads lawful front).knows] at hknows
    rw [(leads lawful _).run] at hheard
    rw [hleads.step]
    exact step_poll_outlined id later hknows hheard
  case never =>
    intro hholds hfires more
    rw [hleads.run]
    exact Outline.fired_not_mem_run (hfired.trans hfires) (hheld.trans hholds) more
  case release =>
    intro more hmore
    rw [(leads lawful _).run, hleads.run, hsnoc]
    exact (outlined history).run_released hmore
  case apart =>
    intro op more hfires hreleases hmore
    rw [(leads lawful _).run, hleads.run, hsnoc]
    exact Outline.run_step hfires hreleases hmore

/-- A notifier, its clone and a notifier that comes late; waits begun before and after the signal fired,
polled after the owner has let go; and an owner that lets go without firing. -/
theorem cancellation_truthful_late :
    let fired : List Op := [.subscribe "a", .begin "early" "a", .poll "early", .clone "b" "a", .fire,
      .fire, .subscribe "late", .release]
    let unfired : List Op := [.subscribe "a", .begin "early" "a", .release, .poll "early"]
    (counted Bool).Lawful ∧ Truthful (counted Bool) fired ∧ Truthful (counted Bool) unfired ∧
      new.run (fired ++ [.poll "early", .wait "late", .poll "late", .notified "b"]) =
        [.flag true, .done, .pending, .flag true, .flag true, .flag false, .flag true, .flag true,
          .fired, .done, .fired, .flag true] ∧
      new.run (unfired ++ [.poll "early", .fire, .notified "a"]) =
        [.flag true, .done, .flag true, .pending, .pending, .released, .flag false] := by
  intro fired unfired
  exact ⟨counted_lawful Bool, cancellation_truthful (counted_lawful Bool) fired,
    cancellation_truthful (counted_lawful Bool) unfired, by decide, by decide⟩

end Session

end EmbedServer.Cancellation
