/-
Health follows the lifecycle.

Before its start has succeeded nobody writes the registry that a server has been given, so no key
serves.  From then on anybody may write it, up to the moment at which it is frozen.  Freezing belongs
to the first things that the supervisor does once it takes up a stop, together with leaving the state
in which the server runs, so between two of its waits either nothing of a stop has been done and the
server runs, or the registry is frozen.

A frozen registry is not written any more: others ask the flag first, and the supervisor does not
freeze it twice.
-/
import EmbedServer.Lifecycle.Life
import EmbedServer.Proofs.Health.History
import EmbedServer.Proofs.Lifecycle.Order

namespace EmbedServer

namespace Lifecycle

variable {σ : Type}

namespace Act

theorem IsOut.allOut {r : Health.Registry} (h : IsOut r) : r.AllOut :=
  fun key hkey => h.2 key _ (Health.Registry.mem_snapshot_get hkey)

theorem IsOut.not_serving {r : Health.Registry} (h : IsOut r) (key : String) :
    r.get key ≠ .serving := by
  by_cases hkey : key ∈ r.keys
  · rw [h.allOut key hkey]
    simp
  · rw [Health.Registry.get_of_not_mem hkey]
    simp

/-- Only a freeze writes a registry that is frozen. -/
theorem health_apply_of_frozen {s : Http.Server σ} (h : s.core.health.frozen = true) {a : Act}
    (ha : a ≠ .freeze) : (apply s a).core.health = s.core.health := by
  cases a with
  | advance next =>
      simp only [apply, applyCore, advanceCore]
      split <;> rfl
  | publish key status => exact Health.Registry.set_of_frozen h key status
  | freeze => exact absurd rfl ha
  | _ => rfl

end Act

/-! ### Between two waits of the supervisor

The supervisor leaves the state in which the server runs and freezes the registry in one go.  So somebody
who looks between two of its waits finds that it has done both or neither.
-/

namespace Tasks

/-- Either nothing of a stop has been done, or the registry is frozen. -/
theorem Orderly.between {t : Tasks σ} (h : t.Orderly) (htodo : t.todo = []) :
    t.state = .running ∨ .freeze ∈ t.milestones := by
  obtain ⟨cancelled, htold⟩ := h.told
  rw [htodo, List.filter_nil, List.append_nil] at htold
  have hstate : t.state = stateOf t.milestones := h.state
  rw [hstate, htold]
  cases t.stage with
  | serving => exact Or.inl rfl
  | lost => exact Or.inl rfl
  | _ => exact Or.inr (by simp [Stage.told, script, opening])

theorem Orderly.health_serving {t : Tasks σ} (h : t.Orderly) (htodo : t.todo = []) {key : String}
    (hserving : t.wire.core.health.get key = .serving) : t.state = .running := by
  rcases h.between htodo with hrun | hfrozen
  · exact hrun
  · exact absurd hserving ((h.health hfrozen).not_serving key)

theorem Orderly.freeze_of_stop {t : Tasks σ} (h : t.Orderly) (htodo : t.todo = [])
    (hstop : t.state = .stopping ∨ t.state = .stopped) : .freeze ∈ t.milestones := by
  rcases h.between htodo with hrun | hfrozen
  · rw [hrun] at hstop
    simp at hstop
  · exact hfrozen

/-- What has been done of a stop is not done again. -/
theorem Orderly.freeze_once {t : Tasks σ} (h : t.Orderly) (hfrozen : .freeze ∈ t.milestones) :
    .freeze ∉ t.todo := by
  intro hmem
  obtain ⟨cancelled, htold⟩ := h.told
  obtain ⟨c, hwithin⟩ := told_within cancelled t.stage
  rw [← htold] at hwithin
  have hmost : (t.milestones ++ t.todo.filter Act.isMilestone).count .freeze ≤ 1 :=
    Nat.le_trans (hwithin.sublist.count_le .freeze) (by cases c <;> decide)
  have hdone : 0 < t.milestones.count .freeze := List.count_pos_iff.mpr hfrozen
  have htodo : 0 < (t.todo.filter Act.isMilestone).count .freeze :=
    List.count_pos_iff.mpr (List.mem_filter.mpr ⟨hmem, rfl⟩)
  rw [List.count_append] at hmost
  omega

/-- How a server stands once its registry is frozen, and left with these entries. -/
structure Out (r : Health.Registry) (t : Tasks σ) : Prop where
  orderly : t.Orderly
  frozen : .freeze ∈ t.milestones
  health : t.wire.core.health = r

theorem Out.step {r : Health.Registry} {t : Tasks σ} (h : Out r t) (u : Turn) : Out r (t.step u) := by
  have hflag : t.wire.core.health.frozen = true := (h.orderly.health h.frozen).1
  refine ⟨h.orderly.step u, ?_, ?_⟩
  · rcases turn_cases u with ⟨exitFirst, rfl⟩ | rfl | hu
    · show _ ∈ (t.wake exitFirst).milestones
      rcases wake_cases t exitFirst with heq | ⟨acts, stage, -, -, heq⟩ <;> rw [heq] <;>
        exact h.frozen
    · show _ ∈ t.act.milestones
      rcases act_cases t with ⟨-, heq⟩ | ⟨a, rest, -, heq⟩ <;> rw [heq]
      · exact h.frozen
      · show _ ∈ ((t.done ++ [(t.now, a)]).map Prod.snd).filter Act.isMilestone
        rw [milestones_snoc]
        exact List.mem_append_left _ h.frozen
    · rw [milestones, (beside_step t hu).done]
      exact h.frozen
  · rw [← h.health]
    rcases turn_cases u with ⟨exitFirst, rfl⟩ | rfl | hu
    · show (t.wake exitFirst).wire.core.health = _
      rw [wire_wake]
    · show t.act.wire.core.health = _
      rcases act_cases t with ⟨-, heq⟩ | ⟨a, rest, htodo, heq⟩ <;> rw [heq]
      refine Act.health_apply_of_frozen hflag ?_
      intro ha
      exact h.orderly.freeze_once h.frozen (by rw [htodo, ha]; exact List.mem_cons_self)
    · exact (beside_step t hu).health hflag

end Tasks

/-! ### Before the server runs -/

namespace Phase

private theorem withHealth_health (p : Phase σ) : p.withHealth p.health = p := by
  cases p <;> rfl

end Phase

/-- A start that fails publishes nothing, and leaves the server stopped. -/
theorem Blueprint.started_failed (b : Blueprint σ) {binding : Binding}
    (h : ∀ a, binding ≠ .bound a) :
    (b.started binding).core.health = b.core.health ∧
      (b.started binding).core.state = .stopped := by
  cases binding with
  | bound a => exact absurd rfl (h a)
  | failed e => exact ⟨rfl, rfl⟩
  | nameless e => exact ⟨rfl, rfl⟩

namespace Life

theorem run_cons (l : Life σ) (m : Move) (rest : List Move) :
    l.run (m :: rest) = (l.step m).run rest := rfl

theorem follows_cons {l : Life σ} {m : Move} {rest : List Move} :
    l.follows (m :: rest) = true ↔ l.allows m = true ∧ (l.step m).follows rest = true := by
  simp [follows]

/-- What every allowed move keeps, every run of allowed moves keeps. -/
theorem follows_keeps {P : Life σ → Prop}
    (h : ∀ l m, P l → l.allows m = true → P (l.step m)) {l : Life σ} (hl : P l) {moves : List Move}
    (hf : l.follows moves = true) : P (l.run moves) := by
  induction moves generalizing l with
  | nil => exact hl
  | cons m rest ih =>
      obtain ⟨hm, hrest⟩ := follows_cons.mp hf
      exact ih (h l m hl hm) hrest

/-- Who only looks changes nothing about the server. -/
theorem phase_consult {l : Life σ} {op : Health.Session.Op} (h : op.looks = true) :
    (l.consult op).phase = l.phase := by
  show l.phase.withHealth (Health.Session.step ⟨l.health, l.watches⟩ op).2.registry = _
  rw [Health.Session.registry_step h]
  exact l.phase.withHealth_health

/-- Nothing serves before the server runs, and a server that has been started stops in order. -/
def Sound (l : Life σ) : Prop :=
  match l.phase with
  | .ready b | .binding b => ∀ key, b.core.health.get key ≠ .serving
  | .failed s => ∀ key, s.core.health.get key ≠ .serving
  | .started t => t.Orderly

theorem Sound.step {l : Life σ} {m : Move} (h : l.Sound) (hm : l.allows m = true) :
    (l.step m).Sound := by
  cases m with
  | consult op =>
      have hphase : (l.step (.consult op)).phase = l.phase :=
        phase_consult (Bool.and_eq_true_iff.mp hm).2
      unfold Sound
      rw [hphase]
      exact h
  | begin =>
      obtain ⟨phase, watches⟩ := l
      cases phase <;> exact h
  | turn u =>
      obtain ⟨phase, watches⟩ := l
      cases phase with
      | started t => exact Tasks.Orderly.step h u
      | _ => exact h
  | bind binding =>
      obtain ⟨phase, watches⟩ := l
      cases phase with
      | binding b =>
          cases binding with
          | bound a => exact Tasks.orderly_running b a
          | failed e =>
              show ∀ key, (b.started (.failed e)).core.health.get key ≠ .serving
              rw [(b.started_failed (by simp)).1]
              exact h
          | nameless e =>
              show ∀ key, (b.started (.nameless e)).core.health.get key ≠ .serving
              rw [(b.started_failed (by simp)).1]
              exact h
      | _ => exact h

/-- As long as no start has succeeded, nothing serves. -/
theorem Sound.not_serving {l : Life σ} (h : l.Sound) (hs : l.phase.isStarted = false) (key : String) :
    l.health.get key ≠ .serving := by
  obtain ⟨phase, watches⟩ := l
  cases phase with
  | started t => cases hs
  | _ => exact h key

theorem Sound.orderly {l : Life σ} (h : l.Sound) (hs : l.phase.isStarted = true) :
    ∃ t, l.phase = .started t ∧ t.Orderly := by
  obtain ⟨phase, watches⟩ := l
  cases phase with
  | started t => exact ⟨t, rfl, h⟩
  | _ => cases hs

/-- Once its registry is frozen, a started server stays as it is in this. -/
def IsOver (r : Health.Registry) (l : Life σ) : Prop :=
  ∃ t, l.phase = .started t ∧ Tasks.Out r t

theorem IsOver.step {r : Health.Registry} {l : Life σ} {m : Move} (h : IsOver r l)
    (hm : l.allows m = true) : IsOver r (l.step m) := by
  obtain ⟨t, hphase, hout⟩ := h
  cases m with
  | consult op =>
      refine ⟨t, ?_, hout⟩
      rw [← hphase]
      exact phase_consult (Bool.and_eq_true_iff.mp hm).2
  | begin => exact ⟨t, by simp only [Life.step, hphase, Phase.begin], hout⟩
  | bind binding => exact ⟨t, by simp only [Life.step, hphase, Phase.bind], hout⟩
  | turn u => exact ⟨t.step u, by simp only [Life.step, hphase, Phase.turn], hout.step u⟩

/-- **Health follows the lifecycle**: between two steps a key serves only while the server runs; once
a started server stops, every key is not serving and the registry is never written again; and as long
as no start has succeeded, no key serves. -/
theorem health_follows (b : Blueprint σ) (hb : ∀ key, b.core.health.get key ≠ .serving)
    (moves : List Move) (hmoves : (Life.new b).follows moves = true) :
    let l := (Life.new b).run moves
    l.phase.isBetween = true →
      (∀ key, l.health.get key = .serving → l.state = .running) ∧
      (l.phase.isStarted = true → l.state = .stopping ∨ l.state = .stopped →
        l.health.AllOut ∧ ∀ more, l.follows more = true → (l.run more).health = l.health) ∧
      (l.phase.isStarted = false → ∀ key, l.health.get key ≠ .serving) := by
  intro l hbetween
  have hnew : (new b).Sound := hb
  have hsound : l.Sound := follows_keeps (P := Sound) (fun _ _ h hm => h.step hm) hnew hmoves
  cases hstarted : l.phase.isStarted with
  | false =>
      have hnone := hsound.not_serving hstarted
      exact ⟨fun key hkey => absurd hkey (hnone key), fun h => (by cases h), fun _ => hnone⟩
  | true =>
      obtain ⟨t, hphase, horderly⟩ := hsound.orderly hstarted
      have hstate : l.state = t.state := congrArg Phase.state hphase
      have hhealth : l.health = t.wire.core.health := congrArg Phase.health hphase
      have htodo : t.todo = [] := by
        rw [hphase] at hbetween
        exact List.isEmpty_iff.mp hbetween
      rw [hstate, hhealth]
      refine ⟨fun key hkey => horderly.health_serving htodo hkey, ?_, fun h => (by cases h)⟩
      intro _ hstop
      have hfrozen := horderly.freeze_of_stop htodo hstop
      refine ⟨(horderly.health hfrozen).allOut, ?_⟩
      intro more hmore
      obtain ⟨t', hphase', hout⟩ := follows_keeps (P := IsOver t.wire.core.health)
        (fun _ _ h hm => h.step hm) ⟨t, hphase, horderly, hfrozen, rfl⟩ hmore
      rw [show (l.run more).health = t'.wire.core.health from congrArg Phase.health hphase']
      exact hout.health

theorem health_follows_stop :
    let b := { Blueprint.trial [] .zero (.ofMillis 500) with healthKeys := ["model"] }
    let moves : List Move := [.consult (.get "model"), .begin, .bind (.bound Blueprint.home),
      .consult (.open "probe" "model"), .turn (.publish "model" .serving),
      .turn (.trigger (.ofMillis 100)), .turn .send, .turn (.wake false), .turn .act, .turn .act,
      .turn .act, .turn .act, .turn (.publish "model" .serving), .consult (.poll "probe")]
    let l := (new b).run moves
    (∀ key, b.core.health.get key ≠ .serving) ∧ (new b).follows moves = true ∧
      l.phase.isBetween = true ∧ l.phase.isStarted = true ∧ l.state = .stopping ∧
      l.health.keys = ["model"] ∧ l.health.AllOut := by
  intro b moves l
  have hb : ∀ key, b.core.health.get key ≠ .serving := by
    intro key
    show Health.Status.unknown ≠ .serving
    decide
  refine ⟨hb, by decide, by decide, by decide, by decide, by decide, ?_⟩
  exact ((health_follows b hb moves (by decide) (by decide)).2.1 (by decide) (by decide)).1

end Life

end Lifecycle

end EmbedServer
