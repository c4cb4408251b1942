/-
Transports that end only when they are drained.

Such a transport leaves no call behind, and none comes after it: it is drained once no more calls are taken
and nothing is under way, and then nothing begins to wait any more.
-/
import EmbedServer.Proofs.Lifecycle.Ledger

namespace EmbedServer.Lifecycle.Tasks

variable {σ : Type}

/-! ### Transports that end when they are drained -/

theorem computing_eq_nil {s : Http.Server σ} : s.computing = [] ↔ ∀ id, s.pending? id = none := by
  refine ⟨?_, ?_⟩
  · intro h id
    cases hp : s.pending? id with
    | none => rfl
    | some x =>
        have hmem := Http.Server.mem_computing.mpr ⟨x.1, x.2, hp⟩
        rw [h] at hmem
        cases hmem
  · intro h
    refine List.eq_nil_iff_forall_not_mem.mpr ?_
    intro id hid
    obtain ⟨request, p, hp⟩ := Http.Server.mem_computing.mp hid
    rw [h id] at hp
    cases hp

private theorem computing_of_idle {s : Http.Server σ} (h : s.isIdle = true) : s.computing = [] := by
  refine computing_eq_nil.mpr ?_
  intro id
  cases he : s.exchanges[id]? with
  | none => simp [Http.Server.pending?, he]
  | some e =>
      have hover := List.all_eq_true.mp h e (List.mem_of_getElem? he)
      cases hp : e.phase <;> simp_all [Http.Server.pending?, Http.Exchange.pending?]

/-- While the server does not run, no call begins to wait. -/
theorem pending_late {t : Tasks σ} (hs : t.state ≠ .running) (u : Turn) {id : Nat}
    (h : t.wire.pending? id = none) : (t.step u).wire.pending? id = none := by
  rcases request_cases t u with ⟨r, rfl⟩ | ⟨j, rfl⟩ | ⟨j, rfl⟩ | hu
  · exact (Http.Server.pending?_receive_late hs r id).trans h
  · exact Http.Server.pending?_look_over h j
  · exact pending_leave h
  · exact (hu.pending id).trans h

/-- A signal that has fired stays fired. -/
theorem signals_step (t : Tasks σ) (u : Turn) :
    (t.wire.draining.ready = true → (t.step u).wire.draining.ready = true) ∧
      (t.wire.core.cancel.ready = true → (t.step u).wire.core.cancel.ready = true) := by
  rcases turn_cases u with ⟨exitFirst, rfl⟩ | rfl | hu
  · rw [show (t.step (.wake exitFirst)).wire = t.wire from wire_wake t exitFirst]
    exact ⟨id, id⟩
  · show (_ → t.act.wire.draining.ready = true) ∧ (_ → t.act.wire.core.cancel.ready = true)
    rcases act_cases t with ⟨-, h⟩ | ⟨a, rest, -, h⟩ <;> rw [h]
    · exact ⟨id, id⟩
    · refine ⟨?_, ?_⟩
      · intro hd
        show (Act.apply t.wire a).draining.ready = true
        by_cases ha : a = .drain
        · subst ha
          rfl
        · rw [Act.draining_apply t.wire ha]
          exact hd
      · intro hc
        show (Act.apply t.wire a).core.cancel.ready = true
        by_cases ha : a = .cancel
        · subst ha
          rfl
        · rw [Act.cancel_apply t.wire ha]
          exact hc
  · have hb := beside_step t hu
    rw [hb.draining, hb.cancel]
    exact ⟨id, id⟩

/-- The state has moved before calls are no longer taken. -/
theorem Orderly.late_of_draining {t : Tasks σ} (h : t.Orderly)
    (hd : t.wire.draining.ready = true) : t.state ≠ .running := by
  have hmem : .drain ∈ t.milestones := by
    rw [← List.contains_iff_mem, ← h.draining]
    exact hd
  have hstate : t.state = stateOf t.milestones := h.state
  obtain ⟨c, hwithin⟩ := h.within
  rw [hstate]
  rcases stateOf_within hwithin with ⟨-, hnil⟩ | ⟨hs, -⟩ | ⟨hs, -⟩
  · rw [hnil] at hmem
    cases hmem
  · simp [hs]
  · simp [hs]

/-- A transport that has ended has left no call behind. -/
def Served (t : Tasks σ) : Prop :=
  t.endedAt.isSome = true → t.wire.draining.ready = true ∧ t.wire.computing = []

theorem Served.step {t : Tasks σ} (h : t.Served) (ho : t.Orderly) {u : Turn}
    (hu : t.isServed u = true) : (t.step u).Served := by
  have hkeep : t.endedAt.isSome = true → (t.step u).wire.draining.ready = true ∧
      (t.step u).wire.computing = [] := by
    intro hended
    obtain ⟨hd, hnil⟩ := h hended
    refine ⟨(signals_step t u).1 hd, computing_eq_nil.mpr ?_⟩
    intro id
    exact pending_late (ho.late_of_draining hd) u (computing_eq_nil.mp hnil id)
  rcases clock_cases t u with ⟨time, rfl⟩ | rfl | ⟨-, hended⟩
  · exact hkeep
  · intro _
    simp only [isServed, Http.Server.isDrained, Bool.and_eq_true] at hu
    exact ⟨hu.1, computing_of_idle hu.2⟩
  · intro hsome
    rw [hended] at hsome
    exact hkeep hsome

/-- In a run whose transport ends only when it is drained, it leaves no call behind. -/
theorem served_run (b : Blueprint σ) (a : Net.SocketAddress) {turns : List Turn}
    (hf : follows isServed (b.running a).tasks turns = true) :
    ((b.running a).tasks.run turns).Served := by
  refine (follows_keeps (P := fun t : Tasks σ => t.Orderly ∧ t.Served) ?_ ?_ hf).2
  · exact fun t u h hu => ⟨h.1.step u, h.2.step h.1 hu⟩
  · exact ⟨orderly_run b a [], fun h => by cases h⟩

end EmbedServer.Lifecycle.Tasks
