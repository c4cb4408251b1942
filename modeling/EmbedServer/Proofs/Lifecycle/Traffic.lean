/-
Schedules are traffic.

Whoever keeps an order does nothing that could not go on without it: a history after whose every event
all requests are looked at, a start, and a run of the tasks of a server are each a list of what goes on.
So what is shown for all traffic is shown for them.
-/
import EmbedServer.Lifecycle.Traffic
import EmbedServer.Proofs.Lifecycle.Turns

namespace EmbedServer.Http.Server

open Lifecycle (Act Blueprint Happening Tasks Turn)

variable {σ : Type}

private theorem undergoAll_append (s : Server σ) (xs ys : List Happening) :
    s.undergoAll (xs ++ ys) = (s.undergoAll xs).undergoAll ys := List.foldl_append ..

/-! ### Schedules -/

/-- What a schedule does is traffic. -/
def Goes (s s' : Server σ) : Prop := ∃ traffic, s' = s.undergoAll traffic

theorem Goes.refl (s : Server σ) : s.Goes s := ⟨[], rfl⟩

theorem Goes.trans {s s' s'' : Server σ} (h : s.Goes s') (h' : s'.Goes s'') : s.Goes s'' := by
  obtain ⟨xs, rfl⟩ := h
  obtain ⟨ys, rfl⟩ := h'
  exact ⟨xs ++ ys, (s.undergoAll_append xs ys).symm⟩

theorem goes_undergo (s : Server σ) (x : Happening) : s.Goes (s.undergo x) := ⟨[x], rfl⟩

theorem goes_looks (s : Server σ) (ids : List Nat) : s.Goes (ids.foldl look s) := by
  induction ids generalizing s with
  | nil => exact Goes.refl s
  | cons id rest ih => exact (s.goes_undergo (.look id)).trans (ih (s.look id))

theorem goes_acts (s : Server σ) (acts : List Act) : s.Goes (Act.applyAll s acts) := by
  induction acts generalizing s with
  | nil => exact Goes.refl s
  | cons a rest ih => exact (s.goes_undergo (.act a)).trans (ih (Act.apply s a))

/-- A history after whose every event all requests are looked at. -/
theorem goes_run (s : Server σ) (history : List Event) : s.Goes (s.run history) := by
  induction history generalizing s with
  | nil => exact Goes.refl s
  | cons e rest ih =>
      have hmeet := s.goes_undergo (.meet e)
      have hsettle := (s.meet e).goes_looks (s.meet e).order
      exact hmeet.trans (hsettle.trans (ih (s.step e)))

private theorem goes_jots {t t' : Tasks σ} (h : t.Jots t') : t.wire.Goes t'.wire := by
  rcases h.wire with heq | ⟨e, heq⟩ <;> rw [heq]
  · exact Goes.refl _
  · exact t.wire.goes_undergo (.act (.note e))

/-- A turn of a task. -/
theorem goes_step (t : Tasks σ) (u : Turn) : t.wire.Goes (t.step u).wire := by
  cases u with
  | receive r => exact t.wire.goes_undergo (.meet (.request r))
  | look id => exact t.wire.goes_undergo (.look id)
  | leave id => exact t.wire.goes_undergo (.meet (.leave id))
  | pass time => exact t.wire.goes_undergo (.meet (.pass time))
  | publish key status => exact t.wire.goes_undergo (.meet (.publish key status))
  | publishAll status => exact t.wire.goes_undergo (.meet (.publishAll status))
  | note e => exact t.wire.goes_undergo (.act (.note e))
  | trigger drain => exact goes_jots (Tasks.jots_ask t drain)
  | send => exact goes_jots (Tasks.jots_send t)
  | retain => exact Goes.refl _
  | release => exact Goes.refl _
  | finish => exact Goes.refl _
  | wake exitFirst =>
      show t.wire.Goes (t.wake exitFirst).wire
      rw [Tasks.wire_wake]
      exact Goes.refl _
  | act =>
      show t.wire.Goes t.act.wire
      rcases Tasks.act_cases t with ⟨-, h⟩ | ⟨a, rest, -, h⟩ <;> rw [h]
      · exact Goes.refl _
      · exact t.wire.goes_undergo (.act a)

/-- **A server that has been started, whatever its tasks have done since, has only seen traffic.** -/
theorem goes_tasks (b : Blueprint σ) (a : Net.SocketAddress) (turns : List Turn) :
    b.fresh.Goes ((b.running a).tasks.run turns).wire := by
  have hstart : b.fresh.Goes (b.running a).tasks.wire := b.fresh.goes_acts _
  exact Tasks.run_keeps (P := fun t => b.fresh.Goes t.wire) (fun t u h => h.trans (goes_step t u))
    hstart turns

/-! ### What is over stays over -/

/-- What goes on with requests: one comes, one is looked at, or a caller goes away; anything else leaves
all of them as they are. -/
theorem undergo_cases (s : Server σ) (x : Happening) :
    (s.undergo x).exchanges = s.exchanges ∨ (∃ r, s.undergo x = s.receive r) ∨
      (∃ i, s.undergo x = s.look i) ∨ ∃ i, s.undergo x = s.abort i := by
  cases x with
  | look id => exact Or.inr (Or.inr (Or.inl ⟨id, rfl⟩))
  | act a => exact Or.inl (Act.frame_apply s a).exchanges
  | meet e =>
      cases e with
      | request r => exact Or.inr (Or.inl ⟨r, rfl⟩)
      | leave id => exact Or.inr (Or.inr (Or.inr ⟨id, rfl⟩))
      | pass time => exact Or.inl rfl
      | enter state => exact Or.inl rfl
      | publish key status => exact Or.inl rfl
      | publishAll status => exact Or.inl rfl
      | freeze => exact Or.inl rfl
      | drain => exact Or.inl rfl
      | cancel => exact Or.inl rfl

private theorem pending?_undergo_over {s : Server σ} {i : Nat} (hi : i < s.exchanges.length)
    (h : s.pending? i = none) (x : Happening) :
    i < (s.undergo x).exchanges.length ∧ (s.undergo x).pending? i = none := by
  rcases undergo_cases s x with hsame | ⟨r, hx⟩ | ⟨id, hx⟩ | ⟨id, hx⟩
  · rw [pending?, hsame]
    exact ⟨hi, h⟩
  · obtain ⟨e, he, -⟩ := s.receive_cases r
    rw [hx]
    refine ⟨?_, (s.pending?_receive r hi).trans h⟩
    rw [he, List.length_append]
    omega
  · rw [hx]
    exact ⟨(s.length_look id).symm ▸ hi, pending?_look_over h id⟩
  · rw [hx]
    exact ⟨(s.length_abort id).symm ▸ hi, pending?_abort_over h id⟩

theorem pending?_undergoAll_over {s : Server σ} {i : Nat} (hi : i < s.exchanges.length)
    (h : s.pending? i = none) (traffic : List Happening) :
    (s.undergoAll traffic).pending? i = none := by
  induction traffic generalizing s with
  | nil => exact h
  | cons x rest ih =>
      obtain ⟨hi', h'⟩ := pending?_undergo_over hi h x
      exact ih hi' h'

/-- What does not wait is not counted any more. -/
theorem metrics_look_over {s : Server σ} {i : Nat} (h : s.pending? i = none) :
    (s.look i).core.metrics = s.core.metrics := by
  rcases look_cases s i with ⟨hlook, -⟩ | ⟨e, f, heard, -, -, hlook, -⟩ |
    ⟨e, request, p, w, c', after, o, he, hphase, -⟩
  · rw [hlook]
  · rw [hlook]
    rfl
  · rw [pending?_of_waiting he hphase] at h
    cases h

theorem metrics_abort_over {s : Server σ} {i : Nat} (h : s.pending? i = none) :
    (s.abort i).core.metrics = s.core.metrics := by
  rcases abort_cases s i with ⟨-, habort⟩ | ⟨e, -, -, habort⟩ | ⟨e, request, p, he, hphase, -⟩
  · rw [habort]
  · rw [habort]
    rfl
  · rw [pending?_of_waiting he hphase] at h
    cases h

end EmbedServer.Http.Server
