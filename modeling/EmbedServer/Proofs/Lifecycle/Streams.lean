/-
Streams of a server that is started and stopped.

What has been sent to somebody who follows a key is what the stream tells in the history that he has seen
(`Proofs/Http/Relays`).  This is carried along a run of the tasks together with what is known of a stop: the
signal does not fire before the registry has been frozen, so a poll that comes after it finds every key
"not serving".

`watch_relays` puts this together with what is told in any history.
-/
import EmbedServer.Proofs.Http.Relays
import EmbedServer.Proofs.Lifecycle.Served
import EmbedServer.Proofs.Lifecycle.Progress

namespace EmbedServer

namespace Lifecycle.Tasks

open Http (Scene Follow toldStatuses Relays)

variable {σ : Type}

/-! ### One turn

To somebody who follows one key a turn is a few moves of the scene, and mostly none.
-/

/-- What a turn leaves of what there is to see. -/
theorem scene_step (t : Tasks σ) (id : Nat) (u : Turn) :
    (t.step u).wire.scene = t.wire.scene.run (t.moves id u) := by
  cases u with
  | receive r => exact Http.Server.scene_of_same (Http.Server.same_receive t.wire r)
  | look i =>
      have hpolls : t.wire.scene.run (t.moves id (.look i)) = t.wire.scene := by
        simp only [moves, Http.Server.glanceAt, Http.Server.glance]
        split
        · split
          · exact Scene.run_polls _ _
          · rfl
        · rfl
      rw [hpolls]
      exact Http.Server.scene_of_same (Http.Server.same_look t.wire i)
  | leave i => exact Http.Server.scene_of_same (Http.Server.same_abort t.wire i)
  | pass time => rfl
  | publish key status => rfl
  | publishAll status => rfl
  | note e => rfl
  | trigger drain => exact (jots_ask t drain).kept fun _ => rfl
  | send => exact (jots_send t).kept fun _ => rfl
  | retain => rfl
  | release => rfl
  | finish => rfl
  | wake exitFirst =>
      show (t.wake exitFirst).wire.scene = t.wire.scene
      rw [wire_wake]
  | act =>
      show t.act.wire.scene = _
      rcases act_cases t with ⟨htodo, h⟩ | ⟨a, rest, htodo, h⟩ <;> rw [h]
      · simp only [moves, htodo]
        rfl
      · simp only [moves, htodo]
        exact t.wire.scene_apply a

/-- A turn shows once at most, apart from the polls in a look. -/
theorem moves_cases (t : Tasks σ) (id : Nat) (u : Turn) :
    (t.moves id u).length ≤ 1 ∨ ∃ n, t.moves id u = List.replicate n .poll := by
  cases u with
  | look i =>
      simp only [moves, Http.Server.glanceAt]
      split
      · split
        · exact Or.inr ⟨_, rfl⟩
        · exact Or.inl (Nat.zero_le 1)
      · exact Or.inl (Nat.zero_le 1)
  | act =>
      simp only [moves]
      cases t.todo.head? with
      | none => exact Or.inl (Nat.zero_le 1)
      | some a => exact Or.inl (by cases a <;> simp [Act.moves])
  | _ => exact Or.inl (by simp [moves])

/-- So nothing comes in between what was there to see before a turn and what is there after it. -/
theorem scene_within (t : Tasks σ) (id : Nat) (u : Turn) {front : List Scene.Move}
    (h : front <+: t.moves id u) :
    t.wire.scene.run front = t.wire.scene ∨ t.wire.scene.run front = (t.step u).wire.scene := by
  rw [scene_step t id u]
  rcases moves_cases t id u with hshort | ⟨n, hpolls⟩
  · cases front with
    | nil => exact Or.inl rfl
    | cons m rest =>
        have hlength : (t.moves id u).length ≤ (m :: rest).length := by
          rw [List.length_cons]
          omega
        exact Or.inr (congrArg t.wire.scene.run (h.eq_of_length_le hlength))
  · rw [hpolls] at h
    exact Or.inl (t.wire.scene.run_front_polls h)

/-- A stream is polled when its request is looked at, and at no other time. -/
theorem not_polled (t : Tasks σ) {id : Nat} {u : Turn} (h : u ≠ .look id) : .poll ∉ t.moves id u := by
  cases u with
  | look i =>
      have hi : i ≠ id := fun hc => h (by rw [hc])
      simp [moves, hi]
  | act =>
      simp only [moves]
      cases t.todo.head? with
      | none => simp
      | some a => cases a <;> simp [Act.moves]
  | _ => simp [moves]

/-- What a turn makes of an exchange that relays a stream. -/
theorem relays_step {t : Tasks σ} {id : Nat} {c : Scene} {key : String} {moves : List Scene.Move}
    {e : Http.Exchange σ} (hscene : t.wire.scene = c.run moves)
    (he : t.wire.exchanges[id]? = some e) (h : Relays c key moves e) (u : Turn) :
    ∃ e', (t.step u).wire.exchanges[id]? = some e' ∧ Relays c key (moves ++ t.moves id u) e' := by
  by_cases hlook : u = .look id
  · subst hlook
    have hlooked : (t.step (.look id)).wire.exchanges[id]? = some (t.wire.refreshed e) :=
      Http.Server.getElem?_look_idle he h.idle
    refine ⟨_, hlooked, ?_⟩
    rw [show t.moves id (.look id) = t.wire.glanceAt id from if_pos rfl]
    exact h.look hscene he
  · by_cases hleave : u = .leave id
    · subst hleave
      have hgone : (t.step (.leave id)).wire.exchanges[id]? = some (Http.Server.Exchange.gone e) := by
        show (t.wire.abort id).exchanges[id]? = some (Http.Server.Exchange.gone e)
        rw [Http.Server.abort_idle he h.idle]
        exact List.getElem?_set_self (List.getElem?_eq_some_iff.mp he).1
      exact ⟨_, hgone, h.leave.quiet List.not_mem_nil⟩
    · exact ⟨e, exchange_step he hlook hleave, h.quiet (not_polled t hlook)⟩

private theorem receive_followed (t : Tasks σ) {r : Http.Request} {key : String} (hmethod : r.method = "GET")
    (hpath : r.target.path = Call.watchPath) (hkey : Http.queryKey? r.target = some key)
    (hmuch : r.declaresTooMuch t.wire.limit = false) :
    (t.step (.receive r)).wire.exchanges[t.wire.exchanges.length]? =
      some (t.wire.followed key) := by
  show (t.wire.receive r).exchanges[t.wire.exchanges.length]? = _
  rw [t.wire.receive_events hmethod hpath hkey hmuch, List.getElem?_concat_length]

/-! ### Callers who stay -/

/-- An exchange without a waiting call, whose caller has not gone away. -/
def Attended (id : Nat) (t : Tasks σ) (e : Http.Exchange σ) : Prop :=
  t.wire.exchanges[id]? = some e ∧ e.pending? = none ∧ e.phase ≠ .dropped

private theorem attended_receive (t : Tasks σ) {r : Http.Request} {key : String} (hmethod : r.method = "GET")
    (hpath : r.target.path = Call.watchPath) (hkey : Http.queryKey? r.target = some key)
    (hmuch : r.declaresTooMuch t.wire.limit = false) :
    Attended t.wire.exchanges.length (t.step (.receive r)) (t.wire.followed key) := by
  refine ⟨receive_followed t hmethod hpath hkey hmuch, Http.Server.pending?_followUp _ _ _ _, ?_⟩
  rcases t.wire.phase_followUp _ _ _ with ⟨hphase, -⟩ | ⟨-, heard, hphase⟩ <;>
    exact fun hdropped => by cases hphase.symm.trans hdropped

theorem Attended.step {id : Nat} {t : Tasks σ} {e : Http.Exchange σ} (h : Attended id t e) {u : Turn}
    (hu : u ≠ .leave id) : ∃ e', Attended id (t.step u) e' := by
  obtain ⟨he, hidle, hstay⟩ := h
  by_cases hlook : u = .look id
  · subst hlook
    refine ⟨_, Http.Server.getElem?_look_idle he hidle, Http.Server.pending?_refreshed _ hidle, ?_⟩
    unfold Http.Server.refreshed
    cases hphase : e.phase with
    | following f heard =>
        rcases t.wire.phase_followUp e f heard with ⟨hnext, -⟩ | ⟨-, heard', hnext⟩ <;> simp [hnext]
    | dropped => exact absurd hphase hstay
    | _ => simp [hphase]
  · exact ⟨e, exchange_step he hlook hu, hidle, hstay⟩

theorem Attended.run {id : Nat} {t : Tasks σ} {e : Http.Exchange σ} (h : Attended id t e)
    {turns : List Turn} (hstay : .leave id ∉ turns) : ∃ e', Attended id (t.run turns) e' := by
  induction turns generalizing t e with
  | nil => exact ⟨e, h⟩
  | cons u rest ih =>
      obtain ⟨e', h'⟩ := h.step (List.ne_of_not_mem_cons hstay).symm
      exact ih h' (List.not_mem_of_not_mem_cons hstay)

/-- After the signal the next look at a stream is the last one. -/
theorem Attended.look_late {id : Nat} {t : Tasks σ} {e : Http.Exchange σ} (h : Attended id t e)
    (hready : t.wire.draining.ready = true) :
    ∃ e', (t.step (.look id)).wire.exchanges[id]? = some e' ∧ e'.phase = .complete := by
  obtain ⟨he, hidle, hstay⟩ := h
  refine ⟨_, Http.Server.getElem?_look_idle he hidle, ?_⟩
  unfold Http.Server.refreshed
  cases hphase : e.phase with
  | waiting request p => simp [Http.Exchange.pending?, hphase] at hidle
  | complete => exact hphase
  | dropped => exact absurd hphase hstay
  | following f heard =>
      rcases t.wire.phase_followUp e f heard with ⟨hcomplete, -⟩ | ⟨hgoing, -⟩
      · exact hcomplete
      · rw [hready, Follow.isOver_take t.wire.core.health f] at hgoing
        cases hgoing

/-! ### A run -/

/-- The registry has been frozen before calls are no longer taken. -/
theorem Orderly.allOut_of_draining {t : Tasks σ} (h : t.Orderly)
    (hd : t.wire.draining.ready = true) : t.wire.core.health.AllOut := by
  have hdrain : .drain ∈ t.milestones := by
    rw [← List.contains_iff_mem, ← h.draining]
    exact hd
  obtain ⟨c, hwithin⟩ := h.within
  have hfreeze : .drain ∈ t.milestones → .freeze ∈ t.milestones :=
    of_within (P := fun acts => .drain ∈ acts → .freeze ∈ acts) (by decide) hwithin
  exact (h.health (hfreeze hdrain)).allOut

/-- How a server stands to a stream that has been followed from a scene on. -/
structure Follows (c : Scene) (key : String) (id : Nat) (moves : List Scene.Move) (t : Tasks σ) :
    Prop where
  orderly : t.Orderly
  scene : t.wire.scene = c.run moves
  /-- Wherever the signal has fired, the registry has been frozen. -/
  calm : ∀ front, front <+: moves → (c.run front).draining.ready = true →
    (c.run front).registry.AllOut
  relays : ∃ e, t.wire.exchanges[id]? = some e ∧ Relays c key moves e

namespace Follows

variable {c : Scene} {key : String} {id : Nat} {moves : List Scene.Move} {t : Tasks σ}

/-- Somebody begins to follow a key. -/
theorem start (h : t.Orderly) {r : Http.Request} (hmethod : r.method = "GET")
    (hpath : r.target.path = Call.watchPath) (hkey : Http.queryKey? r.target = some key)
    (hmuch : r.declaresTooMuch t.wire.limit = false) :
    Follows t.wire.scene key t.wire.exchanges.length
      (t.wire.glance (.start t.wire.core.health key)) (t.step (.receive r)) := by
  refine ⟨h.step _, ?_, ?_, ?_⟩
  · rw [scene_step t 0 (.receive r), Http.Server.glance, Scene.run_polls]
    rfl
  · intro front hfront hready
    rw [Scene.run_front_polls _ hfront] at hready ⊢
    exact h.allOut_of_draining hready
  · have hfresh : Relays t.wire.scene key ([] ++ t.wire.glance (.start t.wire.core.health key))
        (t.wire.followed key) := by
      refine .look_following rfl rfl ?_ rfl _
      exact Follow.Sends.nil
    exact ⟨_, receive_followed t hmethod hpath hkey hmuch, hfresh⟩

theorem step (h : Follows c key id moves t) (u : Turn) :
    Follows c key id (moves ++ t.moves id u) (t.step u) := by
  obtain ⟨e, he, hrelays⟩ := h.relays
  refine ⟨h.orderly.step u, ?_, ?_, relays_step h.scene he hrelays u⟩
  · rw [scene_step t id u, h.scene, Scene.run_append]
  · rintro front ⟨tail, htail⟩ hready
    rcases List.append_eq_append_iff.mp htail with ⟨old, hmoves, -⟩ | ⟨new, rfl, hnew⟩
    · exact h.calm front ⟨old, hmoves.symm⟩ hready
    · rw [Scene.run_append, ← h.scene] at hready ⊢
      rcases scene_within t id u ⟨tail, hnew.symm⟩ with heq | heq <;> rw [heq] at hready ⊢
      · exact h.orderly.allOut_of_draining hready
      · exact (h.orderly.step u).allOut_of_draining hready

theorem run (h : Follows c key id moves t) (turns : List Turn) :
    Follows c key id (moves ++ t.history id turns) (t.run turns) := by
  induction turns generalizing moves t with
  | nil =>
      rw [history, List.append_nil]
      exact h
  | cons u rest ih =>
      rw [history, ← List.append_assoc]
      exact ih (h.step u)

/-- A stream of a key that there was is over only after the signal, and its last status is that nothing
is served. -/
theorem last (h : Follows c key id moves t) (hkey : key ∈ c.registry.keys)
    (hover : (c.stream key moves).2.isOver = true) :
    t.wire.draining.ready = true ∧
      (toldStatuses (c.told key moves)).getLast? = some .notServing := by
  have hlate : c.inTime moves = false := by
    refine Bool.eq_false_iff.mpr fun htime => ?_
    have hgoing := (Scene.stream_of_mem hkey htime).2.2.1
    rw [hover] at hgoing
    cases hgoing
  obtain ⟨front, rest, rfl, hfront, hready⟩ := Scene.late_poll hlate
  have hout : (c.run front).registry.get key = .notServing :=
    h.calm front (List.prefix_append _ _) hready key (Scene.mem_keys_run hkey front)
  have htold : c.told key (front ++ .poll :: rest) =
      c.told key front ++ .yields .notServing :: List.replicate (rest.count .poll) .ended := by
    rw [← hout]
    exact congrArg Prod.fst ((Scene.stream_of_mem hkey hfront).2.2.2 rest hready)
  refine ⟨?_, ?_⟩
  · have hscene := Scene.ready_run hready (.poll :: rest)
    rw [← Scene.run_append, ← h.scene] at hscene
    exact hscene
  · have hlast : toldStatuses (.yields .notServing :: List.replicate (rest.count .poll) .ended) =
        [.notServing] := congrArg (List.cons _) (Http.toldStatuses_ended _)
    rw [htold, Http.toldStatuses_append, hlast, List.getLast?_concat]

end Follows

/-- What happens around a stop to a server whose health somebody follows. -/
def watched : List Turn :=
  [.publish "model" .notServing, .publish "model" .serving, .look 0, .trigger (.ofMillis 100), .send,
    .wake false, .act, .act, .look 0, .publish "model" .serving, .act, .look 0, .look 0]

end Lifecycle.Tasks

end EmbedServer
