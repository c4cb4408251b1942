/-
What is sent to somebody who follows a key.

Every look polls a stream until it has nothing more to tell, and what it tells is sent, one event for each
status, with signs of life in between.  So what has been sent is what the stream tells in the history that
its follower has seen, and `Relays` says so of one exchange.
-/
import EmbedServer.Lifecycle.Scene
import EmbedServer.Proofs.Http.Streams
import EmbedServer.Proofs.Lifecycle.Health

namespace EmbedServer

namespace Http

open Health.Watch (Poll)

variable {σ : Type}

/-! ### What is told and what is sent -/

theorem toldStatuses_append (xs ys : List Poll) :
    toldStatuses (xs ++ ys) = toldStatuses xs ++ toldStatuses ys := List.filterMap_append

theorem toldStatuses_ended (n : Nat) : toldStatuses (List.replicate n .ended) = [] := by
  induction n with
  | zero => rfl
  | succ n ih => exact ih

namespace Scene

private theorem stream_append (c : Scene) (key : String) (xs ys : List Move) :
    c.stream key (xs ++ ys) =
      (c.told key xs ++ (polled askStream (c.run xs) (c.stream key xs).2 ys).1,
        (polled askStream (c.run xs) (c.stream key xs).2 ys).2) :=
  polled_append askStream c _ xs ys

/-- A signal that has fired has fired. -/
theorem ready_run {c : Scene} (h : c.draining.ready = true) (moves : List Move) :
    (c.run moves).draining.ready = true := by
  refine List.foldlRecOn (motive := fun c : Scene => c.draining.ready = true) moves step h ?_
  intro c h m _
  cases m with
  | drain => rfl
  | _ => exact h

end Scene

namespace Follow

theorem Sends.nil : Sends "" [] := ⟨[], rfl, rfl⟩

theorem Sends.append {text text' : String} {statuses statuses' : List Health.Status}
    (h : Sends text statuses) (h' : Sends text' statuses') :
    Sends (text ++ text') (statuses ++ statuses') := by
  obtain ⟨pieces, rfl, rfl⟩ := h
  obtain ⟨pieces', rfl, rfl⟩ := h'
  exact ⟨pieces ++ pieces', by rw [List.map_append, String.join_append], List.filterMap_append⟩

private theorem sends_events (statuses : List Health.Status) :
    Sends (String.join (statuses.map event)) statuses := by
  refine ⟨statuses.map some, ?_, ?_⟩
  · rw [List.map_map]
    rfl
  · rw [List.filterMap_map]
    exact List.filterMap_some

private theorem sends_comment : Sends comment [] := ⟨[none], by rw [List.map_singleton]; rfl, rfl⟩

/-- A look polls a stream, again and again. -/
theorem polled_polls (c : Scene) (fuel : Nat) (f : Follow) :
    ∃ answers, Scene.polled Scene.askStream c f
        (List.replicate (f.polls c.registry c.draining.ready fuel) .poll) =
          (answers, (f.pollAll c.registry c.draining.ready fuel).2) ∧
      toldStatuses answers = (f.pollAll c.registry c.draining.ready fuel).1 := by
  induction fuel generalizing f with
  | zero => exact ⟨[], rfl, rfl⟩
  | succ fuel ih =>
      have hanswer : Scene.answer Scene.askStream c f .poll =
          ([(f.poll c.registry c.draining.ready).1], (f.poll c.registry c.draining.ready).2) := rfl
      rcases hpoll : f.poll c.registry c.draining.ready with ⟨p, f'⟩
      rw [hpoll] at hanswer
      cases p with
      | yields s =>
          obtain ⟨answers, hpolled, htold⟩ := ih f'
          refine ⟨.yields s :: answers, ?_, ?_⟩
          · rw [polls, hpoll, pollAll_yields hpoll, List.replicate_succ, Scene.polled_cons, hanswer]
            show (_ :: (Scene.polled _ c f' _).1, (Scene.polled _ c f' _).2) = _
            rw [hpolled]
          · rw [pollAll_yields hpoll, ← htold]
            rfl
      | _ =>
          refine ⟨[(f.poll c.registry c.draining.ready).1], ?_, ?_⟩
          · rw [polls, hpoll, pollAll_silent hpoll (by simp), List.replicate_one, Scene.polled_cons,
              hanswer]
            rfl
          · rw [hpoll, pollAll_silent hpoll (by simp)]
            rfl

end Follow

namespace Server

theorem scene_of_same {s s' : Server σ} (h : s.Same s') : s'.scene = s.scene := by
  rw [scene, scene, h.core.health, h.draining]

/-- What a look sends. -/
theorem sends_followUp (s : Server σ) {e : Exchange σ} {statuses : List Health.Status}
    (h : Follow.Sends e.sent statuses) (f : Follow) (heard : Nat) :
    Follow.Sends (s.followUp e f heard).sent
      (statuses ++ (f.take s.core.health s.draining.ready).1) := by
  have hsent := h.append (Follow.sends_events (f.take s.core.health s.draining.ready).1)
  have hcomment := hsent.append Follow.sends_comment
  rw [List.append_nil] at hcomment
  simp only [followUp]
  split
  · exact hsent
  · split
    · exact hsent
    · split
      · exact hcomment
      · exact hsent

/-- What a look leaves of a stream. -/
theorem phase_followUp (s : Server σ) (e : Exchange σ) (f : Follow) (heard : Nat) :
    let rest := (f.take s.core.health s.draining.ready).2
    ((s.followUp e f heard).phase = .complete ∧ rest.isOver = true) ∨
      rest.isOver = false ∧ ∃ heard', (s.followUp e f heard).phase = .following rest heard' := by
  intro rest
  simp only [followUp]
  split
  · rename_i hover
    exact Or.inl ⟨rfl, hover⟩
  · rename_i hgoing
    refine Or.inr ⟨Bool.eq_false_iff.mpr hgoing, ?_⟩
    split
    · exact ⟨_, rfl⟩
    · split <;> exact ⟨_, rfl⟩

end Server

/-! ### One exchange

An exchange and its stream move at different times: the stream with every poll in a look, the exchange
with the look.  What has been sent is compared when a look is over.
-/

/-- An exchange relays what a stream tells in a history. -/
structure Relays (c : Scene) (key : String) (moves : List Scene.Move) (e : Exchange σ) : Prop where
  head : e.head.map Prod.fst = some 200
  sends : Follow.Sends e.sent (toldStatuses (c.told key moves))
  idle : e.pending? = none
  following : ∀ f heard, e.phase = .following f heard →
    (c.stream key moves).2 = f ∧ f.isOver = false
  complete : e.phase = .complete → (c.stream key moves).2.isOver = true

namespace Relays

variable {c : Scene} {key : String} {moves more : List Scene.Move} {e : Exchange σ}

/-- What a stream is not polled in makes no difference to what is sent. -/
theorem quiet (h : Relays c key moves e) (hmore : .poll ∉ more) : Relays c key (moves ++ more) e := by
  have hstream : c.stream key (moves ++ more) = c.stream key moves := by
    rw [Scene.stream_append, Scene.polled_quiet _ _ _ hmore, List.append_nil]
    rfl
  have htold : c.told key (moves ++ more) = c.told key moves := congrArg Prod.fst hstream
  exact ⟨h.head, by rw [htold]; exact h.sends, h.idle, by rw [hstream]; exact h.following,
    by rw [hstream]; exact h.complete⟩

/-- The caller goes away. -/
theorem leave (h : Relays c key moves e) : Relays c key moves (Server.Exchange.gone e) := by
  unfold Server.Exchange.gone
  cases e.phase with
  | following f heard => exact ⟨h.head, h.sends, rfl, nofun, nofun⟩
  | _ => exact h

/-- A look at a stream, by a server that shows what the history leads to. -/
theorem look_following {s : Server σ} {f : Follow} (hscene : s.scene = c.run moves)
    (hhead : e.head.map Prod.fst = some 200)
    (hsends : Follow.Sends e.sent (toldStatuses (c.told key moves)))
    (hstream : (c.stream key moves).2 = f) (heard : Nat) :
    Relays c key (moves ++ s.glance f) (s.followUp e f heard) := by
  obtain ⟨answers, hpolled, htold⟩ := Follow.polled_polls s.scene 3 f
  have hmore : c.stream key (moves ++ s.glance f) =
      (c.told key moves ++ answers, (f.take s.core.health s.draining.ready).2) := by
    rw [Scene.stream_append, hstream, ← hscene]
    exact congrArg (fun x => (c.told key moves ++ Prod.fst x, Prod.snd x)) hpolled
  refine ⟨?_, ?_, Server.pending?_followUp s e f heard, ?_, ?_⟩
  · rw [Server.head_followUp]
    exact hhead
  · rw [Scene.told, hmore, toldStatuses_append, htold]
    exact s.sends_followUp hsends f heard
  · intro f' heard' hphase
    rcases s.phase_followUp e f heard with ⟨hcomplete, -⟩ | ⟨hgoing, heard'', hfollowing⟩
    · rw [hcomplete] at hphase
      cases hphase
    · rw [hfollowing] at hphase
      cases hphase
      exact ⟨congrArg Prod.snd hmore, hgoing⟩
  · intro hphase
    rcases s.phase_followUp e f heard with ⟨-, hover⟩ | ⟨-, heard', hfollowing⟩
    · rw [hmore]
      exact hover
    · rw [hfollowing] at hphase
      cases hphase

/-- A look at an exchange, by a server that shows what the history leads to. -/
theorem look {s : Server σ} {id : Nat} (h : Relays c key moves e) (hscene : s.scene = c.run moves)
    (he : s.exchanges[id]? = some e) :
    Relays c key (moves ++ s.glanceAt id) (s.refreshed e) := by
  simp only [Server.glanceAt, Server.refreshed, he, Option.map_some]
  cases hphase : e.phase with
  | following f heard =>
      exact look_following hscene h.head h.sends (h.following f heard hphase).1 heard
  | _ => exact h.quiet List.not_mem_nil

end Relays

namespace Server

theorem scene_apply (s : Server σ) (a : Lifecycle.Act) :
    (Lifecycle.Act.apply s a).scene = s.scene.run a.moves := by
  cases a with
  | advance next =>
      simp only [Lifecycle.Act.apply, Lifecycle.Act.applyCore, Lifecycle.Act.advanceCore]
      split <;> rfl
  | _ => rfl

end Server

end Http

end EmbedServer
