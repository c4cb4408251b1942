/-
What closing does to the backend, and how often.

A backend may count in its state how often it has let go (`Backend.Counts`).  Calls leave such a count
alone, whatever becomes of them, because all that they settle are computations of the backend.  So after
any run the count is moved by as many as the supervisor has seen the backend let go (`closings_run`), and
that is at most once, after the backend was told to (`closings_within`).
-/
import EmbedServer.Proofs.Lifecycle.Ledger

namespace EmbedServer

variable {σ : Type}

/-- A part of a backend's state that computations leave alone, and that goes up by one when the backend has
let go. -/
structure Backend.Counts (b : Backend σ) (closings : σ → Nat) : Prop where
  begun : ∀ s text, closings (b.compute s text).begun = closings s
  settle : ∀ s text s', closings ((b.compute s text).settle s') = closings s'
  close : ∀ s s', closings ((b.close s).settle s') = closings s' + 1

theorem Backend.counts_scripted (script : Backend.Script) :
    (Backend.scripted script).Counts Backend.ScriptState.closes where
  begun := fun _ _ => rfl
  settle := fun _ _ _ => rfl
  close := fun _ _ => rfl

variable {closings : σ → Nat}

/-! ### Calls

A call begins a computation at most, and settles it at most; the rest of it does not touch the backend.
-/

namespace Call.Core

private theorem compute_conclude (c : Core σ) (startedAt arrivedAt : Nat)
    (leave : Duration → Outcome → Returned) (a : Backend.Answer) :
    (c.conclude startedAt arrivedAt leave a).1.compute = c.compute := by
  show (applyAll (applyAll c _) _).compute = c.compute
  rw [compute_applyAll, compute_applyAll]

private theorem closings_poll {c : Core σ} (h : c.backend.Counts closings) {p : Pending σ}
    (hp : ∃ state text, p.race.computation = c.backend.compute state text) :
    closings (c.poll p).1.compute = closings c.compute := by
  obtain ⟨state, text, hcomputation⟩ := hp
  cases hw : p.race.winner? c.now c.cancel.ready with
  | none => rw [poll_none c p hw]
  | some w =>
      rw [poll_some c p hw, compute_conclude]
      cases w with
      | computation =>
          show closings (p.race.computation.settle c.compute) = _
          rw [hcomputation, h.settle]
      | cancellation => rfl
      | deadline => rfl

private theorem closings_take {c : Core σ} (h : c.backend.Counts closings) (context : Context)
    (request : Request) : closings (c.take context request).1.compute = closings c.compute := by
  cases hreached : (c.service context request).reached with
  | answered o =>
      rw [take_answered c context request hreached]
      show closings (applyAll (applyAll c _) _).compute = _
      rw [compute_applyAll, compute_applyAll]
  | computing chunk =>
      have hopened : (c.opened (c.service context request) chunk).compute = c.compute := by
        rw [opened, compute_applyAll, compute_applyAll]
      cases hc : c.cancel.ready with
      | true => rw [take_cancelled c context request hreached hc, compute_conclude, hopened]
      | false =>
          have hbackend := (same_begun c (c.service context request) chunk).backend
          have hasked : (c.awaited (c.service context request) chunk).race.computation =
              c.backend.compute c.compute chunk.content := by rw [awaited_race]; rfl
          have hcounts : (c.begun (c.service context request) chunk).backend.Counts closings := by
            rw [hbackend]
            exact h
          have hpoll := closings_poll hcounts (p := c.awaited (c.service context request) chunk)
            ⟨c.compute, chunk.content, by rw [hbackend, hasked]⟩
          rw [take_begun c context request hreached hc, hpoll]
          show closings ((c.opened (c.service context request) chunk).backend.compute
            (c.opened (c.service context request) chunk).compute chunk.content).begun = _
          rw [(same_opened c _ chunk).backend, hopened, h.begun]

end Call.Core

/-! ### Turns -/

namespace Lifecycle

/-- Only a backend that lets go changes its state in an act. -/
theorem Act.compute_apply (s : Http.Server σ) {a : Act} (h : a ≠ .closed) :
    (apply s a).core.compute = s.core.compute := by
  cases a with
  | closed => exact absurd rfl h
  | advance next =>
      simp only [apply, applyCore, advanceCore]
      split <;> rfl
  | _ => rfl

/-- A start leaves the state of the backend alone. -/
theorem Blueprint.compute_running (b : Blueprint σ) (a : Net.SocketAddress) :
    (b.running a).wire.core.compute = b.core.compute :=
  kept_running (f := fun s => s.core.compute) (x := .closed) (fun s _ h => Act.compute_apply s h) nofun
    nofun nofun b a

namespace Tasks

variable {t : Tasks σ}

private theorem closings_receive {s : Http.Server σ} (h : s.core.backend.Counts closings) (r : Http.Request) :
    closings (s.receive r).core.compute = closings s.core.compute := by
  cases hread : s.read r with
  | respond response =>
      simp only [Http.Server.receive, hread]
      split <;> rfl
  | refuse method why =>
      simp only [Http.Server.receive, hread]
      rw [Call.Core.compute_applyAll]
  | call request =>
      rw [← Call.Core.closings_take h ⟨request.method, r.metadata⟩ request]
      simp only [Http.Server.receive, hread]
      split <;> rename_i heq <;> rw [heq]

private theorem closings_look (hask : t.AsksBackend) (h : t.wire.core.backend.Counts closings) (id : Nat) :
    closings (t.wire.look id).core.compute = closings t.wire.core.compute := by
  rcases Http.Server.look_cases t.wire id with ⟨heq, -⟩ | ⟨e, f, heard, -, -, heq, -⟩ |
    ⟨e, request, p, w, c', after, o, he, hp, -, hpoll, -, heq, -⟩
  · rw [heq]
  · rw [heq]
    rfl
  · have hpending : t.wire.pending? id = some (request, p) := by
      simp [Http.Server.pending?, he, Http.Exchange.pending?, hp]
    have hkept := Call.Core.closings_poll h (hask id request p hpending)
    rw [hpoll] at hkept
    rw [heq]
    exact hkept

/-- A turn leaves the count alone, unless the supervisor sees the backend let go. -/
theorem closings_step (hask : t.AsksBackend) (h : t.wire.core.backend.Counts closings) (u : Turn) :
    closings (t.step u).wire.core.compute + (t.done.map Prod.snd).count .closed =
      closings t.wire.core.compute + ((t.step u).done.map Prod.snd).count .closed := by
  rcases turn_cases u with ⟨exitFirst, rfl⟩ | rfl | hu
  · show closings (t.wake exitFirst).wire.core.compute + _ =
      _ + ((t.wake exitFirst).done.map Prod.snd).count .closed
    rw [wire_wake]
    rcases wake_cases t exitFirst with heq | ⟨acts, stage, -, -, heq⟩ <;> rw [heq]
  · show closings t.act.wire.core.compute + _ = _ + (t.act.done.map Prod.snd).count .closed
    rcases act_cases t with ⟨-, heq⟩ | ⟨a, rest, -, heq⟩
    · rw [heq]
    · rw [heq, List.map_append, List.count_append]
      show closings (Act.apply t.wire a).core.compute + _ = _
      by_cases ha : a = .closed
      · subst ha
        show closings ((t.wire.core.backend.close t.wire.core.compute).settle t.wire.core.compute) + _ = _
        rw [h.close]
        simp
        omega
      · rw [Act.compute_apply t.wire ha]
        simp [ha]
  · rw [(beside_step t hu).done]
    refine congrArg (· + _) ?_
    cases u with
    | receive r => exact closings_receive h r
    | look id => exact closings_look hask h id
    | leave id =>
        show closings (t.wire.abort id).core.compute = _
        rcases Http.Server.abort_cases t.wire id with ⟨-, heq⟩ | ⟨e, -, -, heq⟩ |
          ⟨e, request, p, -, -, heq⟩
        · rw [heq]
        · rw [heq]
          rfl
        · rw [heq]
          rfl
    | trigger drain => exact (jots_ask t drain).kept (f := fun s => closings s.core.compute) fun _ => rfl
    | send => exact (jots_send t).kept (f := fun s => closings s.core.compute) fun _ => rfl
    | wake exitFirst => exact absurd rfl (hu.1 exitFirst)
    | act => exact absurd rfl hu.2
    | _ => rfl

/-- **A backend that counts how often it has let go** has been seen to let go as often as it counts, whatever
calls have done in the meantime. -/
theorem closings_run (b : Blueprint σ) (a : Net.SocketAddress) (turns : List Turn)
    (h : b.core.backend.Counts closings) :
    closings ((b.running a).tasks.run turns).wire.core.compute =
      closings b.core.compute + (((b.running a).tasks.run turns).done.map Prod.snd).count .closed := by
  refine (run_keeps (P := fun t : Tasks σ => t.AsksBackend ∧ t.wire.core.backend.Counts closings ∧
    closings t.wire.core.compute = closings b.core.compute + (t.done.map Prod.snd).count .closed)
    ?_ ⟨asksBackend_running b a, ?_, ?_⟩ turns).2.2
  · rintro t u ⟨hask, hcounts, hcount⟩
    refine ⟨hask.step u, by rw [(parts_step t u).2.2]; exact hcounts, ?_⟩
    have hstep := closings_step hask hcounts u
    omega
  · rw [show (b.running a).tasks.wire.core.backend = b.core.backend from (b.frame_running a).backend]
    exact h
  · exact congrArg closings (b.compute_running a)

end Tasks

/-! ### At most once

`partings` is what has been done or decided on of the closing when the supervisor has got to a stage.  A
supervisor that waits for the backend has told it to let go and has not seen it do so; at the end it may
have seen it or not.
-/

/-- Whether an act is part of the closing. -/
def Act.isClosing : Act → Bool
  | .close | .closed => true
  | .advance _ | .publish .. | .note _ | .freeze | .drain | .exceed .. | .cancel | .abort => false

def Stage.partings : Stage → List (List Act)
  | .serving | .draining .. | .cancelling _ | .lost => [[]]
  | .closing .. => [[.close]]
  | .finished => [[.close], [.close, .closed]]

private theorem partings_within {stage : Stage} {parted : List Act} (h : parted ∈ stage.partings) :
    parted <+: [.close, .closed] := by
  cases stage with
  | closing endsAt deadline =>
      obtain rfl := List.mem_singleton.mp h
      exact ⟨[.closed], rfl⟩
  | finished =>
      rcases List.mem_cons.mp h with rfl | hlast
      · exact ⟨[.closed], rfl⟩
      · obtain rfl := List.mem_singleton.mp hlast
        exact List.prefix_rfl
  | _ =>
      obtain rfl := List.mem_singleton.mp h
      exact List.nil_prefix

private theorem partings_releases {v : Sight} {deadline : Nat} {acts : List Act} {stage : Stage}
    (h : Stage.Releases v deadline acts stage) : acts.filter Act.isClosing ∈ stage.partings := by
  cases h with
  | atOnce hclose => decide
  | late hclose hlate => exact List.mem_cons_self
  | wait hclose hearly => exact List.mem_cons_self

private theorem partings_steps {grace : Duration} {v : Sight} {stage stage' : Stage} {acts : List Act}
    (h : Stage.Steps grace v stage acts stage') {parted : List Act} (hparted : parted ∈ stage.partings) :
    parted ++ acts.filter Act.isClosing ∈ stage'.partings := by
  have hbegin : ∀ cue, (Stage.beginning cue).filter Act.isClosing = [] := by
    intro cue
    cases cue <;> rfl
  cases h with
  | lose hcue hd =>
      rw [List.mem_singleton.mp hparted]
      exact List.mem_cons_self
  | start hcue hd hbusy =>
      rw [List.mem_singleton.mp hparted, hbegin]
      exact List.mem_cons_self
  | skip hcue hd hdone hr =>
      rw [List.mem_singleton.mp hparted, List.filter_append, hbegin]
      have hparts := partings_releases hr
      exact hparts
  | drain hdone hr =>
      rw [List.mem_singleton.mp hparted]
      have hparts := partings_releases hr
      exact hparts
  | exceed hbusy hlimit hearly =>
      rw [List.mem_singleton.mp hparted]
      exact List.mem_cons_self
  | overrun hbusy hlimit hlate hr =>
      rw [List.mem_singleton.mp hparted]
      have hparts := partings_releases hr
      exact hparts
  | follow hdone hr =>
      rw [List.mem_singleton.mp hparted]
      have hparts := partings_releases hr
      exact hparts
  | abort hbusy hlate hr =>
      rw [List.mem_singleton.mp hparted]
      have hparts := partings_releases hr
      exact hparts
  | close hends =>
      rw [List.mem_singleton.mp hparted]
      decide
  | desert hends hlate =>
      rw [List.mem_singleton.mp hparted]
      exact List.mem_cons_self

namespace Tasks

/-- What has been done of the closing, and what is decided on of it. -/
def parted (t : Tasks σ) : List Act := (t.done.map Prod.snd ++ t.todo).filter Act.isClosing

theorem parted_step {t : Tasks σ} (h : t.parted ∈ t.stage.partings) (u : Turn) :
    (t.step u).parted ∈ (t.step u).stage.partings := by
  rcases turn_cases u with ⟨exitFirst, rfl⟩ | rfl | hu
  · show (t.wake exitFirst).parted ∈ (t.wake exitFirst).stage.partings
    rcases wake_cases t exitFirst with heq | ⟨acts, stage, htodo, hstep, heq⟩ <;> rw [heq]
    · exact h
    · have hnext := partings_steps (Stage.steps_of_step hstep) h
      rw [parted, htodo, List.append_nil] at hnext
      show (t.done.map Prod.snd ++ acts).filter Act.isClosing ∈ stage.partings
      rwa [List.filter_append]
  · show t.act.parted ∈ t.act.stage.partings
    rcases act_cases t with ⟨-, heq⟩ | ⟨a, rest, htodo, heq⟩ <;> rw [heq]
    · exact h
    · rw [parted, htodo] at h
      show ((t.done ++ [(t.now, a)]).map Prod.snd ++ rest).filter Act.isClosing ∈ t.stage.partings
      rwa [List.map_append, List.append_assoc]
  · have hb := beside_step t hu
    rw [parted, hb.done, hb.todo, hb.stage]
    exact h

/-- **The backend is told to let go at most once, and is seen to do so at most once and after that.** -/
theorem closings_within (b : Blueprint σ) (a : Net.SocketAddress) (turns : List Turn) :
    (((b.running a).tasks.run turns).done.map Prod.snd).filter Act.isClosing <+: [.close, .closed] := by
  have hparted := run_keeps (P := fun t : Tasks σ => t.parted ∈ t.stage.partings)
    (fun _ u h => parted_step h u) (t := (b.running a).tasks) List.mem_cons_self turns
  refine List.IsPrefix.trans ?_ (partings_within hparted)
  rw [parted, List.filter_append]
  exact List.prefix_append _ _

end Tasks

end Lifecycle

end EmbedServer
