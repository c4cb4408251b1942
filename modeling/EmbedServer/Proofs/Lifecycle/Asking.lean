/-
Who asks for a stop, and what the supervisor makes of it.

Who asks for a stop is a matter of one flag and of one request that is under way at most.  Whoever
finds the flag down puts it up and is told so, and only that request can reach the supervisor.  What
the supervisor then waits for goes by what it has taken up, the request or another cue.
-/
import EmbedServer.Proofs.Lifecycle.Supervisor
import EmbedServer.Proofs.Lifecycle.Turns

namespace EmbedServer.Lifecycle

variable {σ : Type}

namespace Tasks

/-! ### Who asked first

The flag and the request are two things: whoever has put the flag up has handed on nothing yet, and others
may come in between.  So `Claimed` goes by the turns so far, and says that whatever is under way is the
first request made in them.
-/

/-- The drain timeouts that were asked for, in order. -/
def asked (turns : List Turn) : List Duration := turns.filterMap Turn.asked?

/-- What those who asked are told: the first that it was the first, all others that it was not. -/
def replies : List Duration → List StopOutcome
  | [] => []
  | _ :: rest => .initiated :: rest.map fun _ => .alreadyStopping

private theorem replies_snoc (requests : List Duration) (d : Duration) :
    replies (requests ++ [d]) =
      replies requests ++ [if requests.isEmpty then .initiated else .alreadyStopping] := by
  cases requests <;> simp [replies]

/-- The flag is up once somebody has asked, and whatever is still under way is the first request. -/
structure Claimed (past : List Turn) (t : Tasks σ) : Prop where
  requested : t.requested = !(asked past).isEmpty
  outcomes : t.outcomes = replies (asked past)
  sending : ∀ d, t.sending = some d → (asked past).head? = some d
  request : ∀ d, t.request = some d → (asked past).head? = some d
  taken : ∀ moment d, t.taken = some (moment, .request d) → (asked past).head? = some d

theorem claimed_running (b : Blueprint σ) (a : Net.SocketAddress) :
    Claimed [] (b.running a).tasks :=
  ⟨rfl, rfl, nofun, nofun, nofun⟩

/-- A turn in which nobody asks and nothing is handed on or taken. -/
theorem Claimed.calm {past : List Turn} {t t' : Tasks σ} (h : Claimed past t) {u : Turn}
    (hu : u.asked? = none) (requested : t'.requested = t.requested)
    (outcomes : t'.outcomes = t.outcomes) (sending : t'.sending = t.sending)
    (request : t'.request = t.request) (taken : t'.taken = t.taken) : Claimed (past ++ [u]) t' := by
  have hpast : asked (past ++ [u]) = asked past := by simp [asked, hu]
  refine ⟨?_, ?_, ?_, ?_, ?_⟩
  · rw [hpast, requested]; exact h.requested
  · rw [hpast, outcomes]; exact h.outcomes
  · rw [hpast, sending]; exact h.sending
  · rw [hpast, request]; exact h.request
  · rw [hpast, taken]; exact h.taken

theorem Claimed.trigger {past : List Turn} {t : Tasks σ} (h : Claimed past t) (d : Duration) :
    Claimed (past ++ [.trigger d]) (t.ask d) := by
  have hpast : asked (past ++ [.trigger d]) = asked past ++ [d] := by simp [asked, Turn.asked?]
  have hfirst : ∀ {x}, (asked past).head? = some x →
      (asked (past ++ [.trigger d])).head? = some x := by
    intro x hx
    rw [hpast, List.head?_append, hx]
    rfl
  have hreplies : replies (asked (past ++ [.trigger d])) =
      t.outcomes ++ [if t.requested then .alreadyStopping else .initiated] := by
    rw [hpast, replies_snoc, h.outcomes, h.requested]
    cases (asked past).isEmpty <;> rfl
  have hup : (!(asked (past ++ [.trigger d])).isEmpty) = true := by simp [hpast]
  cases hreq : t.requested with
  | true =>
      rw [hreq] at hreplies
      simp only [ask, Running.claim, hreq, if_true]
      refine ⟨?_, hreplies.symm, ?_, ?_, ?_⟩
      · rw [hup]; exact hreq
      · exact fun x hx => hfirst (h.sending x hx)
      · exact fun x hx => hfirst (h.request x hx)
      · exact fun m x hx => hfirst (h.taken m x hx)
  | false =>
      rw [hreq] at hreplies
      have hnone : asked past = [] := by
        have := h.requested
        rw [hreq] at this
        simpa using this
      simp only [ask, Running.claim, hreq, Bool.false_eq_true, if_false]
      refine ⟨hup.symm, hreplies.symm, ?_, ?_, ?_⟩
      · intro x hx
        rw [hpast, hnone]
        simpa using hx
      · exact fun x hx => hfirst (h.request x hx)
      · exact fun m x hx => hfirst (h.taken m x hx)

theorem Claimed.send {past : List Turn} {t : Tasks σ} (h : Claimed past t) :
    Claimed (past ++ [.send]) t.send := by
  have hpast : asked (past ++ [.send]) = asked past := by simp [asked, Turn.asked?]
  unfold Tasks.send
  split
  · exact h.calm rfl rfl rfl rfl rfl rfl
  · rename_i drain hsending htodo
    have hkept : ∀ r : Running σ, r.requested = t.requested → (∀ d, r.request = some d →
        (asked past).head? = some d) →
        Claimed (past ++ [.send]) { t with toRunning := r, sending := none } := by
      intro r hreq hr
      refine ⟨?_, ?_, nofun, ?_, ?_⟩
      · rw [hpast]; exact hreq.trans h.requested
      · rw [hpast]; exact h.outcomes
      · rw [hpast]; exact hr
      · rw [hpast]; exact h.taken
    rcases hand_cases t.toRunning drain with ⟨-, heq⟩ | ⟨-, heq⟩ | ⟨-, e, heq⟩
    · refine hkept _ (by rw [heq]) ?_
      intro d hd
      rw [heq] at hd
      simp only [Option.some.injEq] at hd
      rw [← hd]
      exact h.sending _ hsending
    · exact hkept _ (by rw [heq]) fun d hd => h.request d (by rw [heq] at hd; exact hd)
    · exact hkept _ (by rw [heq]; rfl) fun d hd => h.request d (by rw [heq] at hd; exact hd)
  · refine ⟨?_, ?_, nofun, ?_, ?_⟩
    · rw [hpast]; exact h.requested
    · rw [hpast]; exact h.outcomes
    · rw [hpast]; exact h.request
    · rw [hpast]; exact h.taken

private theorem request_of_cue {t : Tasks σ} {exitFirst : Bool} {d : Duration}
    (h : (t.sight exitFirst).cue = some (.request d)) : t.request = some d := by
  have hcue : t.cue = some (.request d) := by
    simp only [sight] at h
    cases hended : t.endedAt with
    | none => cases exitFirst <;> simpa [hended] using h
    | some e =>
        cases exitFirst with
        | true => simp [hended] at h
        | false => cases hc : t.cue <;> simp_all
  unfold Running.cue at hcue
  split at hcue
  · rename_i d' hd'
    simp only [Option.some.injEq, Cue.request.injEq] at hcue
    rw [hd', hcue]
  · split at hcue <;> simp at hcue

theorem Claimed.wake {past : List Turn} {t : Tasks σ} (h : Claimed past t) (exitFirst : Bool) :
    Claimed (past ++ [.wake exitFirst]) (t.wake exitFirst) := by
  rcases wake_cases t exitFirst with heq | ⟨acts, stage, htodo, hstep, heq⟩ <;> rw [heq]
  · exact h.calm rfl rfl rfl rfl rfl rfl
  · have hpast : asked (past ++ [.wake exitFirst]) = asked past := by simp [asked, Turn.asked?]
    refine ⟨?_, ?_, ?_, nofun, ?_⟩
    · rw [hpast]; exact h.requested
    · rw [hpast]; exact h.outcomes
    · rw [hpast]; exact h.sending
    · rw [hpast]
      intro moment d hd
      cases htaken : t.taken with
      | some x =>
          simp only [htaken, Option.some_or, Option.some.injEq] at hd
          exact h.taken moment d (by rw [htaken, hd])
      | none =>
          simp only [htaken, Option.none_or, Option.map_eq_some_iff] at hd
          obtain ⟨cue, hcue, heq⟩ := hd
          rw [(Prod.mk.inj heq).2] at hcue
          exact h.request d (request_of_cue hcue)

theorem Claimed.act {past : List Turn} {t : Tasks σ} (h : Claimed past t) :
    Claimed (past ++ [.act]) t.act := by
  rcases act_cases t with ⟨-, heq⟩ | ⟨a, rest, -, heq⟩ <;> rw [heq]
  · exact h.calm rfl rfl rfl rfl rfl rfl
  · exact h.calm rfl rfl rfl rfl rfl rfl

theorem Claimed.step {past : List Turn} {t : Tasks σ} (h : Claimed past t) (u : Turn) :
    Claimed (past ++ [u]) (t.step u) := by
  cases u with
  | trigger d => exact h.trigger d
  | send => exact h.send
  | wake exitFirst => exact h.wake exitFirst
  | act => exact h.act
  | receive r => exact h.calm rfl rfl rfl rfl rfl rfl
  | look id => exact h.calm rfl rfl rfl rfl rfl rfl
  | leave id => exact h.calm rfl rfl rfl rfl rfl rfl
  | pass time => exact h.calm rfl rfl rfl rfl rfl rfl
  | publish key status => exact h.calm rfl rfl rfl rfl rfl rfl
  | publishAll status => exact h.calm rfl rfl rfl rfl rfl rfl
  | note e => exact h.calm rfl rfl rfl rfl rfl rfl
  | retain => exact h.calm rfl rfl rfl rfl rfl rfl
  | release => exact h.calm rfl rfl rfl rfl rfl rfl
  | finish => exact h.calm rfl rfl rfl rfl rfl rfl

theorem claimed_run {past : List Turn} {t : Tasks σ} (h : Claimed past t) (turns : List Turn) :
    Claimed (past ++ turns) (t.run turns) := by
  induction turns generalizing past t with
  | nil =>
      rw [List.append_nil]
      exact h
  | cons u rest ih =>
      have hrest := ih (h.step u)
      rw [List.append_assoc] at hrest
      exact hrest

end Tasks

/-! ### What the supervisor waits for

The deadline is worked out once, when the stop is taken up, and every later wait goes by it.  The record
keeps the moment and the cue, and each stage is tied to these.
-/

/-- The waits of a stage go by what made the supervisor stop the server, and when. -/
def Stage.Waits (grace : Duration) (taken : Option (Nat × Cue)) : Stage → Prop
  | .serving => taken = none
  | .draining timeout limit deadline => ∃ moment cue, taken = some (moment, cue) ∧
      timeout = cue.drain ∧ limit = moment + cue.drain.nanos ∧
      deadline? moment cue.drain grace = some deadline
  | .cancelling deadline | .closing _ deadline => ∃ moment cue, taken = some (moment, cue) ∧
      deadline? moment cue.drain grace = some deadline
  | .finished => ∃ moment cue deadline, taken = some (moment, cue) ∧
      deadline? moment cue.drain grace = some deadline
  | .lost => ∃ moment cue, taken = some (moment, cue) ∧ deadline? moment cue.drain grace = none

private theorem waits_releases {grace : Duration} {v : Sight} {deadline moment : Nat} {cue : Cue}
    {acts : List Act} {stage : Stage} (h : Stage.Releases v deadline acts stage)
    (hd : deadline? moment cue.drain grace = some deadline) :
    stage.Waits grace (some (moment, cue)) := by
  cases h with
  | atOnce hclose => exact ⟨moment, cue, deadline, rfl, hd⟩
  | late hclose hlate => exact ⟨moment, cue, deadline, rfl, hd⟩
  | wait hclose hearly => exact ⟨moment, cue, rfl, hd⟩

private theorem waits_steps {grace : Duration} {v : Sight} {stage stage' : Stage} {acts : List Act}
    {taken : Option (Nat × Cue)} (h : Stage.Steps grace v stage acts stage')
    (hw : stage.Waits grace taken) :
    stage'.Waits grace (taken.or (v.cue.map (v.now, ·))) := by
  cases h with
  | @lose cue hcue hd =>
      rw [show taken = none from hw, hcue]
      exact ⟨v.now, cue, rfl, hd⟩
  | @start cue deadline hcue hd hbusy =>
      rw [show taken = none from hw, hcue]
      exact ⟨v.now, cue, rfl, rfl, rfl, hd⟩
  | skip hcue hd hdone hr =>
      rw [show taken = none from hw, hcue]
      exact waits_releases hr hd
  | drain hdone hr =>
      obtain ⟨moment, cue, htaken, -, -, hd⟩ := hw
      rw [htaken]
      exact waits_releases hr hd
  | exceed hbusy hlimit hearly =>
      obtain ⟨moment, cue, htaken, -, -, hd⟩ := hw
      rw [htaken]
      exact ⟨moment, cue, rfl, hd⟩
  | overrun hbusy hlimit hlate hr =>
      obtain ⟨moment, cue, htaken, -, -, hd⟩ := hw
      rw [htaken]
      exact waits_releases hr hd
  | follow hdone hr =>
      obtain ⟨moment, cue, htaken, hd⟩ := hw
      rw [htaken]
      exact waits_releases hr hd
  | abort hbusy hlate hr =>
      obtain ⟨moment, cue, htaken, hd⟩ := hw
      rw [htaken]
      exact waits_releases hr hd
  | close hends =>
      obtain ⟨moment, cue, htaken, hd⟩ := hw
      rw [htaken]
      exact ⟨moment, cue, _, rfl, hd⟩
  | desert hends hlate =>
      obtain ⟨moment, cue, htaken, hd⟩ := hw
      rw [htaken]
      exact ⟨moment, cue, _, rfl, hd⟩

namespace Tasks

/-- The supervisor of a server waits for nothing but what it took up. -/
def Waits (t : Tasks σ) : Prop := t.stage.Waits t.grace t.taken

theorem Waits.step {t : Tasks σ} (h : t.Waits) (u : Turn) : (t.step u).Waits := by
  rcases turn_cases u with ⟨exitFirst, rfl⟩ | rfl | hu
  · show (t.wake exitFirst).Waits
    rcases wake_cases t exitFirst with heq | ⟨acts, stage, htodo, hstep, heq⟩ <;> rw [heq]
    · exact h
    · exact waits_steps (Stage.steps_of_step hstep) h
  · show t.act.Waits
    rcases act_cases t with ⟨-, heq⟩ | ⟨a, rest, -, heq⟩ <;> rw [heq] <;> exact h
  · have hb := beside_step t hu
    unfold Waits
    rw [hb.stage, hb.grace, hb.taken]
    exact h

theorem waits_run (b : Blueprint σ) (a : Net.SocketAddress) (turns : List Turn) :
    ((b.running a).tasks.run turns).Waits :=
  run_keeps (P := Waits) (fun _ u h => h.step u) (show (b.running a).tasks.Waits from rfl) turns

end Tasks

end EmbedServer.Lifecycle
