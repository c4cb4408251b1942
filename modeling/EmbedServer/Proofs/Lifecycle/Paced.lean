/-
What is planned at each stage of a stop, and when.

The transport is gone when it has ended or is given up: before the cancellation, after it, or at the
deadline.  `Gone` tells the three apart.  The supervisor waits three times at most: for the transport until
the drain timeout is over, again for the transport until the deadline, and for the backend until the
deadline.  As long as the clock waits for the supervisor no wait is outlasted, so each stage comes with an
interval that the present moment lies in.  `Paced` says which, and what has been planned until then.
-/
import EmbedServer.Proofs.Lifecycle.Progress

namespace EmbedServer.Lifecycle

variable {σ : Type}

/-- Whether an act is a cancellation, the loss of patience with the transport, or the end. -/
def Act.isMark : Act → Bool
  | .cancel | .abort | .advance .stopped => true
  | _ => false

/-! ### When the transport is gone

Each of the three ways comes with the marks that have been planned by then, because whether there was a
cancellation, or a loss of patience, is seen from these alone.
-/

/-- How the transport was gone at a moment, and what had been planned by then. -/
inductive Gone (since limit deadline : Nat) (endedAt : Option Nat) (moment : Nat) :
    List (Nat × Act) → Prop
  | calm {f : Nat} (h : endedAt = some f) (hmoment : moment = max since f) (hle : moment ≤ limit) :
      Gone since limit deadline endedAt moment []
  | cancelled (h : endedAt = some moment) (hge : limit ≤ moment) (hle : moment ≤ deadline) :
      Gone since limit deadline endedAt moment [(limit, .cancel)]
  | aborted (hmoment : moment = deadline) (h : ∀ f, endedAt = some f → deadline ≤ f) :
      Gone since limit deadline endedAt moment [(limit, .cancel), (deadline, .abort)]

/-- The moment at which the transport is gone: it has ended, or is given up at the deadline. -/
def goneAt (since deadline : Nat) : Option Nat → Nat
  | some f => min (max since f) deadline
  | none => deadline

/-- The moment at which a stop is over whose backend is closed at a moment and takes this long. -/
def overAt (deadline moment : Nat) : Option Duration → Nat
  | some takes => min deadline (moment + takes.nanos)
  | none => deadline

variable {since limit deadline : Nat}

theorem Gone.eq_goneAt {endedAt : Option Nat} {moment : Nat} {before : List (Nat × Act)}
    (h : Gone since limit deadline endedAt moment before) (hl : since ≤ limit)
    (hd : limit ≤ deadline) : moment = goneAt since deadline endedAt := by
  cases h with
  | calm h hmoment hle =>
      rw [h, goneAt]
      omega
  | cancelled h hge hle =>
      rw [h, goneAt]
      omega
  | aborted hmoment h =>
      cases hended : endedAt with
      | none => exact hmoment
      | some f =>
          have := h f hended
          rw [goneAt]
          omega

/-- Once the transport is gone it makes no difference when it is seen to end. -/
theorem Gone.later {endedAt : Option Nat} {moment now : Nat} {before : List (Nat × Act)}
    (h : Gone since limit deadline endedAt moment before) (hnow : moment ≤ now) :
    Gone since limit deadline (endedAt.or (some now)) moment before := by
  cases h with
  | calm h hmoment hle => exact .calm (by rw [h]; rfl) hmoment hle
  | cancelled h hge hle => exact .cancelled (by rw [h]; rfl) hge hle
  | aborted hmoment h =>
      refine .aborted hmoment ?_
      intro f hf
      cases hended : endedAt with
      | none =>
          rw [hended] at hf
          simp only [Option.none_or, Option.some.injEq] at hf
          omega
      | some f' =>
          rw [hended] at hf
          exact h f (by rw [hended]; exact hf)

/-- Computations were cancelled exactly if the transport outlasted the drain timeout. -/
theorem Gone.cancel_mem {endedAt : Option Nat} {moment : Nat} {before : List (Nat × Act)}
    (h : Gone since limit deadline endedAt moment before) (hd : limit ≤ deadline)
    (htie : endedAt ≠ some limit) :
    (∃ m, (m, Act.cancel) ∈ before) ↔ ∀ f, endedAt = some f → limit < f := by
  have hne : ∀ f, endedAt = some f → f ≠ limit := fun f hf heq => htie (by rw [hf, heq])
  cases h with
  | @calm f h hmoment hle =>
      refine ⟨fun ⟨m, hm⟩ => (by cases hm), ?_⟩
      intro hlate
      have := hlate f h
      omega
  | cancelled h hge hle =>
      refine ⟨?_, fun _ => ⟨limit, by simp⟩⟩
      intro _ f hf
      have := hne f hf
      rw [h] at hf
      cases hf
      omega
  | aborted hmoment h =>
      refine ⟨?_, fun _ => ⟨limit, by simp⟩⟩
      intro _ f hf
      have := hne f hf
      have := h f hf
      omega

/-- The transport was given up exactly if it outlasted the deadline. -/
theorem Gone.abort_mem {endedAt : Option Nat} {moment : Nat} {before : List (Nat × Act)}
    (h : Gone since limit deadline endedAt moment before) (hd : limit ≤ deadline)
    (htie : endedAt ≠ some deadline) :
    (∃ m, (m, Act.abort) ∈ before) ↔ ∀ f, endedAt = some f → deadline < f := by
  cases h with
  | @calm f h hmoment hle =>
      refine ⟨fun ⟨m, hm⟩ => (by cases hm), ?_⟩
      intro hlate
      have := hlate f h
      omega
  | cancelled h hge hle =>
      refine ⟨fun ⟨m, hm⟩ => (by simp at hm), ?_⟩
      intro hlate
      have := hlate moment h
      omega
  | aborted hmoment h =>
      refine ⟨?_, fun _ => ⟨deadline, by simp⟩⟩
      intro _ f hf
      have hne : f ≠ deadline := fun heq => htie (by rw [hf, heq])
      have := h f hf
      omega

theorem Gone.not_stopped {endedAt : Option Nat} {moment m : Nat} {before : List (Nat × Act)}
    (h : Gone since limit deadline endedAt moment before) :
    (m, Act.advance .stopped) ∉ before := by
  cases h <;> simp

/-! ### What is planned at each stage -/

/-- Where a stop stands in time: the present moment, the end of the transport, the time that the
backend takes, what is decided on, and what has been planned with its moments. -/
def Stage.Paced (since limit deadline now : Nat) (endedAt : Option Nat)
    (letGo : Option (Option Duration)) (todo : List Act) (marks : List (Nat × Act)) : Stage → Prop
  | .serving | .lost => False
  | .draining _ limit' deadline' => limit' = limit ∧ deadline' = deadline ∧ marks = [] ∧
      now ≤ limit ∧ ∀ f, endedAt = some f → f = now
  | .cancelling deadline' => deadline' = deadline ∧ marks = [(limit, .cancel)] ∧
      limit ≤ now ∧ now ≤ deadline ∧ ∀ f, endedAt = some f → f = now
  | .closing endsAt deadline' => deadline' = deadline ∧
      ∃ moment takes, letGo = some takes ∧ Gone since limit deadline endedAt moment marks ∧
        endsAt = takes.map (moment + ·.nanos) ∧ moment ≤ now ∧ now ≤ deadline ∧
        ∀ x, endsAt = some x → now ≤ x
  | .finished => ∃ moment takes before, letGo = some takes ∧
      Gone since limit deadline endedAt moment before ∧ moment ≤ now ∧
      marks = before ++ [(overAt deadline moment takes, .advance .stopped)] ∧
      overAt deadline moment takes ≤ now ∧ (todo = [] ∨ todo.getLast? = some (.advance .stopped))

/-- A stop that is over at this moment. -/
private theorem paced_over {now moment : Nat} {endedAt : Option Nat} {takes : Option Duration}
    {todo : List Act} {before marks : List (Nat × Act)}
    (hgone : Gone since limit deadline endedAt moment before) (hmoment : moment ≤ now)
    (hover : overAt deadline moment takes = now) (hmarks : marks = before ++ [(now, .advance .stopped)])
    (hlast : todo = [] ∨ todo.getLast? = some (.advance .stopped)) :
    Stage.finished.Paced since limit deadline now endedAt (some takes) todo marks :=
  ⟨moment, takes, before, rfl, hgone, hmoment, by rw [hmarks, hover], Nat.le_of_eq hover, hlast⟩

/-- The acts of a release, once the transport is gone. -/
theorem paced_releases {v : Sight} {endedAt : Option Nat} {before : List (Nat × Act)}
    {acts : List Act} {stage : Stage} (first : List (Nat × Act)) (lead : List Act)
    (h : Stage.Releases v deadline acts stage)
    (hnow : v.now ≤ deadline) (hgone : Gone since limit deadline endedAt v.now before)
    (hlead : (first ++ (lead.filter Act.isMark).map (v.now, ·)) = before) :
    stage.Paced since limit deadline v.now endedAt (some v.closing) (lead ++ acts)
      (first ++ ((lead ++ acts).filter Act.isMark).map (v.now, ·)) := by
  rw [List.filter_append, List.map_append, ← List.append_assoc, hlead]
  cases h with
  | atOnce hclose =>
      have hover : overAt deadline v.now v.closing = v.now := by
        simp [hclose, overAt, Duration.zero, hnow]
      refine paced_over hgone (Nat.le_refl _) hover rfl (Or.inr ?_)
      rw [List.getLast?_append]
      rfl
  | late hclose hlate =>
      have hover : overAt deadline v.now v.closing = v.now := by
        cases hc : v.closing with
        | none => exact Nat.le_antisymm hlate hnow
        | some d =>
            rw [overAt]
            omega
      refine paced_over hgone (Nat.le_refl _) hover rfl (Or.inr ?_)
      rw [List.getLast?_append]
      rfl
  | wait hclose hearly =>
      refine ⟨rfl, v.now, v.closing, rfl, ?_, rfl, Nat.le_refl _, hnow, ?_⟩
      · rw [show ([Act.close].filter Act.isMark).map (v.now, ·) = [] from rfl, List.append_nil]
        exact hgone
      · intro x hx
        obtain ⟨d, -, rfl⟩ := Option.map_eq_some_iff.mp hx
        exact Nat.le_add_right _ _

/-- Every release closes the backend. -/
theorem close_mem_releases {v : Sight} {acts : List Act} {stage : Stage}
    (h : Stage.Releases v deadline acts stage) : Act.close ∈ acts := by
  cases h <;> simp

/-- A transport that is seen to be done has ended. -/
private theorem ended_of_done {v : Sight} {endedAt : Option Nat}
    (hended : v.transportDone = endedAt.isSome) (hdone : v.transportDone = true) :
    ∃ f, endedAt = some f :=
  Option.isSome_iff_exists.mp (hended.symm.trans hdone)

/-- Nothing is to be said of the end of a transport that is seen to be busy. -/
private theorem unended_of_busy {P : Nat → Prop} {v : Sight} {endedAt : Option Nat}
    (hended : v.transportDone = endedAt.isSome) (hbusy : v.transportDone = false) :
    ∀ f, endedAt = some f → P f := by
  intro f hf
  rw [hbusy, hf] at hended
  cases hended

private theorem marks_beginning (cue : Cue) : (Stage.beginning cue).filter Act.isMark = [] := by
  cases cue <;> rfl

/-- The first step of a stop. -/
theorem paced_start (letGo : Option (Option Duration)) {grace : Duration} {v : Sight} {cue : Cue}
    {endedAt : Option Nat} {acts : List Act} {stage : Stage}
    (h : Stage.Steps grace v .serving acts stage) (hcue : v.cue = some cue)
    (hd : deadline? v.now cue.drain grace = some deadline)
    (hended : v.transportDone = endedAt.isSome) (hpast : ∀ f, endedAt = some f → f ≤ v.now) :
    stage.Paced v.now (v.now + cue.drain.nanos) deadline v.now endedAt
      (if .close ∈ acts then some v.closing else letGo) acts
      ((acts.filter Act.isMark).map (v.now, ·)) := by
  have hdeadline := deadline_eq hd
  cases h with
  | lose hcue' hd' =>
      rw [hcue] at hcue'
      cases hcue'
      rw [hd] at hd'
      cases hd'
  | start hcue' hd' hbusy =>
      rw [hcue] at hcue'
      cases hcue'
      rw [hd] at hd'
      cases hd'
      exact ⟨rfl, rfl, by rw [marks_beginning]; rfl, Nat.le_add_right _ _, unended_of_busy hended hbusy⟩
  | @skip cue' deadline' acts stage hcue' hd' hdone hr =>
      rw [hcue] at hcue'
      cases hcue'
      rw [hd] at hd'
      cases hd'
      obtain ⟨f, hf⟩ := ended_of_done hended hdone
      have hle := hpast f hf
      have hgone : Gone v.now (v.now + cue.drain.nanos) deadline endedAt v.now [] :=
        .calm hf (by omega) (by omega)
      rw [if_pos (List.mem_append_right _ (close_mem_releases hr))]
      exact paced_releases [] _ hr (by omega) hgone (by rw [marks_beginning]; rfl)

/-- A later step of a stop. -/
theorem paced_steps {grace : Duration} {v : Sight} {endedAt : Option Nat}
    {letGo : Option (Option Duration)} {marks : List (Nat × Act)} {acts : List Act}
    {stage stage' : Stage} (h : Stage.Steps grace v stage acts stage')
    (hp : stage.Paced since limit deadline v.now endedAt letGo [] marks)
    (hended : v.transportDone = endedAt.isSome) (hsince : since ≤ v.now) (hd : limit ≤ deadline) :
    stage'.Paced since limit deadline v.now endedAt
      (if .close ∈ acts then some v.closing else letGo) acts
      (marks ++ (acts.filter Act.isMark).map (v.now, ·)) := by
  cases h with
  | lose hcue hd' => exact hp.elim
  | start hcue hd' hbusy => exact hp.elim
  | skip hcue hd' hdone hr => exact hp.elim
  | drain hdone hr =>
      obtain ⟨hlimit, hdeadline, hmarks, hnow, hlast⟩ := hp
      rw [hdeadline] at hr
      obtain ⟨f, hf⟩ := ended_of_done hended hdone
      have hfnow := hlast f hf
      rw [if_pos (List.mem_cons_of_mem _ (close_mem_releases hr)), hmarks]
      exact paced_releases [] [Stage.drained] hr (by omega) (.calm hf (by omega) hnow) rfl
  | exceed hbusy hlimit hearly =>
      obtain ⟨hlimit', hdeadline, hmarks, hnow, hlast⟩ := hp
      have hmoment : v.now = limit := by omega
      rw [if_neg (by simp), hmarks]
      refine ⟨hdeadline, ?_, by omega, by omega, hlast⟩
      rw [hmoment]
      rfl
  | overrun hbusy hlimit hlate hr =>
      obtain ⟨hlimit', hdeadline, hmarks, hnow, hlast⟩ := hp
      rw [hdeadline] at hr hlate
      have hmoment : v.now = limit := by omega
      have hsame : v.now = deadline := by omega
      rw [if_pos (by simp [close_mem_releases hr]), hmarks]
      refine paced_releases [] [.exceed v.inFlight _, .cancel, Stage.warning, .abort] hr (by omega)
        (.aborted hsame (unended_of_busy hended hbusy)) ?_
      rw [← hmoment, ← hsame]
      rfl
  | follow hdone hr =>
      obtain ⟨hdeadline, hmarks, hge, hnow, hlast⟩ := hp
      rw [hdeadline] at hr
      obtain ⟨f, hf⟩ := ended_of_done hended hdone
      have hfnow := hlast f hf
      rw [if_pos (List.mem_cons_of_mem _ (close_mem_releases hr)), hmarks]
      exact paced_releases _ [Stage.drained] hr hnow (.cancelled (by rw [hf, hfnow]) hge hnow) rfl
  | abort hbusy hlate hr =>
      obtain ⟨hdeadline, hmarks, hge, hnow, hlast⟩ := hp
      rw [hdeadline] at hr hlate
      have hmoment : v.now = deadline := by omega
      rw [if_pos (by simp [close_mem_releases hr]), hmarks]
      refine paced_releases _ [Stage.warning, .abort] hr hnow
        (.aborted hmoment (unended_of_busy hended hbusy)) ?_
      rw [hmoment]
      rfl
  | close hends =>
      obtain ⟨hdeadline, moment, takes, hletGo, hgone, hendsAt, hmoment, hnow, hx⟩ := hp
      obtain ⟨x, hsome, hle⟩ := Option.any_eq_true _ _ |>.mp hends
      have hover : overAt deadline moment takes = v.now := by
        have := hx x hsome
        rw [hendsAt] at hsome
        obtain ⟨d, hd', rfl⟩ := Option.map_eq_some_iff.mp hsome
        simp only [decide_eq_true_eq] at hle
        rw [hd', overAt]
        omega
      rw [if_neg (by simp), hletGo]
      exact paced_over hgone hmoment hover rfl (Or.inr rfl)
  | desert hends hlate =>
      obtain ⟨hdeadline, moment, takes, hletGo, hgone, hendsAt, hmoment, hnow, hx⟩ := hp
      rw [hdeadline] at hlate
      have hover : overAt deadline moment takes = v.now := by
        cases htakes : takes with
        | none => exact Nat.le_antisymm hlate hnow
        | some d =>
            have := hx (moment + d.nanos) (by rw [hendsAt, htakes]; rfl)
            rw [overAt]
            omega
      rw [if_neg (by simp [Stage.release.late, Act.tell]), hletGo]
      exact paced_over hgone hmoment hover rfl (Or.inr rfl)

end EmbedServer.Lifecycle
