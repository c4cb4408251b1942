/-
What the supervisor can decide on.

There are ten ways in which it gets from one wait to the next, and `Steps` lists them with the
conditions under which each is taken.  Five of them differ again in how the backend is released;
`Releases` says in which way that is.  Every fact about a stop goes through these cases.
-/
import EmbedServer.Lifecycle.Stop

namespace EmbedServer.Lifecycle

theorem deadline_eq {now deadline : Nat} {drain grace : Duration}
    (h : deadline? now drain grace = some deadline) :
    deadline = now + drain.nanos + grace.nanos := by
  simp only [deadline?] at h
  split at h
  · exact (Option.some.inj h).symm
  · cases h

namespace Stage

/-- How the backend is released: at once, too late, or with a wait for it. -/
inductive Releases (v : Sight) (deadline : Nat) : List Act → Stage → Prop
  | atOnce (hclose : v.closing = some .zero) :
      Releases v deadline [.close, .closed, .advance .stopped] .finished
  | late (hclose : v.closing ≠ some .zero) (hlate : deadline ≤ v.now) :
      Releases v deadline [.close, release.late v.backend, .advance .stopped] .finished
  | wait (hclose : v.closing ≠ some .zero) (hearly : v.now < deadline) :
      Releases v deadline [.close] (.closing (v.closing.map (v.now + ·.nanos)) deadline)

/-- What is noted when the transport is waited for no longer. -/
def warning : Act := .tell .warn "Transport still busy after grace margin; aborting"

/-- How the supervisor gets from one wait to the next. -/
inductive Steps (grace : Duration) (v : Sight) : Stage → List Act → Stage → Prop
  /-- The deadline cannot be told. -/
  | lose {cue : Cue} (hcue : v.cue = some cue) (hd : deadline? v.now cue.drain grace = none) :
      Steps grace v .serving [] .lost
  | start {cue : Cue} {deadline : Nat} (hcue : v.cue = some cue)
      (hd : deadline? v.now cue.drain grace = some deadline) (hbusy : v.transportDone = false) :
      Steps grace v .serving (beginning cue)
        (.draining cue.drain (v.now + cue.drain.nanos) deadline)
  /-- The transport has ended already. -/
  | skip {cue : Cue} {deadline : Nat} {acts : List Act} {stage : Stage} (hcue : v.cue = some cue)
      (hd : deadline? v.now cue.drain grace = some deadline) (hdone : v.transportDone = true)
      (hr : Releases v deadline acts stage) : Steps grace v .serving (beginning cue ++ acts) stage
  | drain {timeout : Duration} {limit deadline : Nat} {acts : List Act} {stage : Stage}
      (hdone : v.transportDone = true) (hr : Releases v deadline acts stage) :
      Steps grace v (.draining timeout limit deadline) (drained :: acts) stage
  | exceed {timeout : Duration} {limit deadline : Nat} (hbusy : v.transportDone = false)
      (hlimit : limit ≤ v.now) (hearly : v.now < deadline) :
      Steps grace v (.draining timeout limit deadline) [.exceed v.inFlight timeout, .cancel]
        (.cancelling deadline)
  /-- The drain timeout and the deadline are over together. -/
  | overrun {timeout : Duration} {limit deadline : Nat} {acts : List Act} {stage : Stage}
      (hbusy : v.transportDone = false) (hlimit : limit ≤ v.now) (hlate : deadline ≤ v.now)
      (hr : Releases v deadline acts stage) :
      Steps grace v (.draining timeout limit deadline)
        (.exceed v.inFlight timeout :: .cancel :: warning :: .abort :: acts) stage
  | follow {deadline : Nat} {acts : List Act} {stage : Stage} (hdone : v.transportDone = true)
      (hr : Releases v deadline acts stage) :
      Steps grace v (.cancelling deadline) (drained :: acts) stage
  | abort {deadline : Nat} {acts : List Act} {stage : Stage} (hbusy : v.transportDone = false)
      (hlate : deadline ≤ v.now) (hr : Releases v deadline acts stage) :
      Steps grace v (.cancelling deadline) (warning :: .abort :: acts) stage
  | close {endsAt : Option Nat} {deadline : Nat} (hends : endsAt.any (· ≤ v.now) = true) :
      Steps grace v (.closing endsAt deadline) [.closed, .advance .stopped] .finished
  | desert {endsAt : Option Nat} {deadline : Nat} (hends : endsAt.any (· ≤ v.now) = false)
      (hlate : deadline ≤ v.now) :
      Steps grace v (.closing endsAt deadline) [release.late v.backend, .advance .stopped] .finished

private theorem releases_release (v : Sight) (deadline : Nat) :
    Releases v deadline (release v deadline).1 (release v deadline).2 := by
  unfold release
  by_cases hclose : v.closing = some .zero
  · rw [if_pos hclose]
    exact .atOnce hclose
  · rw [if_neg hclose]
    by_cases hlate : deadline ≤ v.now
    · rw [if_pos hlate]
      exact .late hclose hlate
    · rw [if_neg hlate]
      exact .wait hclose (Nat.lt_of_not_le hlate)

theorem steps_of_step {grace : Duration} {v : Sight} {stage stage' : Stage} {acts : List Act}
    (h : stage.step grace v = some (acts, stage')) : Steps grace v stage acts stage' := by
  cases stage with
  | serving =>
      simp only [step, Option.map_eq_some_iff] at h
      obtain ⟨cue, hcue, h⟩ := h
      cases hd : deadline? v.now cue.drain grace with
      | none =>
          simp only [hd, Prod.mk.injEq] at h
          rw [← h.1, ← h.2]
          exact .lose hcue hd
      | some deadline =>
          cases hdone : v.transportDone with
          | true =>
              simp only [hd, hdone, if_true, Prod.mk.injEq] at h
              rw [← h.1, ← h.2]
              exact .skip hcue hd hdone (releases_release v deadline)
          | false =>
              simp only [hd, hdone, Bool.false_eq_true, if_false, Prod.mk.injEq] at h
              rw [← h.1, ← h.2]
              exact .start hcue hd hdone
  | draining timeout limit deadline =>
      cases hdone : v.transportDone with
      | true =>
          simp only [step, hdone, if_true, Option.some.injEq, Prod.mk.injEq] at h
          rw [← h.1, ← h.2]
          exact .drain hdone (releases_release v deadline)
      | false =>
          simp only [step, hdone, Bool.false_eq_true, if_false] at h
          by_cases hlimit : limit ≤ v.now
          · by_cases hlate : deadline ≤ v.now
            · simp only [hlimit, hlate, if_true, giveUp, Option.some.injEq, Prod.mk.injEq] at h
              rw [← h.1, ← h.2]
              exact .overrun hdone hlimit hlate (releases_release v deadline)
            · simp only [hlimit, hlate, if_true, if_false, Option.some.injEq, Prod.mk.injEq] at h
              rw [← h.1, ← h.2]
              exact .exceed hdone hlimit (Nat.lt_of_not_le hlate)
          · simp [hlimit] at h
  | cancelling deadline =>
      cases hdone : v.transportDone with
      | true =>
          simp only [step, hdone, if_true, Option.some.injEq, Prod.mk.injEq] at h
          rw [← h.1, ← h.2]
          exact .follow hdone (releases_release v deadline)
      | false =>
          simp only [step, hdone, Bool.false_eq_true, if_false] at h
          by_cases hlate : deadline ≤ v.now
          · simp only [hlate, if_true, giveUp, Option.some.injEq, Prod.mk.injEq] at h
            rw [← h.1, ← h.2]
            exact .abort hdone hlate (releases_release v deadline)
          · simp [hlate] at h
  | closing endsAt deadline =>
      simp only [step] at h
      cases hends : endsAt.any (· ≤ v.now) with
      | true =>
          simp only [hends, if_true, Option.some.injEq, Prod.mk.injEq] at h
          rw [← h.1, ← h.2]
          exact .close hends
      | false =>
          simp only [hends, Bool.false_eq_true, if_false] at h
          by_cases hlate : deadline ≤ v.now
          · simp only [hlate, if_true, Option.some.injEq, Prod.mk.injEq] at h
            rw [← h.1, ← h.2]
            exact .desert hends hlate
          · simp [hlate] at h
  | finished => simp [step] at h
  | lost => simp [step] at h

/-! ### The way ahead

A stop ends because every step leads to a later stage, and there are four to come at most.
-/

/-- How many stages are left at most. -/
def left : Stage → Nat
  | .serving => 4
  | .draining .. => 3
  | .cancelling _ => 2
  | .closing .. => 1
  | .finished | .lost => 0

theorem Releases.left_le {v : Sight} {deadline : Nat} {acts : List Act} {stage : Stage}
    (h : Releases v deadline acts stage) : stage.left ≤ 1 := by
  cases h <;> simp [left]

theorem Releases.ne_lost {v : Sight} {deadline : Nat} {acts : List Act} {stage : Stage}
    (h : Releases v deadline acts stage) : stage ≠ .lost := by
  cases h <;> simp

/-- Every step leads to a later stage. -/
theorem Steps.left_lt {grace : Duration} {v : Sight} {stage stage' : Stage} {acts : List Act}
    (h : Steps grace v stage acts stage') : stage'.left < stage.left := by
  cases h with
  | lose hcue hd => simp [left]
  | start hcue hd hbusy => simp [left]
  | skip hcue hd hdone hr => exact Nat.lt_of_le_of_lt hr.left_le (by simp [left])
  | drain hdone hr => exact Nat.lt_of_le_of_lt hr.left_le (by simp [left])
  | exceed hbusy hlimit hearly => simp [left]
  | overrun hbusy hlimit hlate hr => exact Nat.lt_of_le_of_lt hr.left_le (by simp [left])
  | follow hdone hr => exact Nat.lt_of_le_of_lt hr.left_le (by simp [left])
  | abort hbusy hlate hr => exact Nat.lt_of_le_of_lt hr.left_le (by simp [left])
  | close hends => simp [left]
  | desert hends hlate => simp [left]

/-- The supervisor never gets back to serving. -/
theorem Steps.ne_serving {grace : Duration} {v : Sight} {stage stage' : Stage} {acts : List Act}
    (h : Steps grace v stage acts stage') : stage' ≠ .serving := by
  intro hs
  have hlt := h.left_lt
  rw [hs] at hlt
  cases stage <;> simp [left] at hlt

/-- The wait for the transport is the first of a stop. -/
theorem Steps.serving_of_draining {grace : Duration} {v : Sight} {stage : Stage} {acts : List Act}
    {timeout : Duration} {limit deadline : Nat}
    (h : Steps grace v stage acts (.draining timeout limit deadline)) : stage = .serving := by
  have hlt := h.left_lt
  cases stage <;> simp [left] at hlt ⊢

/-- A supervisor is lost when it begins a stop, or not at all. -/
theorem Steps.ne_lost {grace : Duration} {v : Sight} {stage stage' : Stage} {acts : List Act}
    (h : Steps grace v stage acts stage') (hs : stage ≠ .serving) : stage' ≠ .lost := by
  cases h with
  | lose hcue hd => exact absurd rfl hs
  | start hcue hd hbusy => exact absurd rfl hs
  | skip hcue hd hdone hr => exact absurd rfl hs
  | drain hdone hr => exact hr.ne_lost
  | exceed hbusy hlimit hearly => simp
  | overrun hbusy hlimit hlate hr => exact hr.ne_lost
  | follow hdone hr => exact hr.ne_lost
  | abort hbusy hlate hr => exact hr.ne_lost
  | close hends => simp
  | desert hends hlate => simp

/-! ### What tells one way from another

Some acts occur in few of the ten ways.  From such an act one can tell the stage in which it was decided
on, and what the supervisor saw there.
-/

/-- Whether an act belongs to the end of the drain timeout. -/
def isCut : Act → Bool
  | .exceed .. | .cancel => true
  | .advance _ | .publish .. | .note _ | .freeze | .drain | .abort | .close | .closed => false

private theorem beginning_uncut (cue : Cue) : ∀ a ∈ beginning cue, isCut a = false := by
  cases cue <;> simp [beginning, Act.tell, isCut]

theorem Releases.uncut {v : Sight} {deadline : Nat} {acts : List Act} {stage : Stage}
    (h : Releases v deadline acts stage) : ∀ a ∈ acts, isCut a = false := by
  cases h <;> simp [release.late, Act.tell, isCut]

/-- Calls are cut off, with a warning, by a supervisor that has waited for the transport in vain. -/
theorem Steps.draining_of_cut {grace : Duration} {v : Sight} {stage stage' : Stage}
    {acts : List Act} (h : Steps grace v stage acts stage') {a : Act} (hmem : a ∈ acts)
    (hcut : isCut a = true) : ∃ timeout limit deadline, stage = .draining timeout limit deadline ∧
      limit ≤ v.now ∧ (a = .exceed v.inFlight timeout ∨ a = .cancel) := by
  have huncut : isCut a ≠ false := by rw [hcut]; decide
  cases h with
  | lose hcue hd => cases hmem
  | start hcue hd hbusy => exact absurd (beginning_uncut _ a hmem) huncut
  | skip hcue hd hdone hr =>
      rcases List.mem_append.mp hmem with hbegin | hrelease
      · exact absurd (beginning_uncut _ a hbegin) huncut
      · exact absurd (hr.uncut a hrelease) huncut
  | drain hdone hr =>
      rcases List.mem_cons.mp hmem with rfl | hrelease
      · cases hcut
      · exact absurd (hr.uncut a hrelease) huncut
  | exceed hbusy hlimit hearly =>
      exact ⟨_, _, _, rfl, hlimit, by simpa using hmem⟩
  | overrun hbusy hlimit hlate hr =>
      simp only [List.mem_cons] at hmem
      rcases hmem with hexceed | hcancel | rfl | rfl | hrelease
      · exact ⟨_, _, _, rfl, hlimit, Or.inl hexceed⟩
      · exact ⟨_, _, _, rfl, hlimit, Or.inr hcancel⟩
      · cases hcut
      · cases hcut
      · exact absurd (hr.uncut a hrelease) huncut
  | follow hdone hr =>
      rcases List.mem_cons.mp hmem with rfl | hrelease
      · cases hcut
      · exact absurd (hr.uncut a hrelease) huncut
  | abort hbusy hlate hr =>
      simp only [List.mem_cons] at hmem
      rcases hmem with rfl | rfl | hrelease
      · cases hcut
      · cases hcut
      · exact absurd (hr.uncut a hrelease) huncut
  | close hends =>
      simp only [List.mem_cons, List.not_mem_nil, or_false] at hmem
      rcases hmem with rfl | rfl <;> cases hcut
  | desert hends hlate =>
      simp only [List.mem_cons, List.not_mem_nil, or_false] at hmem
      rcases hmem with rfl | rfl <;> cases hcut

/-- Whoever closes the backend has waited for the transport, and has seen it end or cancels. -/
theorem Steps.of_close {grace : Duration} {v : Sight} {stage stage' : Stage} {acts : List Act}
    (h : Steps grace v stage acts stage') (hmem : Act.close ∈ acts) :
    (∃ deadline, stage = .cancelling deadline) ∨
      ((stage = .serving ∨ ∃ timeout limit deadline, stage = .draining timeout limit deadline) ∧
        (v.transportDone = true ∨ .cancel ∈ acts)) := by
  cases h with
  | lose hcue hd => cases hmem
  | @start cue deadline hcue hd hbusy =>
      cases cue <;> simp [beginning, Act.tell] at hmem
  | skip hcue hd hdone hr => exact Or.inr ⟨Or.inl rfl, Or.inl hdone⟩
  | drain hdone hr => exact Or.inr ⟨Or.inr ⟨_, _, _, rfl⟩, Or.inl hdone⟩
  | exceed hbusy hlimit hearly => simp at hmem
  | overrun hbusy hlimit hlate hr => exact Or.inr ⟨Or.inr ⟨_, _, _, rfl⟩, Or.inr (by simp)⟩
  | follow hdone hr => exact Or.inl ⟨_, rfl⟩
  | abort hbusy hlate hr => exact Or.inl ⟨_, rfl⟩
  | close hends => simp at hmem
  | desert hends hlate => simp [release.late, Act.tell] at hmem

/-- There is a second wait for the transport only if the drain timeout is over before the
deadline. -/
theorem Steps.to_cancelling {grace : Duration} {v : Sight} {stage : Stage} {acts : List Act}
    {deadline : Nat} (h : Steps grace v stage acts (.cancelling deadline)) :
    ∃ timeout limit, stage = .draining timeout limit deadline ∧ limit ≤ v.now ∧
      v.now < deadline := by
  have hrelease : ∀ {deadline' acts}, ¬Releases v deadline' acts (.cancelling deadline) :=
    fun hr => absurd hr.left_le (by simp [left])
  cases h with
  | skip hcue hd hdone hr => exact absurd hr hrelease
  | drain hdone hr => exact absurd hr hrelease
  | exceed hbusy hlimit hearly => exact ⟨_, _, rfl, hlimit, hearly⟩
  | overrun hbusy hlimit hlate hr => exact absurd hr hrelease
  | follow hdone hr => exact absurd hr hrelease
  | abort hbusy hlate hr => exact absurd hr hrelease

end Stage

end EmbedServer.Lifecycle
