/-
What the fates of a question say.

A fate says one answer, and whether it is final; an attempt that fits a fate says the same.  A question is
repeated as long as its fate is not final and a retry is left, so everything hangs on one number: how many
of the attempts are mended by another.  It is the place of the first final fate, or the number of retries if
that is less, and `Mended` says no more of it than a round of the loop looks at.
-/
import EmbedServer.Backend.Factory
import EmbedServer.Backend.Remote.Loop
import Mathlib.Data.Nat.Find

namespace EmbedServer.Backend.Remote

variable {σ : Type}

/-! ### What a fate says -/

namespace Answer

private theorem leastItem_eq_none {items : List Item} : leastItem items = none ↔ items = [] := by
  cases items with
  | nil => simp [leastItem]
  | cons i rest =>
      simp only [leastItem]
      split <;> simp

/-- The item that counts has the least index, and is the first that has it. -/
theorem leastItem_eq_some {items : List Item} {i : Item} (h : leastItem items = some i) :
    ∃ before after, items = before ++ i :: after ∧ (∀ j ∈ before, i.index < j.index) ∧
      ∀ j ∈ after, i.index ≤ j.index := by
  induction items generalizing i with
  | nil => simp [leastItem] at h
  | cons first rest ih =>
      simp only [leastItem] at h
      cases hrest : leastItem rest with
      | none =>
          simp only [hrest] at h
          obtain rfl := Option.some.inj h
          rw [leastItem_eq_none.mp hrest]
          exact ⟨[], [], rfl, by simp, by simp⟩
      | some least =>
          obtain ⟨before, after, rfl, hbefore, hafter⟩ := ih hrest
          simp only [hrest] at h
          by_cases hlt : least.index < first.index
          · rw [if_pos hlt] at h
            obtain rfl := Option.some.inj h
            refine ⟨first :: before, after, rfl, ?_, hafter⟩
            exact List.forall_mem_cons.mpr ⟨hlt, hbefore⟩
          · rw [if_neg hlt] at h
            obtain rfl := Option.some.inj h
            have hle : first.index ≤ least.index := Nat.le_of_not_lt hlt
            refine ⟨[], _, rfl, by simp, ?_⟩
            intro j hj
            rcases List.mem_append.mp hj with hj | hj
            · exact Nat.le_trans hle (Nat.le_of_lt (hbefore j hj))
            · rcases List.mem_cons.mp hj with rfl | hj
              · exact hle
              · exact Nat.le_trans hle (hafter j hj)

end Answer

/-- The first item with the least index is one item. -/
theorem least_unique {before after before' after' : List Item} {i i' : Item}
    (h : before ++ i :: after = before' ++ i' :: after') (hbefore : ∀ j ∈ before, i.index < j.index)
    (hafter : ∀ j ∈ after, i.index ≤ j.index) (hbefore' : ∀ j ∈ before', i'.index < j.index)
    (hafter' : ∀ j ∈ after', i'.index ≤ j.index) : i = i' := by
  induction before generalizing before' with
  | nil =>
      cases before' with
      | nil => exact (List.cons.inj h).1
      | cons j rest =>
          obtain ⟨rfl, rfl⟩ := List.cons.inj h
          have hlt := hbefore' i List.mem_cons_self
          have hle := hafter i' (List.mem_append_right _ List.mem_cons_self)
          omega
  | cons j rest ih =>
      cases before' with
      | nil =>
          obtain ⟨rfl, rfl⟩ := List.cons.inj h
          have hlt := hbefore j List.mem_cons_self
          have hle := hafter' i (List.mem_append_right _ List.mem_cons_self)
          omega
      | cons j' rest' =>
          exact ih (List.cons.inj h).2 (fun x hx => hbefore x (List.mem_cons_of_mem _ hx))
            (fun x hx => hbefore' x (List.mem_cons_of_mem _ hx))

namespace Fate

/-- A fate says one thing. -/
theorem Says.unique {limit : Duration} {f : Fate} {a a' : Backend.Answer} (h : f.Says limit a)
    (h' : f.Says limit a') : a = a' := by
  cases h with
  | lost => cases h'; rfl
  | late => cases h'; rfl
  | brokenOff h =>
      cases h' with
      | brokenOff h' => rfl
      | refusedShort h' => exact absurd h h'
  | refusedShort h =>
      cases h' with
      | brokenOff h' => exact absurd h' h
      | refusedShort h' => rfl
  | refused status =>
      cases h' with
      | refused status' => rfl
      | vector status' => exact absurd status' status
      | empty status' => exact absurd status' status
      | unreadable status' => exact absurd status' status
  | unreadable status body =>
      cases h' with
      | refused status' => exact absurd status status'
      | vector _ body' => rw [body] at body'; cases body'
      | empty _ body' => rw [body] at body'; cases body'
      | unreadable _ body' => rw [body] at body'; cases body'; rfl
  | empty status body data =>
      cases h' with
      | refused status' => exact absurd status status'
      | vector _ body' data' => rw [body] at body'; cases body'; simp [data] at data'
      | empty => rfl
      | unreadable _ body' => rw [body] at body'; cases body'
  | vector status body data earlier later =>
      cases h' with
      | refused status' => exact absurd status status'
      | vector _ body' data' earlier' later' =>
          rw [body] at body'
          cases body'
          rw [data] at data'
          rw [least_unique data' earlier later earlier' later']
      | empty _ body' data' => rw [body] at body'; cases body'; simp [data] at data'
      | unreadable _ body' => rw [body] at body'; cases body'

end Fate

namespace Attempt

private theorem isFinalStatus_of_success {status : Http.Status} (h : status / 100 = 2) :
    isFinalStatus status = true := by
  unfold isFinalStatus
  have hne : status ≠ 429 := by
    intro heq
    rw [heq] at h
    cases h
  simp [hne, h]

private theorem again_refused (status : Http.Status) :
    (status = Http.Status.tooManyRequests || status.isServerError) = !isFinalStatus status := by
  unfold isFinalStatus Http.Status.tooManyRequests Http.Status.isServerError
  rw [Bool.not_and, bne, bne, Bool.not_not, Bool.not_not]
  rfl

/-- What an attempt is worth: whether another one follows goes by whether the fate of its question is
final, and its answer is what that fate says. -/
structure Fits (limit : Duration) (f : Fate) (a : Attempt) : Prop where
  tells : f.Says limit a.answer
  again : ∀ e again, a = .failure e again → again = !f.isFinal
  vector : ∀ v, a = .vector v → f.isFinal = true

theorem Fits.of_failure {limit : Duration} {f : Fate} {e : Error} {again : Bool}
    (tells : f.Says limit (.error e)) (h : again = !f.isFinal) :
    Fits limit f (.failure e again) where
  tells := tells
  again e' again' heq := by
    cases heq
    exact h
  vector v heq := by cases heq

theorem Fits.of_vector {limit : Duration} {f : Fate} {v : List Float}
    (tells : f.Says limit (.ok v)) (h : f.isFinal = true) : Fits limit f (.vector v) where
  tells := tells
  again e again heq := by cases heq
  vector v' heq := h

theorem fits_ofFate (limit : Duration) (f : Fate) : Fits limit f (ofFate limit f) := by
  cases f with
  | lost => exact .of_failure .lost rfl
  | late => exact .of_failure .late rfl
  | brokenOff status cause =>
      simp only [ofFate, Http.Status.isSuccess, beq_iff_eq]
      by_cases hs : status / 100 = 2
      · rw [if_pos hs]
        refine .of_failure (.brokenOff hs) ?_
        simp only [Fate.isFinal, isFinalStatus_of_success hs, Bool.not_true]
      · rw [if_neg hs, refused, String.append_empty]
        exact .of_failure (.refusedShort hs) (again_refused status)
  | answered r =>
      simp only [ofFate, ofReceived, Http.Status.isSuccess, beq_iff_eq]
      by_cases hs : r.status / 100 = 2
      · rw [if_pos hs]
        have hfinal : (Fate.answered r).isFinal = true := isFinalStatus_of_success hs
        have hnever : false = !(Fate.answered r).isFinal := by rw [hfinal, Bool.not_true]
        cases hbody : Json.Reader.run Answer.shape r.content with
        | error e =>
            simp only [readVector, hbody]
            exact .of_failure (.unreadable hs hbody) hnever
        | ok a =>
            cases hleast : Answer.leastItem a.data with
            | none =>
                simp only [readVector, hbody, Answer.first, hleast, Option.map_none]
                exact .of_failure (.empty hs hbody (Answer.leastItem_eq_none.mp hleast)) hnever
            | some i =>
                obtain ⟨before, after, hdata, hbefore, hafter⟩ := Answer.leastItem_eq_some hleast
                simp only [readVector, hbody, Answer.first, hleast, Option.map_some]
                exact .of_vector (.vector hs hbody hdata hbefore hafter) hfinal
      · rw [if_neg hs]
        exact .of_failure (.refused hs) (again_refused r.status)

/-- An attempt whose question comes to no final fate can be mended. -/
theorem ofFate_mendable (limit : Duration) {f : Fate} (h : f.isFinal = false) :
    ∃ e, ofFate limit f = .failure e true := by
  have hfits := fits_ofFate limit f
  cases ha : ofFate limit f with
  | vector v =>
      have hfinal := hfits.vector v ha
      rw [h] at hfinal
      cases hfinal
  | failure e again =>
      refine ⟨e, ?_⟩
      rw [hfits.again e again ha, h]
      rfl

end Attempt

/-! ### The attempts that are mended

`Mended` counts the attempts that are followed by another.  It is about a list of fates that has no end,
because how far the list is looked at is what has to be found out.
-/

/-- Of the attempts with these fates, `n` are mended by another, if `retries` may be. -/
structure Mended (fate : Nat → Fate) (retries n : Nat) : Prop where
  le : n ≤ retries
  before : ∀ i < n, (fate i).isFinal = false
  last : n = retries ∨ (fate n).isFinal = true

theorem exists_firstFinal (fate : Nat → Fate) : ∃ k, FirstFinal fate k := by
  by_cases h : ∃ k, (fate k).isFinal = true
  · refine ⟨some (Nat.find h), Nat.find_spec h, ?_⟩
    intro i hi
    exact Bool.eq_false_iff.mpr (Nat.find_min h hi)
  · refine ⟨none, fun i => Bool.eq_false_iff.mpr ?_⟩
    exact fun hi => h ⟨i, hi⟩

theorem FirstFinal.unique {fate : Nat → Fate} {k k' : Option Nat} (h : FirstFinal fate k)
    (h' : FirstFinal fate k') : k = k' := by
  have hlast {i : Nat} (hi : (fate i).isFinal = true) (hi' : (fate i).isFinal = false) : False := by
    rw [hi] at hi'
    cases hi'
  cases k with
  | none =>
      cases k' with
      | none => rfl
      | some k' => exact (hlast h'.1 (h k')).elim
  | some k =>
      cases k' with
      | none => exact (hlast h.1 (h' k)).elim
      | some k' =>
          rcases Nat.lt_trichotomy k k' with hlt | rfl | hlt
          · exact (hlast h.1 (h'.2 k hlt)).elim
          · rfl
          · exact (hlast h'.1 (h.2 k' hlt)).elim

theorem mended_of_firstFinal {fate : Nat → Fate} {k : Option Nat} (h : FirstFinal fate k)
    (retries : Nat) : Mended fate retries (k.elim retries (min · retries)) := by
  cases k with
  | none => exact ⟨Nat.le_refl _, fun i _ => h i, Or.inl rfl⟩
  | some k =>
      obtain ⟨hk, hbefore⟩ := h
      refine ⟨Nat.min_le_right _ _, fun i hi => hbefore i (Nat.lt_of_lt_of_le hi ?_), ?_⟩
      · exact Nat.min_le_left _ _
      · rcases Nat.le_total k retries with hle | hle
        · exact Or.inr (by rw [Option.elim_some, Nat.min_eq_left hle]; exact hk)
        · exact Or.inl (Nat.min_eq_right hle)

theorem Mended.tail {fate : Nat → Fate} {retries n : Nat} (h : Mended fate (retries + 1) (n + 1)) :
    Mended (fun i => fate (i + 1)) retries n where
  le := Nat.le_of_succ_le_succ h.le
  before := fun i hi => h.before (i + 1) (Nat.succ_lt_succ hi)
  last := h.last.imp_left Nat.succ.inj

end EmbedServer.Backend.Remote
