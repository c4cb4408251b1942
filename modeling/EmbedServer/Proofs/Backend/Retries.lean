/-
How often a remote executor is asked.

From the number of attempts that are mended (`Proofs/Backend/Fates`) both forms of the loop are read off by
induction, the recursion on the retries and the rounds on words.

On words nothing is lost as long as the pause after the last retry can be told: the pauses before it are
shorter, and no more than fifty-seven retries have such a pause, so that the count fits as well.
-/
import EmbedServer.Proofs.Backend.Fates
import EmbedServer.Proofs.Settings.Validation

namespace EmbedServer.Backend.Remote

variable {σ : Type}

/-! ### The recursion on the retries -/

section Attempts

variable {send : σ → σ × Attempt} {s s' : σ} {left first : Nat}

private theorem attempts_vector {v : List Float} (h : send s = (s', .vector v)) :
    attempts send left first s = ⟨s', first, [], [successEvent first], .ok v⟩ := by
  unfold attempts
  rw [h]

private theorem attempts_again {e : Error} {rest : Course σ} (h : send s = (s', .failure e true))
    (hrest : attempts send left (first + 1) s' = rest) :
    attempts send (left + 1) first s =
      { rest with
        pauses := pauseAfter first :: rest.pauses
        events := retryEvent first e :: rest.events } := by
  rw [attempts.eq_def]
  simp only [h, hrest]

/-- A failure is the last word if it cannot be mended, or must not. -/
theorem attempts_failure {e : Error} {again : Bool} (h : send s = (s', .failure e again))
    (hlast : left = 0 ∨ again = false) :
    attempts send left first s = ⟨s', first, [], [failureEvent first e], .error e⟩ := by
  rw [attempts.eq_def]
  rcases hlast with rfl | rfl <;> simp only [h]

end Attempts

section Course

variable (limit : Duration) (stands : Nat → σ) (fate : Nat → Fate)

/-- How a computation goes whose first attempt has the number `first`, and of which `n` attempts are mended
by another, where the executor stands and what comes of its questions being given. -/
structure Course.Goes (first n : Nat) (c : Course σ) : Prop where
  executor : c.executor = stands (n + 1)
  attempts : c.attempts = first + n
  pauses : c.pauses = (List.range n).map fun i => pauseAfter (first + i)
  answer : c.answer = (Attempt.ofFate limit (fate n)).answer

variable {limit stands fate} {send : σ → σ × Attempt}

private theorem attempts_goes {retries n : Nat}
    (hsend : ∀ i, send (stands i) = (stands (i + 1), .ofFate limit (fate i)))
    (h : Mended fate retries n) (first : Nat) :
    Course.Goes limit stands fate first n (attempts send retries first (stands 0)) := by
  induction n generalizing retries first stands fate with
  | zero =>
      have hfits := Attempt.fits_ofFate limit (fate 0)
      have hfirst := hsend 0
      generalize ha : Attempt.ofFate limit (fate 0) = a at hfits hfirst
      cases a with
      | vector v =>
          rw [attempts_vector hfirst]
          exact ⟨rfl, rfl, rfl, (congrArg Attempt.answer ha).symm⟩
      | failure e again =>
          have hlast : retries = 0 ∨ again = false := by
            refine h.last.imp Eq.symm fun hfinal => ?_
            rw [hfits.again e again rfl, hfinal, Bool.not_true]
          rw [attempts_failure hfirst hlast]
          exact ⟨rfl, rfl, rfl, (congrArg Attempt.answer ha).symm⟩
  | succ n ih =>
      obtain ⟨retries, rfl⟩ := Nat.exists_eq_add_one.mpr (Nat.lt_of_lt_of_le (Nat.succ_pos n) h.le)
      obtain ⟨e, he⟩ := Attempt.ofFate_mendable limit (h.before 0 (Nat.succ_pos n))
      have hfirst := hsend 0
      rw [he] at hfirst
      have hgoes := ih (fun i => hsend (i + 1)) h.tail (first + 1)
      rw [attempts_again hfirst rfl]
      generalize attempts send retries (first + 1) (stands (0 + 1)) = rest at hgoes
      constructor
      case executor => exact hgoes.executor
      case attempts => exact hgoes.attempts.trans (by omega)
      case pauses =>
        rw [hgoes.pauses, List.range_succ_eq_map, List.map_cons, List.map_map, Nat.add_zero]
        refine congrArg _ (List.map_congr_left fun i _ => ?_)
        exact congrArg pauseAfter (by omega)
      case answer => exact hgoes.answer

end Course

/-! ### The rounds on words -/

private theorem fitting_eq_some {w : Schema.Width} {n : Nat} (h : n < w.count) : fitting w n = some n := by
  unfold fitting Schema.Width.fits
  rw [if_pos]
  simp only [Bool.and_eq_true, decide_eq_true_eq, Int.natCast_nonneg, Int.ofNat_lt, h, and_self]

/-- The pauses that can be told in sixty-four bits are those after the first so many attempts. -/
theorem millis_mono {m n : Nat} (hle : m ≤ n) (h : 100 * Nat.pow 2 n < UInt64.size) :
    100 * Nat.pow 2 m < UInt64.size := by
  have hpow : Nat.pow 2 m ≤ Nat.pow 2 n := Nat.pow_le_pow_right Nat.two_pos hle
  exact Nat.lt_of_le_of_lt (Nat.mul_le_mul_left 100 hpow) h

private theorem le_of_millis {n : Nat} (h : 100 * Nat.pow 2 n < UInt64.size) : n ≤ 57 := by
  by_contra hlt
  have h58 := millis_mono (Nat.lt_of_not_le hlt) h
  exact absurd h58 (by decide)

theorem pauseInWords?_eq {n : Nat} (h : 100 * Nat.pow 2 n < UInt64.size) :
    pauseInWords? n = some (pauseAfter n) := by
  have hpower : Nat.pow 2 n < UInt64.size :=
    Nat.lt_of_le_of_lt (Nat.le_mul_of_pos_left _ (by decide)) h
  unfold pauseInWords?
  rw [fitting_eq_some hpower, Option.bind_eq_bind, Option.bind_some, fitting_eq_some h,
    Option.bind_some, pauseAfter]

private theorem fitting_count {n : Nat} (h : n ≤ 58) : fitting .w32 n = some n :=
  fitting_eq_some (Nat.lt_of_le_of_lt h (by decide))

namespace Loop

variable {send : σ → σ × Attempt} {retries n : Nat} {s s' : σ} {steps : List Step}

private theorem repeats_succ (n : Nat) :
    repeats (n + 1) = repeats n ++ [.send, .pause (pauseAfter (n + 1))] := by
  simp only [repeats, List.range_succ, List.flatMap_append, List.flatMap_singleton, pauseAfter]

private theorem round_eq {m : Nat} (hcount : fitting .w32 (n + 1) = some m) :
    round send retries ⟨s, n, steps, none⟩ = settle retries m steps (send s) := by
  have hround (l : Loop σ) (hending : l.ending = none) (h : fitting .w32 (l.count + 1) = some m) :
      round send retries l = settle retries m l.steps (send l.executor) := by
    unfold round
    rw [hending, h]
  exact hround _ rfl hcount

/-- A failure that can be mended, and may be, is followed by a pause. -/
theorem settle_again {e : Error} (hn : n ≤ retries) (hmillis : 100 * Nat.pow 2 retries < UInt64.size) :
    settle retries n steps (s, .failure e true) =
      ⟨s, n, steps ++ [.send, .pause (pauseAfter n)], none⟩ := by
  have hguard : (true && decide (n ≤ retries)) = true := by
    rw [Bool.true_and]
    exact decide_eq_true hn
  rw [settle, if_pos hguard, pauseInWords?_eq (millis_mono hn hmillis)]

/-- Any other attempt is the last one. -/
theorem settle_last {a : Attempt}
    (hlast : ∀ e again, a = .failure e again → n = retries ∨ again = false) :
    settle retries (n + 1) steps (s, a) =
      ⟨s, n + 1, steps ++ [.send], some (.answer a.answer)⟩ := by
  cases a with
  | vector v => rfl
  | failure e again =>
      have hguard : ¬(again && decide (n + 1 ≤ retries)) = true := by
        rcases hlast e again rfl with rfl | rfl <;> simp
      rw [settle, if_neg hguard, Attempt.answer]

private theorem round_ended {l : Loop σ} {e : Ending} (h : l.ending = some e) :
    round send retries l = l := by
  simp only [round, h]

variable {limit : Duration} {stands : Nat → σ} {fate : Nat → Fate}

/-- A round that does not end the loop is like the one before. -/
theorem run_mended {r : Nat} (hmillis : 100 * Nat.pow 2 retries < UInt64.size)
    (hsend : ∀ i, send (stands i) = (stands (i + 1), .ofFate limit (fate i)))
    (h : Mended fate retries n) (hr : r ≤ n) :
    run send retries (stands 0) r = ⟨stands r, r, repeats r, none⟩ := by
  induction r with
  | zero => rfl
  | succ r ih =>
      have hretries : r + 1 ≤ retries := Nat.le_trans hr h.le
      have hcount := fitting_count (Nat.le_succ_of_le (Nat.le_trans hretries (le_of_millis hmillis)))
      obtain ⟨e, he⟩ := Attempt.ofFate_mendable limit (h.before r hr)
      rw [run, ih (Nat.le_of_succ_le hr), round_eq hcount, hsend, he,
        settle_again hretries hmillis, repeats_succ]

/-- The round that follows is the last one, and nothing comes after it. -/
theorem run_ended {r : Nat} (hmillis : 100 * Nat.pow 2 retries < UInt64.size)
    (hsend : ∀ i, send (stands i) = (stands (i + 1), .ofFate limit (fate i)))
    (h : Mended fate retries n) (hr : n < r) :
    run send retries (stands 0) r =
      ⟨stands (n + 1), n + 1, repeats n ++ [.send],
        some (.answer (Attempt.ofFate limit (fate n)).answer)⟩ := by
  induction r, hr using Nat.le_induction with
  | base =>
      have hcount := fitting_count (Nat.succ_le_succ (Nat.le_trans h.le (le_of_millis hmillis)))
      rw [run, run_mended hmillis hsend h (Nat.le_refl n), round_eq hcount, hsend]
      refine settle_last fun e again ha => h.last.imp_right fun hfinal => ?_
      rw [(Attempt.fits_ofFate limit (fate n)).again e again ha, hfinal, Bool.not_true]
  | succ r _ ih =>
      rw [run, ih]
      exact round_ended rfl

end Loop

/-! ### Computations -/

section Computations

variable (o : Options) (x : Executor σ) (text : String) (s : σ)

private theorem after_zero : o.after x text s 0 = s := rfl

private theorem after_succ (i : Nat) :
    o.after x text s (i + 1) = (o.ask x text (o.after x text s i)).1 := rfl

/-- An attempt asks the next question, and goes by its fate. -/
theorem attempt_after (i : Nat) :
    o.attempt x text (o.after x text s i) =
      (o.after x text s (i + 1), .ofFate o.timeout (o.fate x text s i)) := by
  rw [Options.attempt, after_succ, Options.fate]

private theorem sent_zero : o.sent text 0 = [] := by
  unfold Options.sent
  cases o.posting? text <;> rfl

private theorem sent_succ (n : Nat) : o.sent text (n + 1) = o.sent text n ++ o.sent text 1 := by
  unfold Options.sent
  cases o.posting? text with
  | none => rfl
  | some p => exact List.replicate_succ'

private theorem ask_noting (ps : List Http.Posting) :
    o.ask x.noting text (s, ps) =
      (((o.ask x text s).1, ps ++ o.sent text 1), (o.ask x text s).2) := by
  unfold Options.ask Options.sent
  cases o.posting? text with
  | none => simp only [Option.elim_none, List.append_nil]
  | some p => rfl

/-- Noting what is sent changes nothing else. -/
theorem after_noting (i : Nat) :
    o.after x.noting text (s, []) i = (o.after x text s i, o.sent text i) := by
  induction i with
  | zero => rw [after_zero, after_zero, sent_zero]
  | succ i ih => rw [after_succ, ih, ask_noting, after_succ, sent_succ o text i]

private theorem fate_noting (i : Nat) : o.fate x.noting text (s, []) i = o.fate x text s i := by
  rw [Options.fate, after_noting, ask_noting, Options.fate]

/-- Questions that are sent may have any fates. -/
theorem fate_scripted (fates : Nat → Fate) (h : (o.posting? text).isSome = true) (i : Nat) :
    o.fate (.scripted fates) text 0 i = fates i := by
  obtain ⟨p, hp⟩ := Option.isSome_iff_exists.mp h
  have hask (j : Nat) : o.ask (.scripted fates) text j = (j + 1, fates j) := by
    unfold Options.ask
    rw [hp]
    rfl
  have hafter : o.after (.scripted fates) text 0 i = i := by
    induction i with
    | zero => rfl
    | succ i ih => rw [after_succ, ih, hask]
  rw [Options.fate, hafter, hask]

theorem compute_answer :
    ((asking o x).compute s text).answer = (o.course x text s).answer := by
  simp only [asking]

/-- A computation of which `n` attempts are mended by another, and the answer `a` that it comes to. -/
structure Retried (n : Nat) (a : Backend.Answer) : Prop where
  /-- The answer is what the last question comes to by itself. -/
  tells : ∀ a', (o.fate x text s n).Says o.timeout a' ↔ a' = a
  /-- On words, so many rounds send and pause. -/
  goes : ∀ r ≤ n, Loop.run (o.attempt x text) o.retries s r =
    ⟨o.after x text s r, r, Loop.repeats r, none⟩
  /-- The round after them sends and answers, and ends the loop. -/
  ends : ∀ r > n, Loop.run (o.attempt x text) o.retries s r =
    ⟨o.after x text s (n + 1), n + 1, Loop.repeats n ++ [.send], some (.answer a)⟩
  /-- The computation of the backend comes to the same. -/
  executor : (o.course x text s).executor = o.after x text s (n + 1)
  attempts : (o.course x text s).attempts = n + 1
  pauses : (o.course x text s).pauses =
    (List.range n).map fun i => .ofMillis (100 * Nat.pow 2 (i + 1))
  answer : ((asking o x).compute s text).answer = a
  /-- Every question is the same. -/
  questions : (o.course x.noting text (s, [])).executor =
    (o.after x text s (n + 1), o.sent text (n + 1))

private theorem retried_of_mended {n : Nat} (hmillis : 100 * Nat.pow 2 o.retries < UInt64.size)
    (h : Mended (o.fate x text s) o.retries n) : ∃ a, Retried o x text s n a := by
  have hsend := attempt_after o x text s
  have hgoes := attempts_goes hsend h 1
  have hnoting : Mended (o.fate x.noting text (s, [])) o.retries n := by
    rwa [show o.fate x.noting text (s, []) = o.fate x text s from funext (fate_noting o x text s)]
  have hquestions := (attempts_goes (attempt_after o x.noting text (s, [])) hnoting 1).executor
  have htells := (Attempt.fits_ofFate o.timeout (o.fate x text s n)).tells
  rw [after_zero] at hgoes
  rw [after_zero, after_noting] at hquestions
  refine ⟨(Attempt.ofFate o.timeout (o.fate x text s n)).answer, ?_⟩
  constructor
  case tells =>
    intro a'
    exact ⟨fun ha' => ha'.unique htells, fun ha' => ha' ▸ htells⟩
  case goes => exact fun r hr => Loop.run_mended hmillis hsend h hr
  case ends => exact fun r hr => Loop.run_ended hmillis hsend h hr
  case executor => exact hgoes.executor
  case attempts => exact hgoes.attempts.trans (Nat.add_comm 1 n)
  case pauses =>
    refine hgoes.pauses.trans (List.map_congr_left fun i _ => ?_)
    rw [pauseAfter, Nat.add_comm]
  case answer => exact (compute_answer o x text s).trans hgoes.answer
  case questions => exact hquestions

end Computations

end EmbedServer.Backend.Remote
