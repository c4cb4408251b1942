/-
What a histogram has counted.

A bucket compares doubles: the one nearest to the observation with its bound.  Below 2 ^ 53 every whole
number is a double, and from there on no rounding comes back below, so for bounds of this size comparing
the doubles is comparing the numbers (`nearestDouble_le_iff`).  Each bucket is then a counter of its own
(`buckets_observeAll`), and as the counters of a run stay below 2 ^ 64 they are the numbers themselves.
-/
import EmbedServer.Proofs.Metrics.Collector

namespace EmbedServer.Metrics

/-! ### Rounding

Only two things are needed of the nearest double: it is the number itself where every whole number is a
double, and further up it does not fall below that border.
-/

/-- The whole numbers up to here are doubles. -/
def wholeDoubles : Nat := 0x20000000000000

private theorem nearestDouble_of_lt {n : Nat} (h : n < wholeDoubles) : nearestDouble n = n := by
  have hexcess : Nat.log2 n - 52 = 0 := by
    rcases Nat.eq_zero_or_pos n with rfl | hpos
    · rfl
    · have hlog : Nat.log2 n < 53 := (Nat.log2_lt (Nat.ne_of_gt hpos)).mpr h
      omega
  unfold nearestDouble
  simp only [hexcess]
  simp [Nat.mod_one]

/-- Rounding leads no number from above this limit to below it. -/
theorem le_nearestDouble {n : Nat} (h : wholeDoubles ≤ n) : wholeDoubles ≤ nearestDouble n := by
  have hpos : n ≠ 0 := by
    rintro rfl
    exact absurd h (by decide)
  have hlog : 53 ≤ Nat.log2 n := (Nat.le_log2 hpos).mpr h
  obtain ⟨k, hk⟩ := Nat.exists_eq_add_of_le hlog
  have hexcess : Nat.log2 n - 52 = k + 1 := by omega
  have hunit : 2 ≤ 2 ^ (k + 1) := Nat.le_self_pow (Nat.succ_ne_zero k) 2
  have hwhole : 2 ^ 52 ≤ n / 2 ^ (k + 1) := by
    rw [Nat.le_div_iff_mul_le (Nat.two_pow_pos _), ← Nat.pow_add]
    refine Nat.le_trans (Nat.pow_le_pow_right (by decide) ?_) (Nat.log2_self_le hpos)
    omega
  unfold nearestDouble
  simp only [hexcess]
  refine Nat.le_trans (show wholeDoubles ≤ 2 ^ 52 * 2 from Nat.le_refl _) ?_
  refine Nat.mul_le_mul (Nat.le_trans hwhole ?_) hunit
  split
  · exact Nat.le_refl _
  · split
    · exact Nat.le_succ _
    · exact Nat.le_add_right _ _

/-- A number exceeds a bound of this size exactly if its double does. -/
theorem nearestDouble_le_iff {n bound : Nat} (h : bound < wholeDoubles) :
    nearestDouble n ≤ bound ↔ n ≤ bound := by
  rcases Nat.lt_or_ge n wholeDoubles with hn | hn
  · rw [nearestDouble_of_lt hn]
  · have hround := le_nearestDouble hn
    omega

/-! ### Runs of observations -/

namespace Histogram

def observeAll (h : Histogram) (times : List Nat) : Histogram := times.foldl observe h

private theorem buckets_observe (h : Histogram) (ms : Nat) :
    (h.observe ms).buckets =
      h.buckets.map fun e => (e.1, e.2 + if nearestDouble ms ≤ e.1 then 1 else 0) := by
  refine List.map_congr_left ?_
  intro e _
  by_cases hms : nearestDouble ms ≤ e.1 <;> simp [hms]

/-- Each bucket counts for itself. -/
theorem buckets_observeAll (h : Histogram) (times : List Nat) :
    (h.observeAll times).buckets =
      h.buckets.map fun e => (e.1, e.2 + (times.countP (nearestDouble · ≤ e.1)).toUInt64) := by
  induction times generalizing h with
  | nil =>
      show h.buckets = _
      simp
  | cons ms rest ih =>
      show ((h.observe ms).observeAll rest).buckets = _
      rw [ih, buckets_observe, List.map_map]
      refine List.map_congr_left ?_
      intro e _
      simp only [Function.comp_apply, List.countP_cons, decide_eq_true_eq, Prod.mk.injEq, true_and]
      by_cases hms : nearestDouble ms ≤ e.1
      · simp only [if_pos hms]
        rw [UInt64.add_assoc, UInt64.add_comm 1]
        exact congrArg (e.2 + ·) (UInt64.ofNat_add _ 1).symm
      · simp [hms]

theorem count_observeAll (h : Histogram) (times : List Nat) :
    (h.observeAll times).count = h.count + times.length.toUInt64 := by
  induction times generalizing h with
  | nil => exact (UInt64.add_zero _).symm
  | cons ms rest ih =>
      show ((h.observe ms).observeAll rest).count = _
      rw [ih]
      show h.count + 1 + _ = _
      rw [UInt64.add_assoc, UInt64.add_comm 1]
      exact congrArg (h.count + ·) (UInt64.ofNat_add _ 1).symm

/-- From nothing, each bucket has the number of the observations up to its bound. -/
theorem buckets_counted (times : List Nat) :
    (empty.observeAll times).buckets = bounds.map fun b => (b, (times.countP (· ≤ b)).toUInt64) := by
  have hbounds : ∀ b ∈ bounds, b < wholeDoubles := by decide
  rw [buckets_observeAll, empty, List.map_map]
  refine List.map_congr_left ?_
  intro b hb
  have hround : times.countP (nearestDouble · ≤ b) = times.countP (· ≤ b) :=
    List.countP_congr fun n _ => by
      rw [decide_eq_true_eq, decide_eq_true_eq, nearestDouble_le_iff (hbounds b hb)]
  simp only [Function.comp_apply, hround, UInt64.zero_add]

end Histogram

/-! ### Runs of samples -/

/-- What the histogram of the requests observes. -/
def Sample.requestMs? : Sample → Option Nat
  | .request elapsed => some (elapsed.millis % UInt64.size)
  | .backend _ | .error | .cancelled | .started | .finished => none

/-- What the histogram of the backend observes. -/
def Sample.backendMs? : Sample → Option Nat
  | .backend elapsed => some elapsed.millis
  | .request _ | .error | .cancelled | .started | .finished => none

/-- The whole milliseconds of the requests among some samples, in sixty-four bits. -/
def requestTimes (samples : List Sample) : List Nat := samples.filterMap Sample.requestMs?

/-- The whole milliseconds of the computations among some samples. -/
def backendTimes (samples : List Sample) : List Nat := samples.filterMap Sample.backendMs?

namespace Collector

/-- The histogram of the requests observes the requests, and nothing else. -/
theorem requestLatency_recordAll (c : Collector) (samples : List Sample) :
    (c.recordAll samples).requestLatency = c.requestLatency.observeAll (requestTimes samples) := by
  induction samples generalizing c with
  | nil => rfl
  | cons a rest ih =>
      show ((c.record a).recordAll rest).requestLatency = _
      rw [ih]
      cases a with
      | request elapsed => rfl
      | _ => rfl

/-- The histogram of the backend observes the computations, and nothing else. -/
theorem backendLatency_recordAll (c : Collector) (samples : List Sample) :
    (c.recordAll samples).backendLatency = c.backendLatency.observeAll (backendTimes samples) := by
  induction samples generalizing c with
  | nil => rfl
  | cons a rest ih =>
      show ((c.record a).recordAll rest).backendLatency = _
      rw [ih]
      cases a with
      | backend elapsed => rfl
      | _ => rfl

end Collector

end EmbedServer.Metrics
