/-
How long the shortest decimals are.

The power of ten below a number tells how many digits lie before any given place.  The grids that are
tried end at the seventeenth digit, so no decimal has more than that, but for a number that is rounded
up to the next power of ten; and no exponent is far from the power of ten of a double.
-/
import EmbedServer.Decimal.Shortest
import Mathlib.Tactic.Positivity
import Mathlib.Tactic.Ring

namespace EmbedServer

/-! ### Powers of ten

The power of ten at or below a ratio is found by counting digits and looking at one more place.  It is
bounded on both sides by the numbers of digits of the two parts.
-/

namespace Decimal

theorem lt_pow_digitCount (n : Nat) : n < 10 ^ digitCount n :=
  (Nat.length_toDigits_le_iff (by decide) Nat.length_toDigits_pos).mp (Nat.le_refl _)

private theorem pow_le_of_digitCount {n : Nat} (hn : 0 < n) : 10 ^ (digitCount n - 1) ≤ n := by
  by_cases hone : digitCount n - 1 = 0
  · rw [hone]
    exact hn
  · refine Nat.le_of_not_lt ?_
    intro hlt
    have hle : digitCount n ≤ digitCount n - 1 :=
      (Nat.length_toDigits_le_iff (by decide) (Nat.pos_of_ne_zero hone)).mpr hlt
    omega

private theorem digitCount_pos (n : Nat) : 0 < digitCount n := Nat.length_toDigits_pos

theorem digitCount_le {n k : Nat} (hk : 0 < k) (h : n < 10 ^ k) : digitCount n ≤ k :=
  (Nat.length_toDigits_le_iff (by decide) hk).mpr h

end Decimal

/-- Whether a ratio is less than a power of ten. -/
def Ratio.Below (r : Ratio) (t : Int) : Prop := r.num * 10 ^ (-t).toNat < r.den * 10 ^ t.toNat

/-- Whether a ratio is a power of ten or more. -/
def Ratio.Reaches (r : Ratio) (t : Int) : Prop := r.den * 10 ^ t.toNat ≤ r.num * 10 ^ (-t).toNat

namespace Decimal

/-- A ratio is less than the power of ten after the one at or below it. -/
theorem below_magnitude {r : Ratio} (hnum : 0 < r.num) (hden : 0 < r.den) :
    r.Below (magnitude r + 1) := by
  unfold magnitude Ratio.Below
  by_cases hle : r.den ≤ r.num
  · rw [if_pos hle]
    have hpos := digitCount_pos (r.num / r.den)
    have hup : ((digitCount (r.num / r.den) : Int) - 1 + 1).toNat = digitCount (r.num / r.den) := by
      omega
    have hdown : (-((digitCount (r.num / r.den) : Int) - 1 + 1)).toNat = 0 := by omega
    rw [hup, hdown, Nat.pow_zero, Nat.mul_one, Nat.mul_comm]
    exact (Nat.div_lt_iff_lt_mul hden).mp (lt_pow_digitCount _)
  · rw [if_neg hle]
    have hquotient : 0 < r.den / r.num := Nat.div_pos (by omega) hnum
    have hpos := digitCount_pos (r.den / r.num)
    -- The reciprocal tells how many places after the point are zero.
    have hlow : r.num * 10 ^ (digitCount (r.den / r.num) - 1) ≤ r.den := by
      rw [Nat.mul_comm]
      exact (Nat.le_div_iff_mul_le hnum).mp (pow_le_of_digitCount hquotient)
    simp only
    by_cases hnear : r.den ≤ r.num * Nat.pow 10 (digitCount (r.den / r.num) - 1)
    · rw [if_pos hnear]
      by_cases hone : digitCount (r.den / r.num) = 1
      · rw [hone]
        show r.num * 10 ^ 0 < r.den * 10 ^ 1
        omega
      · have hup : (-((digitCount (r.den / r.num) : Int) - 1) + 1).toNat = 0 := by omega
        have hdown : (-(-((digitCount (r.den / r.num) : Int) - 1) + 1)).toNat =
            digitCount (r.den / r.num) - 2 := by omega
        rw [hup, hdown, Nat.pow_zero, Nat.mul_one]
        refine Nat.lt_of_lt_of_le ?_ hlow
        exact Nat.mul_lt_mul_of_pos_left (Nat.pow_lt_pow_right (by decide) (by omega)) hnum
    · rw [if_neg hnear]
      have hup : (-(digitCount (r.den / r.num) : Int) + 1).toNat = 0 := by omega
      have hdown : (-(-(digitCount (r.den / r.num) : Int) + 1)).toNat =
          digitCount (r.den / r.num) - 1 := by omega
      rw [hup, hdown, Nat.pow_zero, Nat.mul_one]
      exact Nat.lt_of_not_le hnear

/-- A ratio is at least the power of ten at or below it. -/
theorem reaches_magnitude {r : Ratio} (hnum : 0 < r.num) (hden : 0 < r.den) :
    r.Reaches (magnitude r) := by
  unfold magnitude Ratio.Reaches
  by_cases hle : r.den ≤ r.num
  · rw [if_pos hle]
    have hquotient : 0 < r.num / r.den := Nat.div_pos hle hden
    have hpos := digitCount_pos (r.num / r.den)
    have hup : ((digitCount (r.num / r.den) : Int) - 1).toNat = digitCount (r.num / r.den) - 1 := by
      omega
    have hdown : (-((digitCount (r.num / r.den) : Int) - 1)).toNat = 0 := by omega
    rw [hup, hdown, Nat.pow_zero, Nat.mul_one, Nat.mul_comm]
    exact (Nat.le_div_iff_mul_le hden).mp (pow_le_of_digitCount hquotient)
  · rw [if_neg hle]
    simp only
    by_cases hnear : r.den ≤ r.num * Nat.pow 10 (digitCount (r.den / r.num) - 1)
    · rw [if_pos hnear]
      have hup : (-((digitCount (r.den / r.num) : Int) - 1)).toNat = 0 := by
        have hpos := digitCount_pos (r.den / r.num)
        omega
      have hdown : (-(-((digitCount (r.den / r.num) : Int) - 1))).toNat =
          digitCount (r.den / r.num) - 1 := by omega
      rw [hup, hdown, Nat.pow_zero, Nat.mul_one]
      exact hnear
    · rw [if_neg hnear]
      have hup : (-(digitCount (r.den / r.num) : Int)).toNat = 0 := by omega
      have hdown : (-(-(digitCount (r.den / r.num) : Int))).toNat = digitCount (r.den / r.num) := by
        omega
      rw [hup, hdown, Nat.pow_zero, Nat.mul_one, Nat.mul_comm]
      exact Nat.le_of_lt ((Nat.div_lt_iff_lt_mul hnum).mp (lt_pow_digitCount _))

/-- The power of ten below a ratio is no further away than the powers above its two numbers. -/
theorem magnitude_bounds {r : Ratio} {a b : Nat} (ha : 0 < a) (hb : 0 < b) (hnum : r.num < 10 ^ a)
    (hden : r.den < 10 ^ b) : -(b : Int) ≤ magnitude r ∧ magnitude r < a := by
  unfold magnitude
  by_cases hle : r.den ≤ r.num
  · have hcount := digitCount_le ha (Nat.lt_of_le_of_lt (Nat.div_le_self r.num r.den) hnum)
    have hpos := digitCount_pos (r.num / r.den)
    rw [if_pos hle]
    omega
  · have hcount := digitCount_le hb (Nat.lt_of_le_of_lt (Nat.div_le_self r.den r.num) hden)
    have hpos := digitCount_pos (r.den / r.num)
    rw [if_neg hle]
    simp only
    split <;> omega

/-! ### The grids

The search goes from coarse grids to finer ones and stops at the first hit.  A grid that is `n` digits
finer than the power of ten below the number gives decimals of `n` digits.
-/

/-- On a finer grid a number has as many digits more. -/
theorem floor_scaled {m : Nat} {q k : Int} {n : Nat} (h : (Ratio.scaled m q 0).Below (k + n)) :
    (Ratio.scaled m q k).floor < 10 ^ n := by
  have hden : 0 < (Ratio.scaled m q k).den := by
    simp only [Ratio.scaled, Nat.pow_eq]
    positivity
  rw [Ratio.floor, Nat.div_lt_iff_lt_mul hden]
  simp only [Ratio.Below, Ratio.scaled, Nat.pow_eq, Int.neg_zero, Int.toNat_zero, Nat.pow_zero,
    Nat.mul_one] at h ⊢
  generalize m * 2 ^ q.toNat = a at h ⊢
  generalize 2 ^ (-q).toNat = b at h ⊢
  -- The two grids lie on either side of the point, or on one side both.
  rcases Int.le_total 0 k with hk | hk
  · have hup : (k + (n : Int)).toNat = k.toNat + n := by omega
    have hdown : (-(k + (n : Int))).toNat = 0 := by omega
    have hdown' : (-k).toNat = 0 := by omega
    rw [hup, hdown, Nat.pow_add] at h
    rw [hdown']
    calc a * 10 ^ 0 < b * (10 ^ k.toNat * 10 ^ n) := h
      _ = 10 ^ n * (b * 10 ^ k.toNat) := by ring
  · have hup : k.toNat = 0 := by omega
    rw [hup]
    rcases Int.le_total 0 (k + n) with hn | hn
    · have hdown : (-(k + (n : Int))).toNat = 0 := by omega
      have hsum : (k + (n : Int)).toNat + (-k).toNat = n := by omega
      rw [hdown] at h
      calc a * 10 ^ (-k).toNat < b * 10 ^ (k + (n : Int)).toNat * 10 ^ (-k).toNat := by
            refine Nat.mul_lt_mul_of_pos_right ?_ (Nat.pow_pos (by decide))
            simpa using h
        _ = b * 10 ^ ((k + (n : Int)).toNat + (-k).toNat) := by ring
        _ = 10 ^ n * (b * 10 ^ 0) := by rw [hsum]; ring
    · have hzero : (k + (n : Int)).toNat = 0 := by omega
      have hsum : (-(k + (n : Int))).toNat + n = (-k).toNat := by omega
      rw [hzero] at h
      calc a * 10 ^ (-k).toNat = a * 10 ^ (-(k + (n : Int))).toNat * 10 ^ n := by
            rw [← hsum]
            ring
        _ < b * 10 ^ 0 * 10 ^ n := Nat.mul_lt_mul_of_pos_right h (Nat.pow_pos (by decide))
        _ = 10 ^ n * (b * 10 ^ 0) := by ring

/-- No grid is too coarse for a number that reaches its unit. -/
theorem floor_scaled_pos {m : Nat} {q k t : Int} (h : (Ratio.scaled m q 0).Reaches t) (hk : k ≤ t) :
    0 < (Ratio.scaled m q k).floor := by
  have hden : 0 < (Ratio.scaled m q k).den := by
    simp only [Ratio.scaled, Nat.pow_eq]
    positivity
  refine Nat.div_pos ?_ hden
  simp only [Ratio.Reaches, Ratio.scaled, Nat.pow_eq, Int.neg_zero, Int.toNat_zero, Nat.pow_zero,
    Nat.mul_one] at h ⊢
  generalize m * 2 ^ q.toNat = a at h ⊢
  generalize 2 ^ (-q).toNat = b at h ⊢
  have hpow : ∀ {i j : Nat}, i ≤ j → (10 : Nat) ^ i ≤ 10 ^ j := fun h => Nat.pow_le_pow_right (by decide) h
  rcases Int.le_total 0 t with ht | ht
  · have hzero : (-t).toNat = 0 := by omega
    rw [hzero, Nat.pow_zero, Nat.mul_one] at h
    calc b * 10 ^ k.toNat ≤ b * 10 ^ t.toNat := Nat.mul_le_mul_left b (hpow (by omega))
      _ ≤ a := h
      _ ≤ a * 10 ^ (-k).toNat := Nat.le_mul_of_pos_right a (Nat.pow_pos (by decide))
  · have hzero : t.toNat = 0 := by omega
    have hzero' : k.toNat = 0 := by omega
    rw [hzero] at h
    rw [hzero']
    exact Nat.le_trans h (Nat.mul_le_mul_left a (hpow (by omega)))

private theorem neighbour_bounds {m : Nat} {q k : Int} {d n : Nat} (hd : neighbour m q k = some d)
    (h : (Ratio.scaled m q k).floor < 10 ^ n) :
    (Ratio.scaled m q k).floor ≤ d ∧ d ≤ 10 ^ n := by
  unfold neighbour at hd
  simp only at hd
  split at hd
  · split at hd <;> cases hd <;> omega
  · cases hd
    omega
  · cases hd
    omega
  · cases hd

/-- What the search finds has seventeen digits at most, on one of the grids it tries. -/
theorem search_bounds {m : Nat} {q top : Int} (h : (Ratio.scaled m q 0).Below (top + 1))
    (h' : (Ratio.scaled m q 0).Reaches top) (fuel n : Nat) (hn : 1 ≤ n) (hfuel : fuel + n = 18) :
    0 < (search m q top fuel n).digits ∧ (search m q top fuel n).digits ≤ 10 ^ 17 ∧
      top - 16 ≤ (search m q top fuel n).exponent ∧ (search m q top fuel n).exponent ≤ top := by
  induction fuel generalizing n with
  | zero =>
      have hfloor : (Ratio.scaled m q (top - 16)).floor < 10 ^ 17 :=
        floor_scaled (by rwa [show top - 16 + ((17 : Nat) : Int) = top + 1 by omega])
      have hle : top - 16 ≤ top := by omega
      exact ⟨floor_scaled_pos h' hle, Nat.le_of_lt hfloor, Int.le_refl _, hle⟩
  | succ fuel ih =>
      rw [search]
      split
      · rename_i d hd
        have hfloor : (Ratio.scaled m q (top - (n : Int) + 1)).floor < 10 ^ n :=
          floor_scaled (by rwa [show top - (n : Int) + 1 + (n : Int) = top + 1 by omega])
        have hpos : 0 < (Ratio.scaled m q (top - (n : Int) + 1)).floor :=
          floor_scaled_pos h' (by omega)
        obtain ⟨hlow, hhigh⟩ := neighbour_bounds hd hfloor
        have hle : (10 : Nat) ^ n ≤ 10 ^ 17 := Nat.pow_le_pow_right (by decide) (by omega)
        refine ⟨Nat.lt_of_lt_of_le hpos hlow, Nat.le_trans hhigh hle, ?_, ?_⟩
        · show top - 16 ≤ top - (n : Int) + 1
          omega
        · show top - (n : Int) + 1 ≤ top
          omega
      · exact ih (n + 1) (by omega) (by omega)

private theorem stripped_bounds (fuel : Nat) (s : Scaled) :
    (0 < s.digits → 0 < (s.stripped fuel).digits) ∧ (s.stripped fuel).digits ≤ s.digits ∧
      s.exponent ≤ (s.stripped fuel).exponent ∧
      (s.stripped fuel).exponent ≤ s.exponent + fuel := by
  induction fuel generalizing s with
  | zero => exact ⟨id, Nat.le_refl _, Int.le_refl _, by simp [Scaled.stripped]⟩
  | succ fuel ih =>
      rw [Scaled.stripped]
      by_cases hzero : s.digits % 10 = 0 ∧ s.digits ≠ 0
      · rw [if_pos hzero]
        obtain ⟨hpos, hdigits, hlow, hhigh⟩ := ih ⟨s.digits / 10, s.exponent + 1⟩
        simp only at hpos hdigits hlow hhigh
        exact ⟨fun _ => hpos (by omega), by omega, by omega, by omega⟩
      · rw [if_neg hzero]
        exact ⟨id, Nat.le_refl _, Int.le_refl _, by omega⟩

/-- The shortest decimal of a double has seventeen digits at most, its exponent is not far from that of
a double, and zero is written without one. -/
theorem shortest_bounds {m : Nat} {q : Int} (hm : m < 2 ^ 53) (hq : -1074 ≤ q) (hq' : q ≤ 971) :
    ((shortest m q).digits = 0 → (shortest m q).exponent = 0) ∧ (shortest m q).digits ≤ 10 ^ 17 ∧
      -1200 ≤ (shortest m q).exponent ∧ (shortest m q).exponent ≤ 1200 := by
  unfold shortest
  by_cases hzero : m = 0
  · rw [if_pos hzero]
    simp
  · rw [if_neg hzero]
    obtain ⟨r, hr⟩ : ∃ r, Ratio.scaled m q 0 = r := ⟨_, rfl⟩
    have hnum : r.num = m * 2 ^ q.toNat := by simp [← hr, Ratio.scaled]
    have hden : r.den = 2 ^ (-q).toNat := by simp [← hr, Ratio.scaled]
    have hpos : 0 < r.num := by
      rw [hnum]
      exact Nat.mul_pos (Nat.pos_of_ne_zero hzero) (Nat.pow_pos (by decide))
    have hpos' : 0 < r.den := by
      rw [hden]
      exact Nat.pow_pos (by decide)
    have hpow : ∀ n, 2 ^ n ≤ 10 ^ n := fun n => Nat.pow_le_pow_left (by decide) n
    have hlarge : r.num < 10 ^ (16 + q.toNat) := by
      calc r.num = m * 2 ^ q.toNat := hnum
        _ ≤ m * 10 ^ q.toNat := Nat.mul_le_mul_left m (hpow _)
        _ < 10 ^ 16 * 10 ^ q.toNat :=
          Nat.mul_lt_mul_of_pos_right (by omega) (Nat.pow_pos (by decide))
        _ = 10 ^ (16 + q.toNat) := (Nat.pow_add 10 16 q.toNat).symm
    have hsmall : r.den < 10 ^ ((-q).toNat + 1) := by
      calc r.den = 2 ^ (-q).toNat := hden
        _ ≤ 10 ^ (-q).toNat := hpow _
        _ < 10 ^ ((-q).toNat + 1) := Nat.pow_lt_pow_right (by decide) (Nat.lt_succ_self _)
    have hmagnitude := magnitude_bounds (by omega) (by omega) hlarge hsmall
    have hbelow : (Ratio.scaled m q 0).Below (magnitude r + 1) := by
      rw [hr]
      exact below_magnitude hpos hpos'
    have hreaches : (Ratio.scaled m q 0).Reaches (magnitude r) := by
      rw [hr]
      exact reaches_magnitude hpos hpos'
    obtain ⟨hsome, hdigits, hlow, hhigh⟩ := search_bounds hbelow hreaches 17 1 (by decide) rfl
    obtain ⟨hsome', hfewer, hlow', hhigh'⟩ := stripped_bounds 20 (search m q (magnitude r) 17 1)
    rw [hr]
    exact ⟨fun hnone => absurd hnone (Nat.ne_of_gt (hsome' hsome)), Nat.le_trans hfewer hdigits,
      by omega, by omega⟩

end Decimal

/-- The significand and the exponent of a finite double. -/
theorem Binary64.ofFloat_bounds {x : Float} {negative : Bool} {m : Nat} {q : Int}
    (h : Binary64.ofFloat x = .finite negative m q) : m < 2 ^ 53 ∧ -1074 ≤ q ∧ q ≤ 971 := by
  unfold ofFloat at h
  simp only at h
  have hfraction : x.toBits.toNat % hidden < 2 ^ 52 := Nat.mod_lt _ (by decide)
  have hexponent : x.toBits.toNat / hidden % 2048 < 2048 := Nat.mod_lt _ (by decide)
  have hhidden : hidden = 2 ^ 52 := rfl
  split at h
  · split at h <;> cases h
  · split at h
    · cases h
      exact ⟨by omega, by decide, by decide⟩
    · cases h
      exact ⟨by omega, by omega, by omega⟩

end EmbedServer
