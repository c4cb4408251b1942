/-
Numbers are read as they are spelled.

However a decimal is laid out, it is digits before the point, digits after it, and perhaps a power of
ten.  A reader goes through these in order and comes to all the digits as one number and to the power of
ten that puts the point back, provided the digits fit in sixty-four bits; the digits of a double do.
So the text of a double is read as the arithmetic of `scale` on two whole numbers, which are not always
those of the shortest decimal: a number without a fraction has a zero after its point, which counts as a
digit.
-/
import EmbedServer.Proofs.Decimal.Shortest
import EmbedServer.Proofs.Json.Token

namespace EmbedServer

/-! ### Decimals as they are spelled

One record for all layouts, so that the reader has to be followed only once, whichever layout the writer
has chosen.
-/

namespace Decimal

/-- A decimal as it stands in a text, without its sign. -/
structure Spelled where
  whole : List Char
  fraction : List Char
  power : Option Int

namespace Spelled

/-- The power of ten, as it is written. -/
def powerText : Option Int → List Char
  | none => []
  | some p => 'e' :: (if p < 0 then '-' else '+') :: Nat.toDigits 10 p.natAbs

def text (w : Spelled) : List Char :=
  w.whole ++ ((if w.fraction = [] then [] else '.' :: w.fraction) ++ powerText w.power)

/-- The text with the sign of the number. -/
def signed (w : Spelled) (negative : Bool) : String :=
  String.ofList (if negative then '-' :: w.text else w.text)

/-- All digits as one number. -/
def significand (w : Spelled) : Nat := Nat.ofDigitChars 10 (w.whole ++ w.fraction) 0

/-- The power of ten that goes with it. -/
def exponent (w : Spelled) : Int := w.power.getD 0 - w.fraction.length

/-- Such decimals can be read, and are not taken for whole numbers. -/
structure Regular (w : Spelled) : Prop where
  digits : ∀ c ∈ w.whole ++ w.fraction, c.isDigit = true
  /-- Only a single zero stands in front. -/
  front : w.whole = ['0'] ∨ ∃ c cs, w.whole = c :: cs ∧ c ≠ '0'
  real : w.fraction = [] → w.power ≠ none
  /-- The digits fit in sixty-four bits. -/
  fits : w.significand < UInt64.size
  /-- The power of ten fits in thirty-one bits. -/
  near : ∀ p ∈ w.power, p.natAbs < 0x80000000

end Spelled

/-! ### Decimals in JSON text

The writer chooses among four layouts by the power of ten.  Each is put into the form above, with the
digits and the power that a reader comes to.
-/

namespace Scaled

/-- The power of ten of the first digit. -/
def top (s : Scaled) : Int := s.exponent + ((Nat.toDigits 10 s.digits).length : Int) - 1

/-- Whether JSON text writes a decimal without a power of ten. -/
def isPositional (s : Scaled) : Prop :=
  s.digits = 0 ∨ (json.lowest ≤ s.top ∧ s.top ≤ json.highest)

instance (s : Scaled) : Decidable s.isPositional := inferInstanceAs (Decidable (_ ∨ _))

/-- How JSON text spells a decimal. -/
def spelled (s : Scaled) : Spelled :=
  let ds := Nat.toDigits 10 s.digits
  if s.isPositional then
    if s.top < 0 then ⟨['0'], List.replicate (-s.top - 1).toNat '0' ++ ds, none⟩
    else if s.exponent < 0 then ⟨ds.take (s.top.toNat + 1), ds.drop (s.top.toNat + 1), none⟩
    else ⟨ds ++ List.replicate s.exponent.toNat '0', ['0'], none⟩
  else ⟨ds.take 1, ds.drop 1, some s.top⟩

theorem unsigned_spelled (s : Scaled) : json.unsigned s = s.spelled.text := by
  obtain ⟨c, cs, heq⟩ := List.exists_cons_of_ne_nil (Nat.toDigits_ne_nil (n := s.digits) (b := 10))
  have htop : s.exponent + ((c :: cs).length : Int) - 1 = s.top := by rw [top, heq]
  unfold Style.unsigned spelled
  simp only [heq, htop]
  by_cases hpositional : s.isPositional
  · rw [if_pos hpositional]
    have hpositional' : s.digits = 0 ∨ (json.lowest ≤ s.top ∧ s.top ≤ json.highest) := hpositional
    rw [if_pos hpositional']
    have hkeep : json.keepPoint = true := rfl
    unfold positional
    by_cases hneg : s.top < 0
    · simp [hneg, Spelled.text, Spelled.powerText]
    · rw [if_neg hneg, if_neg hneg]
      by_cases hfraction : s.exponent < 0
      · have hshort : s.top.toNat + 1 - (c :: cs).length = 0 := by omega
        have hlong : s.top.toNat + 1 < (c :: cs).length := by omega
        obtain ⟨d, more, hdrop⟩ : ∃ d more, (c :: cs).drop (s.top.toNat + 1) = d :: more := by
          refine List.exists_cons_of_ne_nil ?_
          rw [Ne, List.drop_eq_nil_iff]
          omega
        simp only [hfraction, if_true, hshort, hdrop, List.replicate_zero, List.append_nil]
        simp [Spelled.text, Spelled.powerText]
      · have hlong : (c :: cs).length ≤ s.top.toNat + 1 := by omega
        have hzeros : s.top.toNat + 1 - (c :: cs).length = s.exponent.toNat := by omega
        have hdrop : (c :: cs).drop (s.top.toNat + 1) = [] := List.drop_eq_nil_of_le hlong
        simp only [hfraction, if_false, hzeros, hdrop, List.take_of_length_le hlong, hkeep, if_true]
        simp [Spelled.text, Spelled.powerText]
  · have hpositional' : ¬(s.digits = 0 ∨ (json.lowest ≤ s.top ∧ s.top ≤ json.highest)) := hpositional
    have hsign : (if s.top < 0 then ['-'] else if json.plusSign then ['+'] else []) =
        [if s.top < 0 then '-' else '+'] := by
      split <;> rfl
    rw [if_neg hpositional, if_neg hpositional']
    simp only [scientific, hsign]
    cases cs with
    | nil => simp [Spelled.text, Spelled.powerText]
    | cons e rest => simp [Spelled.text, Spelled.powerText]

/-- What the digits and the power of ten of a decimal come to in JSON text: a number without a fraction
that is written without a power of ten has a zero after its point. -/
def taken (s : Scaled) : Nat × Int :=
  if s.isPositional ∧ 0 ≤ s.exponent then (s.digits * 10 ^ (s.exponent.toNat + 1), -1)
  else (s.digits, s.exponent)

theorem spelled_taken (s : Scaled) : (s.spelled.significand, s.spelled.exponent) = s.taken := by
  have hpos : 0 < (Nat.toDigits 10 s.digits).length := Nat.length_toDigits_pos
  have htop : s.top = s.exponent + ((Nat.toDigits 10 s.digits).length : Int) - 1 := rfl
  have hvalue : Nat.ofDigitChars 10 (Nat.toDigits 10 s.digits) 0 = s.digits :=
    Nat.ofDigitChars_ten_toDigits
  unfold spelled taken Spelled.significand Spelled.exponent
  by_cases hpositional : s.isPositional
  · simp only [hpositional, if_true, true_and]
    by_cases hneg : s.top < 0
    · have hexponent : ¬0 ≤ s.exponent := by omega
      rw [if_pos hneg, if_neg hexponent]
      simp [Nat.ofDigitChars_append, Nat.ofDigitChars_cons, hvalue]
      omega
    · rw [if_neg hneg]
      by_cases hfraction : s.exponent < 0
      · rw [if_pos hfraction, if_neg (by omega)]
        simp [hvalue]
        omega
      · rw [if_neg hfraction, if_pos (by omega)]
        simp [Nat.ofDigitChars_append, Nat.ofDigitChars_cons, hvalue, Nat.pow_succ]
        ring
  · simp only [hpositional, if_false, false_and, List.take_append_drop, hvalue, Option.getD_some,
      List.length_drop, Prod.mk.injEq, true_and]
    omega

/-- The digits of a double and a zero behind them fit in sixty-four bits. -/
theorem taken_lt {s : Scaled} (hdigits : s.digits ≤ 10 ^ 17) : s.taken.1 < UInt64.size := by
  have hsize : 10 ^ 17 < UInt64.size := by decide
  unfold taken
  by_cases hwhole : s.isPositional ∧ 0 ≤ s.exponent
  · rw [if_pos hwhole]
    rcases hwhole.1 with hzero | ⟨-, hhigh⟩
    · rw [hzero, Nat.zero_mul]
      decide
    · have hhigh' : s.exponent + (digitCount s.digits : Int) - 1 ≤ 15 := hhigh
      have hplaces : digitCount s.digits + (s.exponent.toNat + 1) ≤ 17 := by
        have hexponent := hwhole.2
        omega
      calc s.digits * 10 ^ (s.exponent.toNat + 1)
          ≤ 10 ^ digitCount s.digits * 10 ^ (s.exponent.toNat + 1) :=
            Nat.mul_le_mul_right _ (Nat.le_of_lt (lt_pow_digitCount _))
        _ = 10 ^ (digitCount s.digits + (s.exponent.toNat + 1)) := (Nat.pow_add 10 _ _).symm
        _ ≤ 10 ^ 17 := Nat.pow_le_pow_right (by decide) hplaces
        _ < UInt64.size := hsize
  · rw [if_neg hwhole]
    exact Nat.lt_of_le_of_lt hdigits hsize

/-- The four ways in which JSON text spells a decimal: with zeros before its digits, with the point among
them, with zeros behind them, and with a power of ten. -/
theorem spelled_cases {s : Scaled} (hzero : s.digits = 0 → s.exponent = 0) :
    let ds := Nat.toDigits 10 s.digits
    (∃ n, s.spelled = ⟨['0'], List.replicate n '0' ++ ds, none⟩) ∨
      (s.digits ≠ 0 ∧ ∃ n, n + 1 < ds.length ∧
        s.spelled = ⟨ds.take (n + 1), ds.drop (n + 1), none⟩) ∨
      (∃ n, (s.digits = 0 → n = 0) ∧ s.spelled = ⟨ds ++ List.replicate n '0', ['0'], none⟩) ∨
      (s.digits ≠ 0 ∧ s.spelled = ⟨ds.take 1, ds.drop 1, some s.top⟩) := by
  intro ds
  have htop : s.top = s.exponent + (ds.length : Int) - 1 := rfl
  by_cases hpositional : s.isPositional
  · by_cases hneg : s.top < 0
    · exact Or.inl ⟨_, (if_pos hpositional).trans (if_pos hneg)⟩
    · by_cases hfraction : s.exponent < 0
      · have hne : s.digits ≠ 0 := fun h => by omega
        have hspelled : s.spelled = ⟨ds.take (s.top.toNat + 1), ds.drop (s.top.toNat + 1), none⟩ :=
          (if_pos hpositional).trans ((if_neg hneg).trans (if_pos hfraction))
        exact Or.inr (Or.inl ⟨hne, s.top.toNat, by omega, hspelled⟩)
      · have hspelled : s.spelled = ⟨ds ++ List.replicate s.exponent.toNat '0', ['0'], none⟩ :=
          (if_pos hpositional).trans ((if_neg hneg).trans (if_neg hfraction))
        exact Or.inr (Or.inr (Or.inl ⟨_, fun h => by omega, hspelled⟩))
  · have hne : s.digits ≠ 0 := fun h => hpositional (Or.inl h)
    exact Or.inr (Or.inr (Or.inr ⟨hne, if_neg hpositional⟩))

private theorem isDigit_spelled {s : Scaled} (hzero : s.digits = 0 → s.exponent = 0) :
    ∀ c ∈ s.spelled.whole ++ s.spelled.fraction, c.isDigit = true := by
  have hds : ∀ c ∈ Nat.toDigits 10 s.digits, c.isDigit = true :=
    fun c hc => Nat.isDigit_of_mem_toDigits (by decide) (by decide) hc
  have hzeros : ∀ n, ∀ c ∈ List.replicate n '0', c.isDigit = true := by
    intro n c hc
    rw [List.eq_of_mem_replicate hc]
    decide
  intro c hc
  rcases spelled_cases hzero with ⟨n, h⟩ | ⟨-, n, -, h⟩ | ⟨n, -, h⟩ | ⟨-, h⟩ <;> rw [h] at hc
  · rcases List.mem_append.mp hc with hc | hc
    · exact hzeros 1 c hc
    · exact (List.mem_append.mp hc).elim (hzeros n c) (hds c)
  · rw [List.take_append_drop] at hc
    exact hds c hc
  · rcases List.mem_append.mp hc with hc | hc
    · exact (List.mem_append.mp hc).elim (hds c) (hzeros n c)
    · exact hzeros 1 c hc
  · rw [List.take_append_drop] at hc
    exact hds c hc

/-- Only a single zero stands in front. -/
theorem front_spelled {s : Scaled} (hzero : s.digits = 0 → s.exponent = 0) :
    s.spelled.whole = ['0'] ∨ ∃ c cs, s.spelled.whole = c :: cs ∧ c ≠ '0' := by
  have hfirst : s.digits ≠ 0 → ∃ c cs, Nat.toDigits 10 s.digits = c :: cs ∧ c ≠ '0' :=
    fun hne => Json.Reader.toDigits_cons (Nat.pos_of_ne_zero hne)
  rcases spelled_cases hzero with ⟨n, h⟩ | ⟨hne, n, -, h⟩ | ⟨n, hn, h⟩ | ⟨hne, h⟩ <;> rw [h]
  · exact Or.inl rfl
  · obtain ⟨c, cs, heq, hc⟩ := hfirst hne
    exact Or.inr ⟨c, cs.take n, by rw [heq]; rfl, hc⟩
  · by_cases hne : s.digits = 0
    · refine Or.inl ?_
      rw [hne, hn hne]
      decide
    · obtain ⟨c, cs, heq, hc⟩ := hfirst hne
      exact Or.inr ⟨c, cs ++ List.replicate n '0', by rw [heq]; rfl, hc⟩
  · obtain ⟨c, cs, heq, hc⟩ := hfirst hne
    exact Or.inr ⟨c, [], by rw [heq]; rfl, hc⟩

/-- A decimal without a power of ten has digits behind its point. -/
theorem real_spelled {s : Scaled} (hzero : s.digits = 0 → s.exponent = 0)
    (hempty : s.spelled.fraction = []) : s.spelled.power ≠ none := by
  rcases spelled_cases hzero with ⟨n, h⟩ | ⟨-, n, hn, h⟩ | ⟨n, -, h⟩ | ⟨-, h⟩ <;> rw [h] at hempty ⊢
  · exact absurd (List.append_eq_nil_iff.mp hempty).2 Nat.toDigits_ne_nil
  · have hlong := List.drop_eq_nil_iff.mp hempty
    omega
  · cases hempty
  · exact Option.some_ne_none _

/-- The decimal of a double can be read. -/
theorem spelled_regular {s : Scaled} (hzero : s.digits = 0 → s.exponent = 0)
    (hdigits : s.digits ≤ 10 ^ 17) (hlow : -1200 ≤ s.exponent) (hhigh : s.exponent ≤ 1200) :
    s.spelled.Regular where
  digits := isDigit_spelled hzero
  front := front_spelled hzero
  real := real_spelled hzero
  fits := by
    rw [show s.spelled.significand = s.taken.1 from congrArg Prod.fst s.spelled_taken]
    exact taken_lt hdigits
  near := by
    have hsize : s.digits < 10 ^ 18 := Nat.lt_of_le_of_lt hdigits (by decide)
    have hcount : (Nat.toDigits 10 s.digits).length ≤ 18 := digitCount_le (by decide) hsize
    have htop : s.top = s.exponent + ((Nat.toDigits 10 s.digits).length : Int) - 1 := rfl
    intro p hp
    rcases spelled_cases hzero with ⟨n, h⟩ | ⟨-, n, -, h⟩ | ⟨n, -, h⟩ | ⟨-, h⟩ <;> rw [h] at hp <;>
      cases hp
    omega

end Scaled

end Decimal

namespace Json.Reader

open Decimal (Spelled)

/-! ### Digits -/

private theorem pure_ok {α : Type} (a : α) (c : Cursor) : (pure a : Reader α) c = .ok (a, c) := rfl

private theorem peek_cons (b : UInt8) (rest : List UInt8) (n : Nat) :
    peek ⟨b :: rest, n⟩ = .ok (some b, ⟨b :: rest, n⟩) := rfl

/-- Nothing follows that could belong to a number. -/
def Ends (rest : List UInt8) : Prop :=
  ∀ b ∈ rest.head?, isDigit b = false ∧ b ≠ 46 ∧ b ≠ 101 ∧ b ≠ 69

private theorem takeWhile_digits {cs : List Char} (hcs : ∀ c ∈ cs, c.isDigit = true) {rest : List UInt8}
    (hrest : ∀ b ∈ rest.head?, isDigit b = false) (n : Nat) :
    takeWhile isDigit ⟨cs.map digitByte ++ rest, n⟩ =
      .ok (cs.map digitByte, ⟨rest, n + (cs.map digitByte).length⟩) := by
  refine takeWhile_append ?_ hrest n
  intro b hb
  obtain ⟨c, hc, rfl⟩ := List.mem_map.mp hb
  exact isDigit_digitByte (hcs c hc)

private theorem exponentDigits_map {cs : List Char} (hcs : ∀ c ∈ cs, c.isDigit = true) :
    exponentDigits (cs.map digitByte) = Nat.ofDigitChars 10 cs 0 := by
  have hfold : ∀ n, (cs.map digitByte).foldl (fun n b => n * 10 + (b.toNat - 48)) n =
      Nat.ofDigitChars 10 cs n := by
    induction cs with
    | nil => simp
    | cons c cs ih =>
        obtain ⟨hc, hrest⟩ := List.forall_mem_cons.mp hcs
        intro n
        rw [List.map_cons, List.foldl_cons, ih hrest, Nat.ofDigitChars_cons, digitByte_toNat hc,
          Nat.mul_comm]
        rfl
  exact hfold 0

/-- The digits of a number, of which there is one at least. -/
theorem toDigits_digits (n : Nat) :
    (∀ c ∈ Nat.toDigits 10 n, c.isDigit = true) ∧ ∃ c cs, Nat.toDigits 10 n = c :: cs := by
  refine ⟨fun c hc => Nat.isDigit_of_mem_toDigits (by decide) (by decide) hc, ?_⟩
  exact List.exists_cons_of_ne_nil Nat.toDigits_ne_nil

/-! ### The parts of a number

Followed from its end to its front, because each part of the reader goes on with the next one by itself.
-/

/-- From its letter on, the power of ten is added to that which the digits have already. -/
theorem exponent_power (positive : Bool) (significand : Nat) (start : Int) {p : Int}
    (hp : p.natAbs < 0x80000000) {rest : List UInt8} (hrest : ∀ b ∈ rest.head?, isDigit b = false)
    (n : Nat) :
    ∃ n', exponent positive significand start
        ⟨(Spelled.powerText (some p)).map digitByte ++ rest, n⟩ =
      real positive significand (start + p) ⟨rest, n'⟩ := by
  obtain ⟨hdigits, c, cs, heq⟩ := toDigits_digits p.natAbs
  rw [heq] at hdigits
  obtain ⟨hc, hcs⟩ := List.forall_mem_cons.mp hdigits
  have hvalue : exponentDigits (digitByte c :: cs.map digitByte) = p.natAbs := by
    rw [← List.map_cons, exponentDigits_map hdigits, ← heq, Nat.ofDigitChars_ten_toDigits]
  have htaken := takeWhile_digits hcs hrest (n + 3)
  have hnext : next ⟨digitByte c :: (cs.map digitByte ++ rest), n + 2⟩ =
      .ok (some (digitByte c), ⟨cs.map digitByte ++ rest, n + 3⟩) := rfl
  have hsum : start + p = if p < 0 then start - p.natAbs else start + p.natAbs := by
    split <;> omega
  refine ⟨n + 3 + (cs.map digitByte).length, ?_⟩
  rw [hsum]
  by_cases hneg : p < 0
  · simp only [Spelled.powerText, hneg, if_true, heq, List.map_cons, List.cons_append]
    rw [exponent, bind_ok (advance_cons _ _ n), bind_ok (peek_cons _ _ _)]
    refine (bind_ok (advance_cons 45 _ (n + 1))).trans ?_
    refine (bind_ok (pure_ok false _)).trans ?_
    refine (bind_ok hnext).trans ?_
    simp only [isDigit_digitByte hc, Bool.not_true, Bool.false_eq_true, if_false]
    rw [bind_ok get_eq, bind_ok htaken]
    simp only [hvalue, hp, if_true]
  · simp only [Spelled.powerText, hneg, if_false, heq, List.map_cons, List.cons_append]
    rw [exponent, bind_ok (advance_cons _ _ n), bind_ok (peek_cons _ _ _)]
    refine (bind_ok (advance_cons 43 _ (n + 1))).trans ?_
    refine (bind_ok (pure_ok true _)).trans ?_
    refine (bind_ok hnext).trans ?_
    simp only [isDigit_digitByte hc, Bool.not_true, Bool.false_eq_true, if_false]
    rw [bind_ok get_eq, bind_ok htaken]
    simp only [hvalue, hp, if_true]

/-- What comes behind the digits of a number is no digit. -/
theorem power_not_isDigit (power : Option Int) {rest : List UInt8} (hrest : Ends rest) :
    ∀ b ∈ ((Spelled.powerText power).map digitByte ++ rest).head?, isDigit b = false := by
  cases power with
  | none => exact fun b hb => (hrest b hb).1
  | some p =>
      intro b hb
      obtain rfl : digitByte 'e' = b := Option.some.inj hb
      decide

/-- Behind its digits, a number ends or has its power of ten. -/
theorem power_ends (positive : Bool) (significand : Nat) (start : Int) {power : Option Int}
    (hpower : ∀ p ∈ power, p.natAbs < 0x80000000) {rest : List UInt8} (hrest : Ends rest) (n : Nat) :
    ∃ n', (do
        match ← peek with
        | some 101 | some 69 => exponent positive significand start
        | _ => real positive significand start : Reader Number)
        ⟨(Spelled.powerText power).map digitByte ++ rest, n⟩ =
      real positive significand (start + power.getD 0) ⟨rest, n'⟩ := by
  cases power with
  | some p =>
      obtain ⟨n', hn'⟩ := exponent_power positive significand start (hpower p rfl)
        (fun b hb => (hrest b hb).1) n
      exact ⟨n', hn'⟩
  | none =>
      refine ⟨n, ?_⟩
      rw [Option.getD_none, Int.add_zero]
      cases rest with
      | nil => rfl
      | cons b more =>
          obtain ⟨-, -, h, h'⟩ := hrest b rfl
          show (do
            match ← peek with
            | some 101 | some 69 => exponent positive significand start
            | _ => real positive significand start : Reader Number) ⟨b :: more, n⟩ = _
          rw [bind_ok (peek_cons b more n)]
          generalize hfirst : some b = first
          split
          · exact absurd (Option.some.inj hfirst) h
          · exact absurd (Option.some.inj hfirst) h'
          · rfl

/-- From its point on, a number has its digits after the point, and what comes behind them. -/
theorem fraction_digits (positive : Bool) {significand : Nat} {fs : List Char} (hne : fs ≠ [])
    (hfs : ∀ c ∈ fs, c.isDigit = true) (hfits : Nat.ofDigitChars 10 fs significand < UInt64.size)
    {power : Option Int} (hpower : ∀ p ∈ power, p.natAbs < 0x80000000) {rest : List UInt8}
    (hrest : Ends rest) (n : Nat) :
    ∃ n', fraction positive significand 0
        ⟨46 :: (fs.map digitByte ++ ((Spelled.powerText power).map digitByte ++ rest)), n⟩ =
      real positive (Nat.ofDigitChars 10 fs significand) (power.getD 0 - fs.length) ⟨rest, n'⟩ := by
  have htaken := takeWhile_digits hfs (power_not_isDigit power hrest) (n + 1)
  have hsome : (fs.map digitByte).isEmpty = false := by simpa using hne
  obtain ⟨n', hn'⟩ := power_ends positive (Nat.ofDigitChars 10 fs significand) (0 - fs.length) hpower
    hrest (n + 1 + (fs.map digitByte).length)
  have hexponent : (0 : Int) - fs.length + power.getD 0 = power.getD 0 - fs.length := by omega
  refine ⟨n', ?_⟩
  rw [fraction, bind_ok (advance_cons _ _ n), bind_ok htaken]
  simp only [hsome, Bool.false_eq_true, if_false, leading_digits hfs significand 0 hfits, Nat.zero_add]
  rw [← hexponent]
  exact hn'

/-- Behind the digits in front of the point there is a point or a letter, and the number goes on with
it. -/
theorem finish_spelled (positive : Bool) {w : Spelled} (hw : w.Regular) {rest : List UInt8}
    (hrest : Ends rest) :
    ∃ mark more, isDigit mark = false ∧
      w.text.map digitByte ++ rest = w.whole.map digitByte ++ mark :: more ∧
      ∀ n, ∃ n', unsignedNumber.finish positive (Nat.ofDigitChars 10 w.whole 0) 0 ⟨mark :: more, n⟩ =
        real positive w.significand w.exponent ⟨rest, n'⟩ := by
  obtain ⟨whole, fraction, power⟩ := w
  have hsplit : Spelled.significand ⟨whole, fraction, power⟩ =
      Nat.ofDigitChars 10 fraction (Nat.ofDigitChars 10 whole 0) := Nat.ofDigitChars_append 0
  have hfits := hw.fits
  rw [hsplit] at hfits ⊢
  simp only [Spelled.text, Spelled.exponent, List.map_append, List.append_assoc]
  by_cases hnone : fraction = []
  · obtain ⟨p, hp⟩ := Option.ne_none_iff_exists'.mp (hw.real hnone)
    have hpower : power = some p := hp
    rw [hnone, hpower, if_pos rfl, Nat.ofDigitChars_nil]
    refine ⟨101, _, by decide, rfl, ?_⟩
    intro n
    obtain ⟨n', hn'⟩ := exponent_power positive (Nat.ofDigitChars 10 whole 0) 0 (hw.near p hp)
      (fun b hb => (hrest b hb).1) n
    rw [Int.zero_add] at hn'
    exact ⟨n', hn'.trans (by simp)⟩
  · rw [if_neg hnone]
    refine ⟨46, _, by decide, rfl, ?_⟩
    intro n
    have hdigits : ∀ c ∈ fraction, c.isDigit = true :=
      fun c hc => hw.digits c (List.mem_append_right _ hc)
    exact fraction_digits positive hnone hdigits hfits hw.near hrest n

/-- The digits in front of the point are taken. -/
theorem unsignedNumber_whole (positive : Bool) {whole : List Char}
    (hfront : whole = ['0'] ∨ ∃ c cs, whole = c :: cs ∧ c ≠ '0')
    (hdigits : ∀ c ∈ whole, c.isDigit = true) (hfits : Nat.ofDigitChars 10 whole 0 < UInt64.size)
    {mark : UInt8} (hmark : isDigit mark = false) (more : List UInt8) (n : Nat) :
    ∃ n', unsignedNumber positive ⟨whole.map digitByte ++ mark :: more, n⟩ =
      unsignedNumber.finish positive (Nat.ofDigitChars 10 whole 0) 0 ⟨mark :: more, n'⟩ := by
  rcases hfront with rfl | ⟨c, cs, rfl, hc⟩
  · have hnext : next ⟨['0'].map digitByte ++ mark :: more, n⟩ =
        .ok (some 48, ⟨mark :: more, n + 1⟩) := rfl
    refine ⟨n + 1, ?_⟩
    rw [unsignedNumber, bind_ok hnext]
    simp only [if_true]
    rw [bind_ok (peek_cons mark _ _)]
    simp only [hmark, Bool.false_eq_true, if_false]
    rfl
  · obtain ⟨hfirst, hmore⟩ := List.forall_mem_cons.mp hdigits
    have hne := digitByte_ne_zero hfirst hc
    have hends : ∀ b ∈ (mark :: more).head?, isDigit b = false := by simpa using hmark
    have htaken := takeWhile_digits hmore hends (n + 1)
    have hleading := leading_digits hdigits 0 0 hfits
    rw [List.map_cons] at hleading
    have hdropped : cs.length + 1 - (0 + (cs.length + 1)) = 0 := by omega
    have hnext : next ⟨digitByte c :: (cs.map digitByte ++ mark :: more), n⟩ =
        .ok (some (digitByte c), ⟨cs.map digitByte ++ mark :: more, n + 1⟩) := rfl
    refine ⟨n + 1 + (cs.map digitByte).length, ?_⟩
    rw [List.map_cons, List.cons_append, unsignedNumber, bind_ok hnext]
    simp only [if_neg hne, isDigit_digitByte hfirst, if_true]
    rw [bind_ok htaken]
    simp only [hleading, List.length_map, List.length_cons, hdropped]

/-- **A number is read as it is spelled**, in front of anything that cannot belong to it. -/
theorem unsignedNumber_spelled (positive : Bool) {w : Spelled} (hw : w.Regular) {rest : List UInt8}
    (hrest : Ends rest) (n : Nat) :
    ∃ n', unsignedNumber positive ⟨w.text.map digitByte ++ rest, n⟩ =
      real positive w.significand w.exponent ⟨rest, n'⟩ := by
  obtain ⟨mark, more, hmark, hbytes, hfinish⟩ := finish_spelled positive hw hrest
  have hdigits : ∀ c ∈ w.whole, c.isDigit = true := fun c hc => hw.digits c (List.mem_append_left _ hc)
  have hfits : Nat.ofDigitChars 10 w.whole 0 < UInt64.size := by
    refine Nat.lt_of_le_of_lt (le_ofDigitChars w.fraction _) ?_
    rw [← Nat.ofDigitChars_append]
    exact hw.fits
  obtain ⟨n₁, hwhole⟩ := unsignedNumber_whole positive hw.front hdigits hfits hmark more n
  obtain ⟨n₂, hn₂⟩ := hfinish n₁
  exact ⟨n₂, by rw [hbytes, hwhole, hn₂]⟩

end Json.Reader

end EmbedServer
