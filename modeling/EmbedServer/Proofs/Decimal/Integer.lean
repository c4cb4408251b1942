/-
Texts that spell whole numbers.

Such a text is a sign, or none, and digits.  It spells a fraction as well, and that is the double nearest to
the number.  A number's own text spells it.
-/
import EmbedServer.Decimal.Reader
import Mathlib.Data.List.TakeWhile

namespace EmbedServer.Decimal

/-- The number of some digits with a sign. -/
def signed (negative : Bool) (n : Nat) : Int := if negative then -(n : Int) else n

/-- The double nearest to it. -/
def nearestSigned (negative : Bool) (n : Nat) : Float :=
  if negative then -(nearest n 0) else nearest n 0

/-- A text that is a sign, or none, and digits. -/
structure Spells (text : List Char) (negative : Bool) (ds : List Char) : Prop where
  sign : takeSign text = (negative, ds)
  some_digit : ds ≠ []
  digits : ∀ c ∈ ds, c.isDigit = true

/-- A sign and digits are what a whole number is spelled with. -/
theorem readInt?_eq_some {text : List Char} {n : Int} :
    readInt? text = some n ↔ ∃ negative ds, Spells text negative ds ∧ n = signed negative (ofDigits ds) := by
  cases hsign : takeSign text with
  | mk negative ds =>
      by_cases hds : ds = [] ∨ ∃ c ∈ ds, c.isDigit = false
      · have hnone : readInt? text = none := by
          unfold readInt?
          rw [hsign]
          exact if_pos (by simpa using hds)
        rw [hnone]
        refine iff_of_false (by simp) ?_
        rintro ⟨negative', ds', hspells, -⟩
        obtain ⟨rfl, rfl⟩ := Prod.mk.inj (hsign.symm.trans hspells.sign)
        rcases hds with hempty | ⟨c, hc, hdigit⟩
        · exact hspells.some_digit hempty
        · simp [hspells.digits c hc] at hdigit
      · have hsome : readInt? text = some (signed negative (ofDigits ds)) := by
          unfold readInt?
          rw [hsign]
          refine (if_neg (by simpa using hds)).trans ?_
          cases negative <;> rfl
        rw [hsome, Option.some_inj]
        simp only [not_or, not_exists, not_and, Bool.not_eq_false] at hds
        constructor
        · rintro rfl
          exact ⟨negative, ds, ⟨hsign, hds.1, hds.2⟩, rfl⟩
        · rintro ⟨negative', ds', hspells, rfl⟩
          obtain ⟨rfl, rfl⟩ := Prod.mk.inj (hsign.symm.trans hspells.sign)
          rfl

private theorem toLower_digit {c : Char} (h : c.isDigit = true) : c.toLower = c := by
  have hc : c.val ≤ '9'.val := by
    simp only [Char.isDigit, Bool.and_eq_true, decide_eq_true_eq] at h
    exact h.2
  refine dif_neg fun hupper => ?_
  exact absurd (UInt32.le_trans hupper.1 hc) (by decide)

namespace Spells

variable {text : List Char} {negative : Bool} {ds : List Char}

theorem suffix (h : Spells text negative ds) : ds <:+ text := by
  have hsign := h.sign
  unfold takeSign at hsign
  split at hsign
  all_goals
    obtain ⟨-, rfl⟩ := Prod.mk.inj hsign
    simp

/-- A text that spells a whole number is no word. -/
theorem not_word (h : Spells text negative ds) {word : String}
    (hword : word.toList.all (fun c => !c.isDigit) = true) :
    String.ofList (text.map Char.toLower) ≠ word := by
  rintro rfl
  obtain ⟨c, hc⟩ := List.exists_mem_of_ne_nil ds h.some_digit
  have hdigit := h.digits c hc
  have hmem : c ∈ text.map Char.toLower :=
    List.mem_map.mpr ⟨c, h.suffix.mem hc, toLower_digit hdigit⟩
  have hplain := List.all_eq_true.mp hword c (by rwa [String.toList_ofList])
  rw [hdigit] at hplain
  cases hplain

/-- The digits without the sign spell a number as well. -/
theorem body (h : Spells text negative ds) : Spells ds false ds := by
  refine ⟨?_, h.some_digit, h.digits⟩
  cases ds with
  | nil => exact absurd rfl h.some_digit
  | cons c rest =>
      have hc := h.digits c List.mem_cons_self
      unfold takeSign
      split
      case h_1 heq =>
        obtain ⟨rfl, -⟩ := List.cons.inj heq
        exact absurd hc (by decide)
      case h_2 heq =>
        obtain ⟨rfl, -⟩ := List.cons.inj heq
        exact absurd hc (by decide)
      case h_3 => rfl

/-- The fraction that the text of a whole number spells. -/
theorem readFloat? (h : Spells text negative ds) :
    readFloat? text = some (nearestSigned negative (ofDigits ds)) := by
  have hnan : String.ofList (ds.map Char.toLower) ≠ "nan" := h.body.not_word (by decide)
  have hinf : String.ofList (ds.map Char.toLower) ≠ "inf" := h.body.not_word (by decide)
  have hinfinity : String.ofList (ds.map Char.toLower) ≠ "infinity" := h.body.not_word (by decide)
  have hwhole : ds.takeWhile Char.isDigit = ds := List.takeWhile_eq_self_iff.mpr h.digits
  have hrest : ds.dropWhile Char.isDigit = [] := List.dropWhile_eq_nil_iff.mpr h.digits
  unfold Decimal.readFloat?
  simp only [h.sign, hnan, hinf, hinfinity, hwhole, hrest, or_self, if_false, List.append_nil]
  have hsome : (ds.isEmpty && ([] : List Char).isEmpty) = false := by
    simpa using h.some_digit
  simp only [hsome, Bool.false_eq_true, if_false]
  rfl

end Spells

/-! ### The text of a number

Numbers are written without leading zeros and without a plus, so their own texts are among those that
spell them.
-/

private theorem ofDigits_toDigits (n : Nat) : ofDigits (Nat.toDigits 10 n) = n := by
  have hfold : ∀ (cs : List Char) (m : Nat),
      cs.foldl (fun n c => n * 10 + digitValue c) m = Nat.ofDigitChars 10 cs m := by
    intro cs
    induction cs with
    | nil => exact fun m => rfl
    | cons c rest ih =>
        intro m
        rw [List.foldl_cons, ih, Nat.ofDigitChars_cons, Nat.mul_comm m 10]
        rfl
  exact (hfold _ 0).trans Nat.ofDigitChars_ten_toDigits

private theorem spells_toDigits (n : Nat) :
    Spells (Nat.toDigits 10 n) false (Nat.toDigits 10 n) := by
  have hdigits : ∀ c ∈ Nat.toDigits 10 n, c.isDigit = true :=
    fun c hc => Nat.isDigit_of_mem_toDigits (by decide) (by decide) hc
  have hminus : Spells ('-' :: Nat.toDigits 10 n) true (Nat.toDigits 10 n) :=
    ⟨rfl, Nat.toDigits_ne_nil, hdigits⟩
  exact hminus.body

/-- **The text of a whole number spells it.** -/
theorem readInt?_toString (n : Int) : readInt? (toString n).toList = some n := by
  refine readInt?_eq_some.mpr ?_
  rw [Int.toString_eq_repr, Int.repr_eq_if]
  by_cases hn : 0 ≤ n
  · rw [if_pos hn, Nat.toList_repr]
    refine ⟨false, _, spells_toDigits _, ?_⟩
    rw [ofDigits_toDigits]
    exact (Int.toNat_of_nonneg hn).symm
  · rw [if_neg hn, String.toList_append, Nat.toList_repr]
    refine ⟨true, Nat.toDigits 10 (-n).toNat, ⟨rfl, Nat.toDigits_ne_nil, (spells_toDigits _).digits⟩, ?_⟩
    rw [ofDigits_toDigits]
    simp only [signed, if_true]
    omega

end EmbedServer.Decimal
