/-
Bytes written as `%` and two digits are read back.

Every byte is written as a triple that is read back as this byte, whatever follows.  A character that
stands for itself must therefore be one byte, and not `%`; the unreserved characters are such.  They are
also what every place of a target allows, so a text that is written with no others by themselves can
stand anywhere in a target, and none of the marks that divide a target is in it.
-/
import EmbedServer.Proofs.Text.Utf8
import EmbedServer.Text.Percent

namespace EmbedServer.Text.Percent

/-- Whether a character may always stand for itself. -/
def isUnreserved (c : Char) : Bool := c.isAlphanum || ['-', '.', '_', '~'].contains c

/-- Whether a character can be in a text that is written so. -/
def isWritten (c : Char) : Bool := isUnreserved c || c = '%'

/-! ### The characters that are written -/

private theorem toNat_alphanum {c : Char} (h : c.isAlphanum = true) :
    48 ≤ c.toNat ∧ c.toNat ≤ 57 ∨ 65 ≤ c.toNat ∧ c.toNat ≤ 90 ∨ 97 ≤ c.toNat ∧ c.toNat ≤ 122 := by
  have hcases : ((c.isUpper || c.isLower) || c.isDigit) = true := h
  rw [Bool.or_eq_true, Bool.or_eq_true] at hcases
  rcases hcases with (hupper | hlower) | hdigit
  · have hrange : 65 ≤ c.val ∧ c.val ≤ 90 := of_decide_eq_true hupper
    exact Or.inr (Or.inl hrange)
  · have hrange : (decide (97 ≤ c.val) && decide (c.val ≤ 122)) = true := hlower
    rw [Bool.and_eq_true, decide_eq_true_eq, decide_eq_true_eq] at hrange
    exact Or.inr (Or.inr hrange)
  · have hrange : (decide (48 ≤ c.val) && decide (c.val ≤ 57)) = true := hdigit
    rw [Bool.and_eq_true, decide_eq_true_eq, decide_eq_true_eq] at hrange
    exact Or.inl hrange

theorem toNat_unreserved {c : Char} (h : isUnreserved c = true) :
    0x21 ≤ c.toNat ∧ c.toNat < 0x80 := by
  simp only [isUnreserved, Bool.or_eq_true, List.contains_iff_mem, List.mem_cons, List.not_mem_nil,
    or_false] at h
  rcases h with h | rfl | rfl | rfl | rfl
  · have hc := toNat_alphanum h
    omega
  all_goals decide

/-- A mark that is not written is not a character that is. -/
theorem ne_of_written {c mark : Char} (h : isWritten c = true) (hmark : isWritten mark = false) :
    c ≠ mark := by
  rintro rfl
  rw [h] at hmark
  cases hmark

/-- A digit in base sixteen as it is written. -/
theorem digit?_digitChar : ∀ d < 16,
    String.utf8EncodeChar (Nat.digitChar d).toUpper =
        [UInt8.ofNat (Nat.digitChar d).toUpper.toNat] ∧
      digit? (UInt8.ofNat (Nat.digitChar d).toUpper.toNat) = some (UInt8.ofNat d) ∧
      isWritten (Nat.digitChar d).toUpper = true := by
  decide

private theorem written_encodeByte (b : UInt8) : ∀ c ∈ encodeByte b, isWritten c = true := by
  have hb := b.toNat_lt
  intro c hc
  simp only [encodeByte, List.mem_cons, List.not_mem_nil, or_false] at hc
  rcases hc with rfl | rfl | rfl
  · decide
  · exact (digit?_digitChar (b.toNat / 16) (by omega)).2.2
  · exact (digit?_digitChar (b.toNat % 16) (by omega)).2.2

theorem written_encode {plain : Char → Bool} (hplain : ∀ c, plain c = true → isUnreserved c = true)
    (cs : List Char) : ∀ c ∈ encode plain cs, isWritten c = true := by
  intro c hc
  obtain ⟨x, -, hx⟩ := List.mem_flatMap.mp hc
  by_cases hxplain : plain x = true
  · rw [if_pos hxplain, List.mem_singleton] at hx
    simp [isWritten, hplain c (hx ▸ hxplain)]
  · rw [if_neg hxplain] at hx
    obtain ⟨b, -, hb⟩ := List.mem_flatMap.mp hx
    exact written_encodeByte b c hb

/-! ### Reading back -/

private theorem decodeFrom_plain {b : UInt8} (h : b ≠ 37) (rest : List UInt8) :
    decodeFrom 0 (b :: rest) = b :: decodeFrom 0 rest := by
  rw [decodeFrom]
  intro _ _ _ hb _
  exact h hb

/-- A byte is read back from the triple that stands for it. -/
theorem decodeFrom_encodeByte (b : UInt8) (rest : List UInt8) :
    decodeFrom 0 ((encodeByte b).flatMap String.utf8EncodeChar ++ rest) = b :: decodeFrom 0 rest := by
  have hb := b.toNat_lt
  obtain ⟨hhigh, hhigh', -⟩ := digit?_digitChar (b.toNat / 16) (by omega)
  obtain ⟨hlow, hlow', -⟩ := digit?_digitChar (b.toNat % 16) (by omega)
  have hpair : pair? (UInt8.ofNat (Nat.digitChar (b.toNat / 16)).toUpper.toNat)
      (UInt8.ofNat (Nat.digitChar (b.toNat % 16)).toUpper.toNat) = some b := by
    have hvalue : UInt8.ofNat (b.toNat / 16) * 16 + UInt8.ofNat (b.toNat % 16) = b := by
      rw [← UInt8.toNat_inj]
      simp only [UInt8.toNat_add, UInt8.toNat_mul, UInt8.toNat_ofNat']
      show (b.toNat / 16 % 256 * 16 % 256 + b.toNat % 16 % 256) % 256 = b.toNat
      omega
    simp only [pair?, hhigh', hlow', Option.bind_eq_bind, Option.bind_some, hvalue]
  have hbytes : (encodeByte b).flatMap String.utf8EncodeChar =
      [37, UInt8.ofNat (Nat.digitChar (b.toNat / 16)).toUpper.toNat,
        UInt8.ofNat (Nat.digitChar (b.toNat % 16)).toUpper.toNat] := by
    have hmark : String.utf8EncodeChar '%' = [37] := by decide
    simp only [encodeByte, List.flatMap_cons, List.flatMap_nil, hmark, hhigh, hlow, List.append_nil,
      List.cons_append, List.nil_append]
  rw [hbytes]
  simp only [List.cons_append, List.nil_append, decodeFrom, hpair]

private theorem decodeFrom_encodeBytes (bytes rest : List UInt8) :
    decodeFrom 0 ((bytes.flatMap encodeByte).flatMap String.utf8EncodeChar ++ rest) =
      bytes ++ decodeFrom 0 rest := by
  induction bytes with
  | nil => rfl
  | cons b bytes ih =>
      rw [List.flatMap_cons, List.flatMap_append, List.append_assoc, decodeFrom_encodeByte, ih,
        List.cons_append]

/-- **What is written is read back.** -/
theorem decode_encode {plain : Char → Bool} (hplain : ∀ c, plain c = true → isUnreserved c = true)
    (cs : List Char) :
    decode (Utf8.encode (String.ofList (encode plain cs))) = Utf8.encode (String.ofList cs) := by
  rw [Utf8.encode_ofList, Utf8.encode_ofList, decode, encode]
  induction cs with
  | nil => rfl
  | cons c cs ih =>
      rw [List.flatMap_cons, List.flatMap_append, List.flatMap_cons]
      by_cases hc : plain c = true
      · have hlt := (toNat_unreserved (hplain c hc)).2
        have hmark : c ≠ '%' := fun h => absurd (hplain c hc) (h ▸ by decide)
        obtain ⟨b, hbytes, hb⟩ : ∃ b, String.utf8EncodeChar c = [b] ∧ b.toNat = c.toNat := by
          rcases Utf8.encodeChar_cases c with ⟨-, h⟩ | ⟨h, -⟩ | ⟨h, -⟩ | ⟨h, -⟩
          · exact h
          all_goals omega
        have hne : b ≠ 37 := by
          rintro rfl
          exact hmark (Char.toNat_inj.mp hb.symm)
        rw [if_pos hc, List.flatMap_singleton, hbytes, List.singleton_append, decodeFrom_plain hne, ih]
        rfl
      · have hbytes : Utf8.encode (String.singleton c) = String.utf8EncodeChar c := by
          rw [Utf8.encode_eq]
          simp
        rw [if_neg hc, hbytes, decodeFrom_encodeBytes, ih]

end EmbedServer.Text.Percent
