/-
Texts and their bytes.

A character has one to four bytes, and what is read off the front of them is that character, whatever
follows.  So both readers, the strict one and the lenient one, give a text back from its bytes.

The first byte grows with the number of bytes, and among as many bytes the number of the character is
written with its higher digits first.  So texts are in the order of their bytes.
-/
import EmbedServer.Text.Utf8

namespace EmbedServer.Utf8

/-! ### The bytes of a character -/

/-- The bytes of a character by its number, one case for each count of bytes. -/
theorem encodeChar_cases (c : Char) :
    (c.toNat ≤ 0x7F ∧ ∃ b, String.utf8EncodeChar c = [b] ∧ b.toNat = c.toNat) ∨
      (0x7F < c.toNat ∧ c.toNat ≤ 0x7FF ∧ ∃ b d, String.utf8EncodeChar c = [b, d] ∧
        b.toNat = c.toNat / 64 % 0x20 + 0xC0 ∧ d.toNat = c.toNat % 0x40 + 0x80) ∨
      (0x7FF < c.toNat ∧ c.toNat ≤ 0xFFFF ∧ ∃ b d e, String.utf8EncodeChar c = [b, d, e] ∧
        b.toNat = c.toNat / 4096 % 0x10 + 0xE0 ∧ d.toNat = c.toNat / 64 % 0x40 + 0x80 ∧
        e.toNat = c.toNat % 0x40 + 0x80) ∨
      (0xFFFF < c.toNat ∧ ∃ b d e f, String.utf8EncodeChar c = [b, d, e, f] ∧
        b.toNat = c.toNat / 262144 % 0x08 + 0xF0 ∧ d.toNat = c.toNat / 4096 % 0x40 + 0x80 ∧
        e.toNat = c.toNat / 64 % 0x40 + 0x80 ∧ f.toNat = c.toNat % 0x40 + 0x80) := by
  have octet : ∀ n, n < 256 → (UInt8.ofNat n).toNat = n := fun n h => UInt8.toNat_ofNat_of_lt' h
  have hv : c.val.toNat = c.toNat := rfl
  by_cases h1 : c.toNat ≤ 0x7F
  · exact Or.inl ⟨h1, _, by simp only [String.utf8EncodeChar, hv, if_pos h1], octet _ (by omega)⟩
  · by_cases h2 : c.toNat ≤ 0x7FF
    · exact Or.inr (Or.inl ⟨by omega, h2, _, _,
        by simp only [String.utf8EncodeChar, hv, if_neg h1, if_pos h2],
        octet _ (by omega), octet _ (by omega)⟩)
    · by_cases h3 : c.toNat ≤ 0xFFFF
      · exact Or.inr (Or.inr (Or.inl ⟨by omega, h3, _, _, _,
          by simp only [String.utf8EncodeChar, hv, if_neg h1, if_neg h2, if_pos h3],
          octet _ (by omega), octet _ (by omega), octet _ (by omega)⟩))
      · exact Or.inr (Or.inr (Or.inr ⟨by omega, _, _, _, _,
          by simp only [String.utf8EncodeChar, hv, if_neg h1, if_neg h2, if_neg h3],
          octet _ (by omega), octet _ (by omega), octet _ (by omega), octet _ (by omega)⟩))

/-- No character has the number of a surrogate, and none is past the last plane. -/
theorem toNat_valid (c : Char) : c.toNat < 0xD800 ∨ 0xDFFF < c.toNat ∧ c.toNat < 0x110000 := c.valid

/-! ### Reading a character off the front

A first byte claims the bytes after it.  Both readers ask the same function for the character and for the
number of these bytes, so only this function has to be followed.
-/

private theorem isTail_of {c : UInt8} {n : Nat} (hc : c.toNat = n % 0x40 + 0x80) : isTail c = true := by
  simp only [isTail, Bool.and_eq_true, decide_eq_true_eq, UInt8.le_iff_toNat_le, hc]
  exact ⟨show 0x80 ≤ _ by omega, show _ ≤ 0xBF by omega⟩

private theorem payload_of {c : UInt8} {n : Nat} (hc : c.toNat = n % 0x40 + 0x80) :
    payload c = n % 0x40 := by
  rw [payload, hc]
  omega

private theorem lead_one {b : UInt8} {v : Nat} (hb : b.toNat = v) (h : v ≤ 0x7F) (rest : List UInt8) :
    lead b rest = (some (Char.ofNat v), 0) := by
  have hlt : b < 0x80 := by
    rw [UInt8.lt_iff_toNat_lt, hb]
    exact Nat.lt_succ_of_le h
  simp only [lead, if_pos hlt, hb]

private theorem lead_two {b c : UInt8} {v : Nat} (hb : b.toNat = v / 64 % 0x20 + 0xC0)
    (hc : c.toNat = v % 0x40 + 0x80) (h : 0x7F < v) (h' : v ≤ 0x7FF) (rest : List UInt8) :
    lead b (c :: rest) = (some (Char.ofNat v), 1) := by
  have hlow : ¬b < 0x80 := by
    rw [UInt8.lt_iff_toNat_lt, hb]
    exact show ¬_ < 0x80 by omega
  have hin : (decide (0xC2 ≤ b) && decide (b ≤ 0xDF)) = true := by
    simp only [Bool.and_eq_true, decide_eq_true_eq, UInt8.le_iff_toNat_le, hb]
    exact ⟨show 0xC2 ≤ _ by omega, show _ ≤ 0xDF by omega⟩
  have hv : b.toNat % 0x20 * 0x40 + payload c = v := by
    rw [payload_of hc, hb]
    omega
  simp only [lead, if_neg hlow, if_pos hin, isTail_of hc, if_true, hv]

/-- A first byte of three is no first byte of fewer. -/
theorem lead_three {b c d : UInt8} {v : Nat} (hb : b.toNat = v / 4096 % 0x10 + 0xE0)
    (hc : c.toNat = v / 64 % 0x40 + 0x80) (hd : d.toNat = v % 0x40 + 0x80) (h : 0x7FF < v)
    (h' : v ≤ 0xFFFF) (hvalid : v < 0xD800 ∨ 0xDFFF < v) (rest : List UInt8) :
    lead b (c :: d :: rest) = (some (Char.ofNat v), 2) := by
  have hlow : ¬b < 0x80 := by
    rw [UInt8.lt_iff_toNat_lt, hb]
    exact show ¬_ < 0x80 by omega
  have htwo : (decide (0xC2 ≤ b) && decide (b ≤ 0xDF)) = false := by
    simp only [Bool.and_eq_false_iff, decide_eq_false_iff_not, UInt8.le_iff_toNat_le, hb]
    exact Or.inr (show ¬_ ≤ 0xDF by omega)
  have hin : (decide (0xE0 ≤ b) && decide (b ≤ 0xEF)) = true := by
    simp only [Bool.and_eq_true, decide_eq_true_eq, UInt8.le_iff_toNat_le, hb]
    exact ⟨show 0xE0 ≤ _ by omega, show _ ≤ 0xEF by omega⟩
  have hbounds : (decide ((bounds3 b).1 ≤ c) && decide (c ≤ (bounds3 b).2)) = true := by
    simp only [Bool.and_eq_true, decide_eq_true_eq, bounds3, ← UInt8.toNat_inj, hb]
    split
    · rename_i heq
      have heq : v / 4096 % 0x10 + 0xE0 = 0xE0 := heq
      simp only [UInt8.le_iff_toNat_le, hc]
      exact ⟨show 0xA0 ≤ _ by omega, show _ ≤ 0xBF by omega⟩
    · split
      · rename_i heq
        have heq : v / 4096 % 0x10 + 0xE0 = 0xED := heq
        simp only [UInt8.le_iff_toNat_le, hc]
        exact ⟨show 0x80 ≤ _ by omega, show _ ≤ 0x9F by omega⟩
      · simp only [UInt8.le_iff_toNat_le, hc]
        exact ⟨show 0x80 ≤ _ by omega, show _ ≤ 0xBF by omega⟩
  have hv : b.toNat % 0x10 * 0x1000 + payload c * 0x40 + payload d = v := by
    rw [payload_of hc, payload_of hd, hb]
    omega
  simp only [lead, if_neg hlow, htwo, Bool.false_eq_true, if_false, hin, if_true, hbounds,
    isTail_of hd, hv]

/-- A first byte of four is no first byte of fewer. -/
theorem lead_four {b c d e : UInt8} {v : Nat} (hb : b.toNat = v / 262144 % 0x08 + 0xF0)
    (hc : c.toNat = v / 4096 % 0x40 + 0x80) (hd : d.toNat = v / 64 % 0x40 + 0x80)
    (he : e.toNat = v % 0x40 + 0x80) (h : 0xFFFF < v) (h' : v < 0x110000) (rest : List UInt8) :
    lead b (c :: d :: e :: rest) = (some (Char.ofNat v), 3) := by
  have hlow : ¬b < 0x80 := by
    rw [UInt8.lt_iff_toNat_lt, hb]
    exact show ¬_ < 0x80 by omega
  have htwo : (decide (0xC2 ≤ b) && decide (b ≤ 0xDF)) = false := by
    simp only [Bool.and_eq_false_iff, decide_eq_false_iff_not, UInt8.le_iff_toNat_le, hb]
    exact Or.inr (show ¬_ ≤ 0xDF by omega)
  have hthree : (decide (0xE0 ≤ b) && decide (b ≤ 0xEF)) = false := by
    simp only [Bool.and_eq_false_iff, decide_eq_false_iff_not, UInt8.le_iff_toNat_le, hb]
    exact Or.inr (show ¬_ ≤ 0xEF by omega)
  have hin : (decide (0xF0 ≤ b) && decide (b ≤ 0xF4)) = true := by
    simp only [Bool.and_eq_true, decide_eq_true_eq, UInt8.le_iff_toNat_le, hb]
    exact ⟨show 0xF0 ≤ _ by omega, show _ ≤ 0xF4 by omega⟩
  have hbounds : (decide ((bounds4 b).1 ≤ c) && decide (c ≤ (bounds4 b).2)) = true := by
    simp only [Bool.and_eq_true, decide_eq_true_eq, bounds4, ← UInt8.toNat_inj, hb]
    split
    · rename_i heq
      have heq : v / 262144 % 0x08 + 0xF0 = 0xF0 := heq
      simp only [UInt8.le_iff_toNat_le, hc]
      exact ⟨show 0x90 ≤ _ by omega, show _ ≤ 0xBF by omega⟩
    · split
      · rename_i heq
        have heq : v / 262144 % 0x08 + 0xF0 = 0xF4 := heq
        simp only [UInt8.le_iff_toNat_le, hc]
        exact ⟨show 0x80 ≤ _ by omega, show _ ≤ 0x8F by omega⟩
      · simp only [UInt8.le_iff_toNat_le, hc]
        exact ⟨show 0x80 ≤ _ by omega, show _ ≤ 0xBF by omega⟩
  have hv : b.toNat % 0x08 * 0x40000 + payload c * 0x1000 + payload d * 0x40 + payload e = v := by
    rw [payload_of hc, payload_of hd, payload_of he, hb]
    omega
  simp only [lead, if_neg hlow, htwo, hthree, Bool.false_eq_true, if_false, hin, if_true, hbounds,
    isTail_of hd, isTail_of he, hv]

/-- What is read off the front of a character's bytes is the character, and the bytes after the first
belong to it. -/
theorem lead_encodeChar (c : Char) :
    ∃ b tail, String.utf8EncodeChar c = b :: tail ∧
      ∀ rest, lead b (tail ++ rest) = (some c, tail.length) := by
  have hvalid := toNat_valid c
  have hc : Char.ofNat c.toNat = c := c.ofNat_toNat
  rcases encodeChar_cases c with ⟨h, b, heq, hb⟩ | ⟨h, h', b, d, heq, hb, hd⟩ |
    ⟨h, h', b, d, e, heq, hb, hd, he⟩ | ⟨h, b, d, e, f, heq, hb, hd, he, hf⟩
  · exact ⟨b, [], heq, fun rest => by rw [List.nil_append, lead_one hb h, hc]; rfl⟩
  · exact ⟨b, [d], heq, fun rest => by
      rw [List.singleton_append, lead_two hb hd h h', hc]; rfl⟩
  · exact ⟨b, [d, e], heq, fun rest => by
      rw [List.cons_append, List.singleton_append, lead_three hb hd he h h' (by omega), hc]; rfl⟩
  · exact ⟨b, [d, e, f], heq, fun rest => by
      rw [List.cons_append, List.cons_append, List.singleton_append,
        lead_four hb hd he hf h (by omega), hc]; rfl⟩

/-! ### Reading a text -/

private theorem toList_loop (bs : ByteArray) (i : Nat) (r : List UInt8) :
    ByteArray.toList.loop bs i r = r.reverse ++ bs.data.toList.drop i := by
  fun_induction ByteArray.toList.loop bs i r with
  | case1 i r hlt ih =>
      have hlen : i < bs.data.toList.length := by simpa using hlt
      have hget : bs.get! i = bs.data.toList[i] := by
        rw [Array.getElem_toList]
        exact getElem!_pos bs.data i hlt
      rw [ih, List.drop_eq_getElem_cons hlen, hget, List.reverse_cons, List.append_assoc]
      rfl
  | case2 i r hge =>
      rw [List.drop_eq_nil_of_le (by simpa using Nat.le_of_not_lt hge), List.append_nil]

/-- The bytes of a text are those of its characters. -/
theorem encode_eq (s : String) : encode s = s.toList.flatMap String.utf8EncodeChar := by
  have hbytes : s.toUTF8 = (s.toList.flatMap String.utf8EncodeChar).toByteArray :=
    (String.utf8Encode_toList (b := s)).symm
  rw [encode, hbytes, ByteArray.toList, toList_loop, List.toList_data_toByteArray]
  rfl

theorem encode_ofList (cs : List Char) :
    encode (String.ofList cs) = cs.flatMap String.utf8EncodeChar := by
  rw [encode_eq, String.toList_ofList]

theorem encode_append (s t : String) : encode (s ++ t) = encode s ++ encode t := by
  rw [encode_eq, encode_eq, encode_eq, String.toList_append, List.flatMap_append]

/-- Bytes that the character before has claimed are passed over. -/
theorem decodeFrom?_claimed (tail rest : List UInt8) :
    decodeFrom? tail.length (tail ++ rest) = decodeFrom? 0 rest := by
  induction tail with
  | nil => rfl
  | cons b tail ih => exact ih

theorem decodeLossyFrom_claimed (tail rest : List UInt8) :
    decodeLossyFrom tail.length (tail ++ rest) = decodeLossyFrom 0 rest := by
  induction tail with
  | nil => rfl
  | cons b tail ih => exact ih

theorem decode?_encode (s : String) : decode? (encode s) = some s := by
  have h : ∀ cs : List Char, decodeFrom? 0 (cs.flatMap String.utf8EncodeChar) = some cs := by
    intro cs
    induction cs with
    | nil => rfl
    | cons c cs ih =>
        obtain ⟨b, tail, heq, hlead⟩ := lead_encodeChar c
        rw [List.flatMap_cons, heq, List.cons_append]
        simp only [decodeFrom?, hlead, decodeFrom?_claimed, ih, Option.map_some]
  rw [decode?, encode_eq, h, Option.map_some, String.ofList_toList]

theorem decodeLossy_encode (s : String) : decodeLossy (encode s) = s := by
  have h : ∀ cs : List Char, decodeLossyFrom 0 (cs.flatMap String.utf8EncodeChar) = cs := by
    intro cs
    induction cs with
    | nil => rfl
    | cons c cs ih =>
        obtain ⟨b, tail, heq, hlead⟩ := lead_encodeChar c
        rw [List.flatMap_cons, heq, List.cons_append]
        simp only [decodeLossyFrom, hlead, decodeLossyFrom_claimed, ih, Option.getD_some]
  rw [decodeLossy, encode_eq, h, String.ofList_toList]

/-- A byte of ASCII is the only byte of its character. -/
theorem encodeChar_ascii {b : UInt8} (h : b < 0x80) :
    String.utf8EncodeChar (Char.ofNat b.toNat) = [b] := by
  have hlt : b.toNat < 0x80 := UInt8.lt_iff_toNat_lt.mp h
  have hvalid : b.toNat.isValidChar := Or.inl (by omega)
  have hchar : (Char.ofNat b.toNat).toNat = b.toNat := by
    rw [Char.ofNat, dif_pos hvalid]
    rfl
  rcases encodeChar_cases (Char.ofNat b.toNat) with ⟨-, b', heq, hb'⟩ | ⟨h, -⟩ | ⟨h, -⟩ | ⟨h, -⟩
  · rw [heq, UInt8.toNat_inj.mp (hb'.trans hchar)]
  all_goals omega

/-- Bytes of ASCII spell a text that has these bytes. -/
theorem encode_decodeLossy_ascii {bytes : List UInt8} (h : ∀ b ∈ bytes, b < 0x80) :
    encode (decodeLossy bytes) = bytes := by
  rw [decodeLossy, encode_ofList]
  induction bytes with
  | nil => rfl
  | cons b bytes ih =>
      have hlt : b < 0x80 := h b List.mem_cons_self
      have hlead : lead b bytes = (some (Char.ofNat b.toNat), 0) := by simp only [lead, if_pos hlt]
      rw [decodeLossyFrom, hlead, List.flatMap_cons, Option.getD_some,
        encodeChar_ascii hlt, ih fun x hx => h x (List.mem_cons_of_mem b hx)]
      rfl

/-! ### The order of texts

The first byte decides between characters of different lengths, and among those of one length the first
digit of six bits in which they differ.
-/

/-- Two numbers in order are in the order of their digits of six bits. -/
theorem digits_lt {m n : Nat} (h : m < n) (hn : n < 0x110000) :
    m / 262144 % 0x08 < n / 262144 % 0x08 ∨ m / 262144 % 0x08 = n / 262144 % 0x08 ∧
      (m / 4096 % 0x40 < n / 4096 % 0x40 ∨ m / 4096 % 0x40 = n / 4096 % 0x40 ∧
        (m / 64 % 0x40 < n / 64 % 0x40 ∨ m / 64 % 0x40 = n / 64 % 0x40 ∧
          m % 0x40 < n % 0x40)) := by
  have hstep : ∀ {m n : Nat}, m < n → m / 64 < n / 64 ∨ m / 64 = n / 64 ∧ m % 64 < n % 64 := by
    omega
  have hsix : ∀ n, n < 0x110000 → n / 4096 = n / 64 / 64 ∧ n / 262144 % 0x08 = n / 64 / 64 / 64 :=
    fun n _ => by omega
  rw [(hsix m (by omega)).1, (hsix m (by omega)).2, (hsix n hn).1, (hsix n hn).2]
  rcases hstep h with h | h
  · rcases hstep h with h | h
    · rcases hstep h with h | h <;> omega
    · omega
  · omega

/-- Of two characters the lesser one has the lesser bytes, whatever follows. -/
theorem encodeChar_lt {c d : Char} (h : c < d) (x y : List UInt8) :
    String.utf8EncodeChar c ++ x < String.utf8EncodeChar d ++ y := by
  have hlt : c.toNat < d.toNat := h
  have hd := toNat_valid d
  have hdigits := digits_lt hlt (by omega)
  rcases encodeChar_cases c with ⟨h, b₁, heq, hb₁⟩ | ⟨h, h', b₁, b₂, heq, hb₁, hb₂⟩ |
      ⟨h, h', b₁, b₂, b₃, heq, hb₁, hb₂, hb₃⟩ | ⟨h, b₁, b₂, b₃, b₄, heq, hb₁, hb₂, hb₃, hb₄⟩ <;>
    rcases encodeChar_cases d with ⟨k, c₁, keq, hc₁⟩ | ⟨k, k', c₁, c₂, keq, hc₁, hc₂⟩ |
      ⟨k, k', c₁, c₂, c₃, keq, hc₁, hc₂, hc₃⟩ | ⟨k, c₁, c₂, c₃, c₄, keq, hc₁, hc₂, hc₃, hc₄⟩ <;>
    simp only [heq, keq, List.cons_append, List.nil_append, List.cons_lt_cons_iff,
      UInt8.lt_iff_toNat_lt, ← UInt8.toNat_inj] <;>
    omega

/-- **Texts are in the order of their bytes.** -/
theorem encode_lt {s t : String} (h : s < t) : encode s < encode t := by
  have hlex : ∀ cs ds : List Char, cs < ds →
      cs.flatMap String.utf8EncodeChar < ds.flatMap String.utf8EncodeChar := by
    intro cs
    induction cs with
    | nil =>
        intro ds h
        cases ds with
        | nil => exact absurd h (List.lt_irrefl [])
        | cons d ds =>
            obtain ⟨b, tail, heq, -⟩ := lead_encodeChar d
            rw [List.flatMap_nil, List.flatMap_cons, heq, List.cons_append]
            exact List.nil_lt_cons _ _
    | cons c cs ih =>
        intro ds h
        cases ds with
        | nil => exact absurd h (List.not_lt_nil _)
        | cons d ds =>
            rw [List.flatMap_cons, List.flatMap_cons]
            rcases List.cons_lt_cons_iff.mp h with hlt | ⟨rfl, hrest⟩
            · exact encodeChar_lt hlt _ _
            · exact List.append_left_lt (ih ds hrest)
  rw [encode_eq, encode_eq]
  exact hlex s.toList t.toList h

end EmbedServer.Utf8
