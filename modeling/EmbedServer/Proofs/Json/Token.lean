/-
Single tokens are read as they are written.

What a reader takes off the front is said by `Takes`: the bytes, whatever follows them, and the value
they give.  A text in quotes is taken piece by piece, and the pieces are the runs of characters that
stand for themselves; so the induction goes over the characters, with the run that is still open in
front of them.  A number ends where no digit, point or exponent follows, so it is read in front of what
can follow a value.
-/
import EmbedServer.Json.Value
import EmbedServer.Proofs.Text.Utf8

namespace EmbedServer.Json.Reader

variable {α β : Type}

/-! ### One step after the other -/

theorem bind_ok {r : Reader α} {f : α → Reader β} {c c' : Cursor} {a : α}
    (h : r c = .ok (a, c')) : (r >>= f) c = f a c' := by
  show (r c).bind _ = _
  rw [h]
  rfl

theorem map_ok {r : Reader α} (f : α → β) {c c' : Cursor} {a : α} (h : r c = .ok (a, c')) :
    (f <$> r) c = .ok (f a, c') := by
  show (r c).bind _ = _
  rw [h]
  rfl

theorem advance_cons (b : UInt8) (rest : List UInt8) (n : Nat) :
    advance ⟨b :: rest, n⟩ = .ok ((), ⟨rest, n + 1⟩) := rfl

theorem get_eq {c : Cursor} : (get : Reader Cursor) c = .ok (c, c) := rfl

/-- A reader takes these bytes, whatever follows, and gives this value. -/
def Takes (r : Reader α) (bytes : List UInt8) (a : α) : Prop :=
  ∀ rest n, ∃ n', r ⟨bytes ++ rest, n⟩ = .ok (a, ⟨rest, n'⟩)

theorem takeWhile_append {p : UInt8 → Bool} {taken rest : List UInt8} (htaken : ∀ b ∈ taken, p b)
    (hrest : ∀ b ∈ rest.head?, p b = false) (n : Nat) :
    takeWhile p ⟨taken ++ rest, n⟩ = .ok (taken, ⟨rest, n + taken.length⟩) := by
  have htake : rest.takeWhile p = [] := by
    cases rest with
    | nil => rfl
    | cons b more => simp [hrest b rfl]
  have hdrop : rest.dropWhile p = rest := by
    cases rest with
    | nil => rfl
    | cons b more => simp [hrest b rfl]
  rw [takeWhile, List.takeWhile_append_of_pos htaken, List.dropWhile_append_of_pos htaken, htake,
    hdrop, List.append_nil]

theorem token_cons {b : UInt8} (hb : isSpace b = false) (rest : List UInt8) (n : Nat) :
    token ⟨b :: rest, n⟩ = .ok (some b, ⟨b :: rest, n⟩) := by
  have hspace : takeWhile isSpace ⟨[] ++ b :: rest, n⟩ = .ok ([], ⟨b :: rest, n⟩) :=
    takeWhile_append (by simp) (by simp [hb]) n
  rw [List.nil_append] at hspace
  rw [token, bind_ok hspace]
  rfl

theorem start_cons {b : UInt8} (hb : isSpace b = false) (rest : List UInt8) (n : Nat) :
    start ⟨b :: rest, n⟩ = .ok (b, ⟨b :: rest, n⟩) := by
  rw [start, bind_ok (token_cons hb rest n)]
  rfl

/-! ### Quoted text -/

/-- The bytes that are written for one character inside quotes. -/
def escaped (c : Char) : List UInt8 := (escapedChar c).flatMap String.utf8EncodeChar

theorem encode_quote (s : String) :
    Utf8.encode (quote s) = 34 :: (s.toList.flatMap escaped ++ [34]) := by
  have hquote : String.utf8EncodeChar '"' = [34] := by decide
  have hbody : (s.toList.flatMap escapedChar).flatMap String.utf8EncodeChar =
      s.toList.flatMap escaped := List.flatMap_assoc
  rw [quote, Utf8.encode_ofList, List.cons_append, List.flatMap_cons, List.flatMap_append, hbody,
    List.flatMap_singleton, hquote]
  rfl

/-- A digit in base sixteen is one byte, with that value. -/
theorem hexValue_digitChar : ∀ d < 16,
    String.utf8EncodeChar (Nat.digitChar d) = [UInt8.ofNat (Nat.digitChar d).toNat] ∧
      hexValue (UInt8.ofNat (Nat.digitChar d).toNat) = some d := by
  decide

private theorem numberedEscape_control {n : Nat} (hn : n < 32) (rest : List UInt8) (m : Nat) :
    numberedEscape ⟨48 :: 48 :: UInt8.ofNat (Nat.digitChar (n / 16)).toNat ::
      UInt8.ofNat (Nat.digitChar (n % 16)).toNat :: rest, m⟩ =
        .ok (Char.ofNat n, ⟨rest, m + 4⟩) := by
  have h0 : hexValue 48 = some 0 := by decide
  have h1 := (hexValue_digitChar (n / 16) (by omega)).2
  have h2 := (hexValue_digitChar (n % 16) (by omega)).2
  have hhex : hexEscape ⟨48 :: 48 :: UInt8.ofNat (Nat.digitChar (n / 16)).toNat ::
      UInt8.ofNat (Nat.digitChar (n % 16)).toNat :: rest, m⟩ = .ok (n, ⟨rest, m + 4⟩) := by
    simp only [hexEscape, h0, h1, h2]
    have hsum : ((0 * 16 + 0) * 16 + n / 16) * 16 + n % 16 = n := by omega
    rw [hsum]
  rw [numberedEscape, bind_ok hhex, if_neg (by simp; omega), if_pos (by simp; omega)]
  rfl

/-- A character past the controls that is neither a quote nor a backslash has plain bytes only. -/
theorem isPlain_of {c : Char} (hcontrol : 32 ≤ c.toNat) (hquote : c ≠ '"') (hslash : c ≠ '\\')
    {b : UInt8} (hb : b ∈ String.utf8EncodeChar c) : isPlain b = true := by
  have hne : ∀ d : Char, c ≠ d → c.toNat ≠ d.toNat := fun d hcd heq => hcd (Char.toNat_inj.mp heq)
  have h34 : c.toNat ≠ 34 := hne '"' hquote
  have h92 : c.toNat ≠ 92 := hne '\\' hslash
  have hplain : 32 ≤ b.toNat → b.toNat ≠ 34 → b.toNat ≠ 92 → isPlain b = true := by
    intro h32 hq hs
    have hq' : b ≠ 34 := fun heq => hq (congrArg UInt8.toNat heq)
    have hs' : b ≠ 92 := fun heq => hs (congrArg UInt8.toNat heq)
    have h32' : (32 : UInt8) ≤ b := UInt8.le_iff_toNat_le.mpr h32
    simp [isPlain, hq', hs', h32']
  rcases Utf8.encodeChar_cases c with ⟨-, b1, heq, h1⟩ | ⟨-, -, b1, b2, heq, h1, h2⟩ |
    ⟨-, -, b1, b2, b3, heq, h1, h2, h3⟩ | ⟨-, b1, b2, b3, b4, heq, h1, h2, h3, h4⟩ <;>
    rw [heq] at hb <;> simp only [List.mem_cons, List.not_mem_nil, or_false] at hb
  · subst hb
    exact hplain (by omega) (by omega) (by omega)
  · rcases hb with rfl | rfl <;> exact hplain (by omega) (by omega) (by omega)
  · rcases hb with rfl | rfl | rfl <;> exact hplain (by omega) (by omega) (by omega)
  · rcases hb with rfl | rfl | rfl | rfl <;> exact hplain (by omega) (by omega) (by omega)

/-- A control is written as an escape, by a letter or by its number. -/
theorem escaped_control {n : Nat} (hn : n < 32) :
    ∃ e, escaped (Char.ofNat n) = 92 :: e ∧
      Takes escape e (String.utf8EncodeChar (Char.ofNat n)) := by
  by_cases h8 : n = 8
  · subst h8
    exact ⟨[98], by decide, fun rest m => ⟨m + 1, rfl⟩⟩
  by_cases h9 : n = 9
  · subst h9
    exact ⟨[116], by decide, fun rest m => ⟨m + 1, rfl⟩⟩
  by_cases h10 : n = 10
  · subst h10
    exact ⟨[110], by decide, fun rest m => ⟨m + 1, rfl⟩⟩
  by_cases h12 : n = 12
  · subst h12
    exact ⟨[102], by decide, fun rest m => ⟨m + 1, rfl⟩⟩
  by_cases h13 : n = 13
  · subst h13
    exact ⟨[114], by decide, fun rest m => ⟨m + 1, rfl⟩⟩
  have htoNat : (Char.ofNat n).toNat = n := (by decide : ∀ n < 32, (Char.ofNat n).toNat = n) n hn
  have hne : ∀ d : Char, n ≠ d.toNat → Char.ofNat n ≠ d := by
    intro d hnd heq
    exact hnd (htoNat.symm.trans (congrArg Char.toNat heq))
  have hesc : escapedChar (Char.ofNat n) =
      ['\\', 'u', '0', '0', Nat.digitChar (n / 16), Nat.digitChar (n % 16)] := by
    unfold escapedChar
    rw [if_neg (hne '"' (by simp; omega)), if_neg (hne '\\' (by simp; omega)), htoNat, if_neg h8,
      if_neg h12, if_neg (hne '\n' (by simp; omega)), if_neg (hne '\r' (by simp; omega)),
      if_neg (hne '\t' (by simp; omega)), if_pos hn]
  refine ⟨117 :: 48 :: 48 :: UInt8.ofNat (Nat.digitChar (n / 16)).toNat ::
    UInt8.ofNat (Nat.digitChar (n % 16)).toNat :: [], ?_, ?_⟩
  · have hdigits : ∀ d < 16, String.utf8EncodeChar (Nat.digitChar d) = _ :=
      fun d hd => (hexValue_digitChar d hd).1
    simp only [escaped, hesc, List.flatMap_cons, List.flatMap_nil, hdigits _ (show n / 16 < 16 by omega),
      hdigits _ (show n % 16 < 16 by omega)]
    rfl
  · intro rest m
    refine ⟨m + 1 + 4, ?_⟩
    show (do return String.utf8EncodeChar (← numberedEscape) : Reader (List UInt8)) ⟨_, m + 1⟩ = _
    exact bind_ok (numberedEscape_control hn rest (m + 1))

/-- A character stands for itself between quotes, or is written as an escape. -/
theorem escaped_cases (c : Char) :
    (escaped c = String.utf8EncodeChar c ∧ ∀ b ∈ String.utf8EncodeChar c, isPlain b = true) ∨
      ∃ e, escaped c = 92 :: e ∧ Takes escape e (String.utf8EncodeChar c) := by
  by_cases hquote : c = '"'
  · subst hquote
    exact Or.inr ⟨[34], by decide, fun rest n => ⟨n + 1, rfl⟩⟩
  by_cases hslash : c = '\\'
  · subst hslash
    exact Or.inr ⟨[92], by decide, fun rest n => ⟨n + 1, rfl⟩⟩
  by_cases hcontrol : c.toNat < 32
  · rw [← Char.ofNat_toNat c]
    exact Or.inr (escaped_control hcontrol)
  · refine Or.inl ⟨?_, fun b => isPlain_of (Nat.le_of_not_lt hcontrol) hquote hslash⟩
    have hne : ∀ d : Char, d.toNat < 32 → c ≠ d := fun d hd heq => hcontrol (heq ▸ hd)
    have hesc : escapedChar c = [c] := by
      unfold escapedChar
      rw [if_neg hquote, if_neg hslash, if_neg (by omega), if_neg (by omega),
        if_neg (hne '\n' (by decide)), if_neg (hne '\r' (by decide)),
        if_neg (hne '\t' (by decide)), if_neg hcontrol]
    rw [escaped, hesc, List.flatMap_singleton]

/-- The bytes of a text come out of its quotes; `run` is what has been passed of the present run. -/
theorem quotedBytes_escaped (cs : List Char) (run : List UInt8) (hrun : ∀ b ∈ run, isPlain b = true)
    (fuel : Nat) (hfuel : (cs.flatMap escaped).length < fuel) (parts : List (List UInt8))
    (rest : List UInt8) (n : Nat) :
    ∃ n', quotedBytes fuel parts ⟨run ++ (cs.flatMap escaped ++ 34 :: rest), n⟩ =
      .ok (parts.reverse.flatten ++ (run ++ cs.flatMap String.utf8EncodeChar), ⟨34 :: rest, n'⟩) := by
  induction cs generalizing run fuel parts n with
  | nil =>
      obtain ⟨fuel, rfl⟩ := Nat.exists_eq_succ_of_ne_zero (Nat.ne_of_gt (Nat.zero_lt_of_lt hfuel))
      have hplain : takeWhile isPlain ⟨run ++ 34 :: rest, n⟩ = .ok (run, ⟨34 :: rest, n + run.length⟩) :=
        takeWhile_append hrun (by simp [isPlain]) n
      refine ⟨n + run.length, ?_⟩
      show quotedBytes (fuel + 1) parts ⟨run ++ 34 :: rest, n⟩ = _
      rw [quotedBytes, bind_ok hplain, List.flatMap_nil, List.append_nil]
      show Except.ok ((run :: parts).reverse.flatten, _) = _
      rw [List.reverse_cons, List.flatten_append, List.flatten_singleton]
  | cons c cs ih =>
      rw [List.flatMap_cons, List.length_append] at hfuel
      rw [List.flatMap_cons, List.flatMap_cons]
      rcases escaped_cases c with ⟨hself, hplain⟩ | ⟨e, hesc, htakes⟩
      · -- The run goes on.
        have hrun' : ∀ b ∈ run ++ String.utf8EncodeChar c, isPlain b = true := by
          intro b hb
          rcases List.mem_append.mp hb with hb | hb
          · exact hrun b hb
          · exact hplain b hb
        obtain ⟨n', hn'⟩ := ih (run ++ String.utf8EncodeChar c) hrun' fuel (by omega) parts n
        refine ⟨n', ?_⟩
        rw [hself]
        simpa only [List.append_assoc] using hn'
      · -- The run ends before the backslash, and a new one begins after the escape.
        obtain ⟨fuel, rfl⟩ := Nat.exists_eq_succ_of_ne_zero (Nat.ne_of_gt (Nat.zero_lt_of_lt hfuel))
        have hplain : takeWhile isPlain ⟨run ++ 92 :: (e ++ (cs.flatMap escaped ++ 34 :: rest)), n⟩ =
            .ok (run, ⟨92 :: (e ++ (cs.flatMap escaped ++ 34 :: rest)), n + run.length⟩) :=
          takeWhile_append hrun (by simp [isPlain]) n
        obtain ⟨m, hm⟩ := htakes (cs.flatMap escaped ++ 34 :: rest) (n + run.length + 1)
        rw [hesc, List.length_cons] at hfuel
        obtain ⟨n', hn'⟩ := ih [] (by simp) fuel (by omega) (String.utf8EncodeChar c :: run :: parts) m
        refine ⟨n', ?_⟩
        rw [hesc]
        have hgroup : run ++ (92 :: e ++ cs.flatMap escaped ++ 34 :: rest) =
            run ++ 92 :: (e ++ (cs.flatMap escaped ++ 34 :: rest)) := by simp
        rw [hgroup, quotedBytes, bind_ok hplain]
        show (do let e ← escape; quotedBytes fuel (e :: run :: parts) : Reader (List UInt8))
          ⟨e ++ (cs.flatMap escaped ++ 34 :: rest), n + run.length + 1⟩ = _
        rw [bind_ok hm]
        refine hn'.trans ?_
        simp

theorem quoted_takes (s : String) : Takes quoted (s.toList.flatMap escaped ++ [34]) s := by
  intro rest n
  have hgroup : s.toList.flatMap escaped ++ [34] ++ rest =
      [] ++ (s.toList.flatMap escaped ++ 34 :: rest) := by simp
  obtain ⟨n', hn'⟩ := quotedBytes_escaped s.toList [] (by simp)
    ((s.toList.flatMap escaped ++ 34 :: rest).length + 1) (by rw [List.length_append]; omega) [] rest n
  have hdecode : Utf8.decode? (s.toList.flatMap String.utf8EncodeChar) = some s := by
    rw [← Utf8.encode_eq]
    exact Utf8.decode?_encode s
  refine ⟨n' + 1, ?_⟩
  rw [hgroup, quoted, bind_ok get_eq]
  refine (bind_ok hn').trans ?_
  simp only [List.reverse_nil, List.flatten_nil, List.nil_append, hdecode]
  rfl

theorem text_takes (s : String) : Takes text (Utf8.encode (quote s)) s := by
  intro rest n
  obtain ⟨n', hn'⟩ := quoted_takes s rest (n + 1)
  refine ⟨n', ?_⟩
  rw [encode_quote, List.cons_append, text, bind_ok (start_cons (by decide) _ n), if_pos rfl]
  exact hn'

/-! ### Numbers -/

/-- What can come after a value inside an object, or at the end of a text. -/
def Closes (rest : List UInt8) : Prop := ∀ b ∈ rest.head?, b = 44 ∨ b = 125

theorem Closes.not_isDigit {rest : List UInt8} (h : Closes rest) :
    ∀ b ∈ rest.head?, isDigit b = false := by
  intro b hb
  rcases h b hb with rfl | rfl <;> rfl

/-- The byte of a digit, or of another character of ASCII. -/
def digitByte (c : Char) : UInt8 := UInt8.ofNat c.toNat

theorem isDigit_toNat {c : Char} (h : c.isDigit = true) : 48 ≤ c.toNat ∧ c.toNat ≤ 57 := by
  simpa [Char.isDigit, UInt32.le_iff_toNat_le] using h

theorem digitByte_toNat {c : Char} (h : c.isDigit = true) : (digitByte c).toNat = c.toNat := by
  have hc := isDigit_toNat h
  exact UInt8.toNat_ofNat_of_lt' (show c.toNat < 256 by omega)

/-- Only the digit zero has the byte of zero. -/
theorem digitByte_ne_zero {c : Char} (h : c.isDigit = true) (hc : c ≠ '0') : digitByte c ≠ 48 := by
  intro hbyte
  have htoNat := digitByte_toNat h
  rw [hbyte] at htoNat
  exact hc (Char.toNat_inj.mp htoNat.symm)

theorem isDigit_digitByte {c : Char} (h : c.isDigit = true) : isDigit (digitByte c) = true := by
  have hc := isDigit_toNat h
  have hb := digitByte_toNat h
  simp only [isDigit, Bool.and_eq_true, decide_eq_true_eq, UInt8.le_iff_toNat_le, hb]
  exact hc

theorem digitByte_ne {c : Char} (h : c.isDigit = true) {b : UInt8} (hb : isDigit b = false) :
    digitByte c ≠ b := by
  intro heq
  rw [← heq, isDigit_digitByte h] at hb
  cases hb

theorem isSpace_digitByte {c : Char} (h : c.isDigit = true) : isSpace (digitByte c) = false := by
  simp [isSpace, digitByte_ne h (b := 32) (by decide), digitByte_ne h (b := 10) (by decide),
    digitByte_ne h (b := 9) (by decide), digitByte_ne h (b := 13) (by decide)]

private theorem encodeChar_byte {c : Char} (h : c.toNat ≤ 0x7F) :
    String.utf8EncodeChar c = [digitByte c] := by
  rcases Utf8.encodeChar_cases c with ⟨-, b, heq, hb⟩ | h' | h' | h'
  · rw [heq, digitByte, ← hb, UInt8.ofNat_toNat]
  · omega
  · omega
  · omega

/-- Characters of ASCII are written as their bytes. -/
theorem encode_bytes {cs : List Char} (h : ∀ c ∈ cs, c.toNat ≤ 0x7F) :
    cs.flatMap String.utf8EncodeChar = cs.map digitByte := by
  induction cs with
  | nil => rfl
  | cons c cs ih =>
      obtain ⟨hc, hcs⟩ := List.forall_mem_cons.mp h
      rw [List.flatMap_cons, List.map_cons, ih hcs, encodeChar_byte hc]
      rfl

theorem le_ofDigitChars (cs : List Char) (n : Nat) : n ≤ Nat.ofDigitChars 10 cs n := by
  induction cs generalizing n with
  | nil => exact Nat.le_refl n
  | cons c cs ih =>
      rw [Nat.ofDigitChars_cons]
      have hle := ih (10 * n + (c.toNat - '0'.toNat))
      omega

/-- The digits of a number within sixty-four bits all fit. -/
theorem leading_digits {cs : List Char} (hcs : ∀ c ∈ cs, c.isDigit = true) (n k : Nat)
    (h : Nat.ofDigitChars 10 cs n < UInt64.size) :
    leading n k (cs.map digitByte) = (Nat.ofDigitChars 10 cs n, k + cs.length) := by
  induction cs generalizing n k with
  | nil => rfl
  | cons c cs ih =>
      obtain ⟨hc, hrest⟩ := List.forall_mem_cons.mp hcs
      rw [Nat.ofDigitChars_cons] at h ⊢
      have hvalue : n * 10 + ((digitByte c).toNat - 48) = 10 * n + (c.toNat - '0'.toNat) := by
        rw [digitByte_toNat hc, Nat.mul_comm]
        rfl
      have hroom : roomFor n (digitByte c) = true := by
        have hle := le_ofDigitChars cs (10 * n + (c.toNat - '0'.toNat))
        rw [roomFor, hvalue, decide_eq_true_eq]
        omega
      rw [List.map_cons, leading, if_pos hroom, hvalue, ih hrest _ _ h, List.length_cons]
      simp only [Prod.mk.injEq, true_and]
      omega

/-- Only zero is written with a zero in front. -/
theorem toDigits_cons {n : Nat} (hn : 0 < n) : ∃ c cs, Nat.toDigits 10 n = c :: cs ∧ c ≠ '0' := by
  induction n using Nat.strongRecOn with
  | ind n ih =>
      by_cases hlt : n < 10
      · refine ⟨n.digitChar, [], Nat.toDigits_of_lt_base hlt, ?_⟩
        exact (by decide : ∀ n < 10, 0 < n → n.digitChar ≠ '0') n hlt hn
      · obtain ⟨c, cs, heq, hc⟩ := ih (n / 10) (by omega) (by omega)
        refine ⟨c, cs ++ [(n % 10).digitChar], ?_, hc⟩
        rw [Nat.toDigits_of_base_le (by omega) (by omega), heq, List.cons_append]

private theorem finish_closes {rest : List UInt8} (h : Closes rest) (n m : Nat) :
    unsignedNumber.finish true n 0 ⟨rest, m⟩ = .ok (.whole n, ⟨rest, m⟩) := by
  cases rest with
  | nil => rfl
  | cons b more => rcases h b rfl with rfl | rfl <;> rfl

theorem unsignedNumber_digits {n : Nat} (hn : n < UInt64.size) {rest : List UInt8}
    (h : Closes rest) (m : Nat) :
    ∃ m', unsignedNumber true ⟨(Nat.toDigits 10 n).map digitByte ++ rest, m⟩ =
      .ok (.whole n, ⟨rest, m'⟩) := by
  by_cases h0 : n = 0
  · subst h0
    refine ⟨m + 1, ?_⟩
    cases rest with
    | nil => rfl
    | cons b more => rcases h b rfl with rfl | rfl <;> rfl
  · obtain ⟨c, cs, heq, hc⟩ := toDigits_cons (Nat.pos_of_ne_zero h0)
    have hdigits : ∀ d ∈ c :: cs, d.isDigit = true := by
      rw [← heq]
      exact fun d hd => Nat.isDigit_of_mem_toDigits (by omega) (by omega) hd
    obtain ⟨hfirst, hmore⟩ := List.forall_mem_cons.mp hdigits
    have hvalue : Nat.ofDigitChars 10 (c :: cs) 0 = n := by
      rw [← heq, Nat.ofDigitChars_ten_toDigits]
    have hne := digitByte_ne_zero hfirst hc
    have htaken : takeWhile isDigit ⟨cs.map digitByte ++ rest, m + 1⟩ =
        .ok (cs.map digitByte, ⟨rest, m + 1 + (cs.map digitByte).length⟩) := by
      refine takeWhile_append ?_ h.not_isDigit _
      intro b hb
      obtain ⟨d, hd, rfl⟩ := List.mem_map.mp hb
      exact isDigit_digitByte (hmore d hd)
    have hleading := leading_digits hdigits 0 0 (hvalue ▸ hn)
    rw [hvalue, List.map_cons] at hleading
    refine ⟨m + 1 + (cs.map digitByte).length, ?_⟩
    rw [heq, List.map_cons, List.cons_append, unsignedNumber]
    have hnext : next ⟨digitByte c :: (cs.map digitByte ++ rest), m⟩ =
        .ok (some (digitByte c), ⟨cs.map digitByte ++ rest, m + 1⟩) := rfl
    rw [bind_ok hnext]
    simp only [if_neg hne, isDigit_digitByte hfirst, if_true]
    rw [bind_ok htaken]
    simp only [hleading, List.length_map, List.length_cons]
    have hdropped : cs.length + 1 - (0 + (cs.length + 1)) = 0 := by omega
    rw [hdropped]
    exact finish_closes h n _

end EmbedServer.Json.Reader
