/-
Records are read as they are written.

A value is followed by a comma, by the bracket that closes its object, or by nothing.  `Reads` says that
a reader takes the text of a value in front of any of these, and it goes through the combinators one by
one.  For a record that is an induction over its members: each is read by the field of its name, and what
has been seen so far is what the next one must not repeat.

With this the text of a message is read back if each of its members is.
-/
import EmbedServer.Proofs.Json.Token

namespace EmbedServer.Json.Reader

open Schema

variable {α β : Type}

/-- A reader takes the text of a value in front of what can come after it. -/
structure Reads (r : Reader α) (v : Value) (a : α) : Prop where
  takes : ∀ rest n, Closes rest → ∃ n', r ⟨Utf8.encode v.render ++ rest, n⟩ = .ok (a, ⟨rest, n'⟩)
  /-- The text begins with neither a space nor the word for nothing. -/
  begins : ∃ b more, Utf8.encode v.render = b :: more ∧ isSpace b = false ∧ b ≠ 110

/-! ### Plain values -/

theorem reads_text (s : String) : Reads text (.text s) s where
  takes := fun rest n _ => text_takes s rest n
  begins := ⟨34, _, encode_quote s, by decide, by decide⟩

private theorem encode_digits (n : Nat) :
    Utf8.encode (Value.whole n).render = (Nat.toDigits 10 n).map digitByte := by
  have hrender : (Value.whole n).render = String.ofList (Nat.toDigits 10 n) :=
    Nat.repr_eq_ofList_toDigits
  rw [hrender, Utf8.encode_ofList]
  refine encode_bytes ?_
  intro c hc
  have hdigit := isDigit_toNat (Nat.isDigit_of_mem_toDigits (by omega) (by omega) hc)
  omega

private theorem digits_begin (n : Nat) :
    ∃ b more, (Nat.toDigits 10 n).map digitByte = b :: more ∧
      isDigit b = true ∧ isSpace b = false ∧ b ≠ 45 ∧ b ≠ 110 := by
  cases heq : Nat.toDigits 10 n with
  | nil => exact absurd heq Nat.toDigits_ne_nil
  | cons c cs =>
      have hc : c.isDigit = true := by
        refine Nat.isDigit_of_mem_toDigits (b := 10) (n := n) (by omega) (by omega) ?_
        rw [heq]
        exact List.mem_cons_self
      exact ⟨digitByte c, cs.map digitByte, rfl, isDigit_digitByte hc, isSpace_digitByte hc,
        digitByte_ne hc (by decide), digitByte_ne hc (by decide)⟩

theorem reads_natural {n : Nat} (hn : n < UInt64.size) : Reads (natural .w64) (.whole n) n where
  takes := by
    intro rest m hrest
    obtain ⟨c, cs, heq, hbyte⟩ := digits_begin n
    obtain ⟨m', hm'⟩ := unsignedNumber_digits hn hrest m
    have hfits : Width.fits .w64 n = true := by
      simp only [Width.fits, Width.count, Bool.and_eq_true, decide_eq_true_eq]
      exact ⟨Int.natCast_nonneg n, decide_eq_true (Int.ofNat_lt.mpr hn)⟩
    refine ⟨m', ?_⟩
    rw [encode_digits]
    rw [heq] at hm' ⊢
    rw [List.cons_append] at hm' ⊢
    have hnumber : number "u64" ⟨c :: (cs ++ rest), m⟩ = .ok (.whole n, ⟨rest, m'⟩) := by
      rw [number, bind_ok (start_cons hbyte.2.1 _ m), if_neg hbyte.2.2.1, if_pos hbyte.1]
      exact hm'
    rw [natural]
    refine (bind_ok hnumber).trans ?_
    simp only [hfits]
    rfl
  begins := by
    obtain ⟨c, cs, heq, hbyte⟩ := digits_begin n
    exact ⟨c, cs, (encode_digits n).trans heq, hbyte.2.1, hbyte.2.2.2⟩

/-! ### Combinators -/

theorem Reads.map {r : Reader α} {v : Value} {a : α} (h : Reads r v a) (f : α → β) :
    Reads (f <$> r) v (f a) where
  takes := by
    intro rest n hrest
    obtain ⟨n', hn'⟩ := h.takes rest n hrest
    exact ⟨n', map_ok f hn'⟩
  begins := h.begins

theorem Reads.optional {r : Reader α} {v : Value} {a : α} (h : Reads r v a) :
    Reads (optional r) v (some a) where
  takes := by
    intro rest n hrest
    obtain ⟨b, more, hbytes, hspace, hnull⟩ := h.begins
    obtain ⟨n', hn'⟩ := h.takes rest n hrest
    refine ⟨n', ?_⟩
    rw [hbytes] at hn' ⊢
    rw [List.cons_append] at hn' ⊢
    rw [Reader.optional, bind_ok (token_cons hspace _ n)]
    generalize hfirst : some b = first
    split
    · exact absurd (Option.some.inj hfirst) hnull
    · exact map_ok some hn'
  begins := h.begins

theorem reads_choice {choices : List (String × α)} {word : String} {a : α}
    (h : choices.lookup word = some a) : Reads (choice choices) (.text word) a where
  takes := by
    intro rest n _
    obtain ⟨n', hn'⟩ := quoted_takes word rest (n + 1)
    refine ⟨n', ?_⟩
    show choice choices ⟨Utf8.encode (quote word) ++ rest, n⟩ = _
    rw [encode_quote, List.cons_append, choice, bind_ok (token_cons (by decide) _ n)]
    show choiceWord choices ⟨34 :: _, n⟩ = _
    rw [choiceWord, bind_ok (start_cons (by decide) _ n), if_pos rfl, bind_ok (advance_cons _ _ n)]
    refine (bind_ok hn').trans ?_
    rw [h]
    rfl
  begins := (reads_text word).begins

/-! ### Records -/

/-- A member of an object, and what it says about a record. -/
structure Member (α : Type) where
  name : String
  value : Value
  set : α → α

namespace Member

/-- The name and the value, as they stand in the object. -/
def entry (m : Member α) : String × Value := (m.name, m.value)

/-- The text of a member. -/
def bytes (m : Member α) : List UInt8 :=
  Utf8.encode (quote m.name) ++ 58 :: Utf8.encode m.value.render

/-- The texts of members, each with a comma in front if it is not the first one. -/
def list (first : Bool) : List (Member α) → List UInt8
  | [] => []
  | m :: ms => (if first then [] else [44]) ++ (m.bytes ++ list false ms)

/-- The member is read by the field of its name. -/
def Fits (fields : List (Field Reader α)) (m : Member α) : Prop :=
  ∃ f, fields.find? (·.name == m.name) = some f ∧ Reads f.read m.value m.set

end Member

private theorem encode_member (m : Member α) :
    Utf8.encode (quote m.name ++ ":" ++ m.value.render) = m.bytes := by
  have hcolon : Utf8.encode ":" = [58] := (Utf8.encode_eq _).trans (by decide)
  rw [Utf8.encode_append, Utf8.encode_append, hcolon, List.append_assoc]
  rfl

private theorem encode_members (ms : List (Member α)) :
    Utf8.encode (String.intercalate "," (Value.renderFields (ms.map Member.entry))) =
      Member.list true ms := by
  have hcomma : Utf8.encode "," = [44] := (Utf8.encode_eq _).trans (by decide)
  induction ms with
  | nil =>
      show Utf8.encode (String.intercalate "," []) = []
      rw [String.intercalate_nil, Utf8.encode_eq]
      rfl
  | cons m ms ih =>
      cases ms with
      | nil =>
          show Utf8.encode (String.intercalate "," [quote m.name ++ ":" ++ m.value.render]) = _
          rw [String.intercalate_singleton, encode_member]
          simp [Member.list]
      | cons m' ms =>
          have hcons : Value.renderFields ((m :: m' :: ms).map Member.entry) =
              (quote m.name ++ ":" ++ m.value.render) ::
                Value.renderFields ((m' :: ms).map Member.entry) := rfl
          rw [hcons, String.intercalate_cons_of_ne_nil (by simp [Value.renderFields, Member.entry]),
            Utf8.encode_append, Utf8.encode_append, encode_member, hcomma, ih]
          simp [Member.list]

theorem encode_object (ms : List (Member α)) :
    Utf8.encode (Value.object (ms.map Member.entry)).render = 123 :: (Member.list true ms ++ [125]) := by
  have hopen : Utf8.encode "\x7b" = [123] := (Utf8.encode_eq _).trans (by decide)
  have hclose : Utf8.encode "\x7d" = [125] := (Utf8.encode_eq _).trans (by decide)
  rw [Value.render, Utf8.encode_append, Utf8.encode_append, hopen, hclose, encode_members]
  rfl

/-- An object is written with its opening bracket first. -/
theorem object_begins (fields : List (String × Value)) :
    ∃ more, Utf8.encode (Value.object fields).render = 123 :: more := by
  have hopen : Utf8.encode "\x7b" = [123] := (Utf8.encode_eq _).trans (by decide)
  rw [Value.render, Utf8.encode_append, Utf8.encode_append, hopen]
  exact ⟨_, rfl⟩

private theorem closes_list (ms : List (Member α)) (rest : List UInt8) :
    Closes (Member.list false ms ++ 125 :: rest) := by
  intro b hb
  cases ms with
  | nil => exact Or.inr (Option.some.inj hb).symm
  | cons m ms => exact Or.inl (Option.some.inj hb).symm

private theorem length_le_list (first : Bool) (ms : List (Member α)) :
    ms.length ≤ (Member.list first ms).length := by
  induction ms generalizing first with
  | nil => exact Nat.le_refl 0
  | cons m ms ih =>
      have hle := ih false
      simp only [Member.list, Member.bytes, List.length_append, List.length_cons]
      omega

theorem anotherKey_end (first : Bool) (rest : List UInt8) (n : Nat) :
    anotherKey first ⟨125 :: rest, n⟩ = .ok (false, ⟨125 :: rest, n⟩) := by
  rw [anotherKey, bind_ok (token_cons (by decide) rest n)]
  rfl

theorem anotherKey_next (first : Bool) (rest : List UInt8) (n : Nat) :
    ∃ n', anotherKey first ⟨(if first then [] else [44]) ++ 34 :: rest, n⟩ =
      .ok (true, ⟨34 :: rest, n'⟩) := by
  cases first with
  | true =>
      refine ⟨n, ?_⟩
      show anotherKey true ⟨34 :: rest, n⟩ = _
      rw [anotherKey, bind_ok (token_cons (by decide) rest n)]
      rfl
  | false =>
      refine ⟨n + 1, ?_⟩
      show anotherKey false ⟨44 :: 34 :: rest, n⟩ = _
      rw [anotherKey, bind_ok (token_cons (by decide) _ n)]
      refine (bind_ok (advance_cons 44 (34 :: rest) n)).trans ?_
      rw [bind_ok (token_cons (by decide) rest (n + 1))]
      rfl

theorem colon_cons (rest : List UInt8) (n : Nat) :
    colon ⟨58 :: rest, n⟩ = .ok ((), ⟨rest, n + 1⟩) := by
  rw [colon, bind_ok (token_cons (by decide) rest n)]
  rfl

theorem inside_ok {r : Reader α} (step : Step) {c c' : Cursor} {a : α} (h : r c = .ok (a, c')) :
    inside step r c = .ok (a, c') := by
  rw [inside, h]

theorem missingField_none {fields : List (Field Reader α)} {seen : List String}
    (h : ∀ f ∈ fields, f.presence = .required → f.name ∈ seen) : missingField fields seen = none := by
  rw [missingField, Option.map_eq_none_iff, List.find?_eq_none]
  intro f hf
  by_cases hpresence : f.presence = .required
  · simp [h f hf hpresence]
  · simp [hpresence]

/-- The members of an object are read one after the other. -/
theorem fieldsByName_list {fields : List (Field Reader α)} (ms : List (Member α))
    (hfits : ∀ m ∈ ms, m.Fits fields) (hnodup : (ms.map Member.name).Nodup) (seen : List String)
    (hseen : ∀ m ∈ ms, m.name ∉ seen)
    (hrequired : ∀ f ∈ fields, f.presence = .required → f.name ∈ seen ∨ f.name ∈ ms.map Member.name)
    (fuel : Nat) (hfuel : ms.length < fuel) (a : α) (rest : List UInt8) (n : Nat) :
    ∃ n', fieldsByName fields fuel seen a ⟨Member.list seen.isEmpty ms ++ 125 :: rest, n⟩ =
      .ok (ms.foldl (fun a m => m.set a) a, ⟨125 :: rest, n'⟩) := by
  induction ms generalizing seen fuel a n with
  | nil =>
      obtain ⟨fuel, rfl⟩ := Nat.exists_eq_succ_of_ne_zero (Nat.ne_of_gt hfuel)
      have hmissing : missingField fields seen = none := by
        refine missingField_none fun f hf hpresence => ?_
        exact (hrequired f hf hpresence).resolve_right List.not_mem_nil
      refine ⟨n, ?_⟩
      show fieldsByName fields (fuel + 1) seen a ⟨125 :: rest, n⟩ = _
      rw [fieldsByName, bind_ok (anotherKey_end _ rest n), if_neg Bool.false_ne_true, hmissing]
      rfl
  | cons m ms ih =>
      obtain ⟨fuel, rfl⟩ := Nat.exists_eq_succ_of_ne_zero (Nat.ne_of_gt (Nat.zero_lt_of_lt hfuel))
      obtain ⟨⟨f, hfind, hread⟩, hfits⟩ := List.forall_mem_cons.mp hfits
      obtain ⟨hnew, hseen⟩ := List.forall_mem_cons.mp hseen
      obtain ⟨hother, hnodup⟩ := List.nodup_cons.mp hnodup
      -- What comes after the opening quote of the key.
      let after := m.name.toList.flatMap escaped ++ [34] ++
        (58 :: (Utf8.encode m.value.render ++ (Member.list false ms ++ 125 :: rest)))
      have hbytes : Member.list seen.isEmpty (m :: ms) ++ 125 :: rest =
          (if seen.isEmpty then [] else [44]) ++ 34 :: after := by
        simp [Member.list, Member.bytes, encode_quote, after]
      obtain ⟨n1, h1⟩ := anotherKey_next seen.isEmpty after n
      obtain ⟨n2, h2⟩ := quoted_takes m.name
        (58 :: (Utf8.encode m.value.render ++ (Member.list false ms ++ 125 :: rest))) (n1 + 1)
      obtain ⟨n3, h3⟩ := hread.takes _ (n2 + 1) (closes_list ms rest)
      obtain ⟨n4, h4⟩ := ih hfits hnodup (m.name :: seen) (by
          intro m' hm'
          have hne : m'.name ≠ m.name := by
            intro heq
            exact hother (heq ▸ List.mem_map_of_mem hm')
          simp [hne, hseen m' hm']) (by
          intro f hf hpresence
          rcases hrequired f hf hpresence with hin | hin
          · exact Or.inl (List.mem_cons_of_mem _ hin)
          · rcases List.mem_cons.mp hin with heq | hin
            · exact Or.inl (heq ▸ List.mem_cons_self)
            · exact Or.inr hin) fuel (by simpa using hfuel) (m.set a) n3
      refine ⟨n4, ?_⟩
      rw [hbytes, fieldsByName, bind_ok h1, if_pos rfl, bind_ok (advance_cons _ _ n1), bind_ok h2]
      simp only [hfind, List.contains_eq_mem, hnew, decide_false, Bool.false_eq_true, if_false]
      rw [bind_ok (colon_cons _ n2), bind_ok (inside_ok _ h3)]
      exact h4

theorem reads_record {name : String} {init : α} {fields : List (Field Reader α)}
    {ms : List (Member α)} (hfits : ∀ m ∈ ms, m.Fits fields) (hnodup : (ms.map Member.name).Nodup)
    (hrequired : ∀ f ∈ fields, f.presence = .required → f.name ∈ ms.map Member.name) :
    Reads (record name init fields) (.object (ms.map Member.entry))
      (ms.foldl (fun a m => m.set a) init) where
  takes := by
    intro rest n _
    have hfuel : ms.length < (Member.list true ms ++ 125 :: rest).length + 1 := by
      have hle := length_le_list true ms
      rw [List.length_append]
      omega
    obtain ⟨n', hn'⟩ := fieldsByName_list ms hfits hnodup [] (by simp)
      (fun f hf hpresence => Or.inr (hrequired f hf hpresence)) _ hfuel init rest (n + 1)
    refine ⟨n' + 1, ?_⟩
    rw [encode_object, List.cons_append, List.append_assoc, record,
      bind_ok (start_cons (by decide) _ n), if_pos rfl, bind_ok (advance_cons _ _ n), bind_ok get_eq]
    refine (bind_ok hn').trans ?_
    rfl
  begins := ⟨123, _, encode_object ms, by decide, by decide⟩

/-! ### Whole texts -/

/-- A message is read back from the text that is nothing but that message. -/
theorem Reads.run {r : Reader α} {v : Value} {a : α} (h : Reads r v a) :
    run r (Utf8.encode v.render) = .ok a := by
  obtain ⟨n', hn'⟩ := h.takes [] 0 (by simp [Closes])
  rw [List.append_nil] at hn'
  rw [Reader.run, Reader.runFront, Cursor.ofBytes, bind_ok hn']
  rfl

/-- It is read back as well where nobody looks at what follows. -/
theorem Reads.runFront {r : Reader α} {v : Value} {a : α} (h : Reads r v a) :
    runFront r (Utf8.encode v.render) = .ok a := by
  obtain ⟨n', hn'⟩ := h.takes [] 0 (by simp [Closes])
  rw [List.append_nil] at hn'
  rw [Reader.runFront, Cursor.ofBytes, hn']

end EmbedServer.Json.Reader
