/-
Lists of doubles are read one by one.

What becomes of a double on its way through JSON text is said by `wired?`: the digits and the power of ten
that are written for it, put together again in floating point.  What is no number is written as null and
read as nothing at all.  A list is read if each of its items is, and then the items are what becomes of
each; if one item is lost, so is the list, and so is the record that has the list in it.
-/
import EmbedServer.Call.Message
import EmbedServer.Proofs.Json.Number
import EmbedServer.Proofs.Json.Record

namespace EmbedServer

/-- What a double is read as where JSON text was written for it, if it is read. -/
def Decimal.wired? (x : Float) : Option Float :=
  match Binary64.ofFloat x with
  | .finite negative m q =>
    let (significand, exponent) := (shortest m q).taken
    (Json.Reader.scale (exponent.natAbs / 308 + 2) significand.toUInt64.toFloat exponent).map
      fun y => if negative then -y else y
  | .infinite _ | .nan => none

namespace Json.Reader

open Decimal (Spelled wired?)
open Schema

variable {α β : Type}

/-! ### Success and failure

A list is lost with one of its items, so a reader's failures have to be followed as well as its
successes.  `Tells` has both in one statement, and goes through the same combinators.
-/

theorem bind_error {r : Reader α} {f : α → Reader β} {c : Cursor} {e : Failure}
    (h : r c = .error e) : (r >>= f) c = .error e := by
  show (r c).bind _ = _
  rw [h]
  rfl

private theorem map_error {r : Reader α} (f : α → β) {c : Cursor} {e : Failure} (h : r c = .error e) :
    (f <$> r) c = .error e := by
  show (r c).bind _ = _
  rw [h]
  rfl

/-- A reader takes these bytes in front of the rest and gives this value, or it fails on them. -/
def Tells (r : Reader α) (bytes rest : List UInt8) : Option α → Prop
  | some a => ∀ n, ∃ n', r ⟨bytes ++ rest, n⟩ = .ok (a, ⟨rest, n'⟩)
  | none => ∀ n, ∃ e, r ⟨bytes ++ rest, n⟩ = .error e

/-- Steps that cannot fail may come in front. -/
theorem Tells.step {r r' : Reader α} {bytes bytes' rest : List UInt8} {a? : Option α}
    (h : Tells r' bytes' rest a?)
    (hstep : ∀ n, ∃ n', r ⟨bytes ++ rest, n⟩ = r' ⟨bytes' ++ rest, n'⟩) : Tells r bytes rest a? := by
  cases a? with
  | some a =>
      intro n
      obtain ⟨n₁, h₁⟩ := hstep n
      obtain ⟨n₂, h₂⟩ := h n₁
      exact ⟨n₂, h₁.trans h₂⟩
  | none =>
      intro n
      obtain ⟨n₁, h₁⟩ := hstep n
      obtain ⟨e, he⟩ := h n₁
      exact ⟨e, h₁.trans he⟩

/-- One reader after another, and the bytes of the one after those of the other. -/
theorem Tells.bind {r : Reader α} {f : α → Reader β} {bytes rest : List UInt8} {a? : Option α}
    {g : α → Option β} (more : List UInt8) (h : Tells r bytes (more ++ rest) a?)
    (hf : ∀ a, Tells (f a) more rest (g a)) : Tells (r >>= f) (bytes ++ more) rest (a?.bind g) := by
  cases a? with
  | none =>
      intro n
      obtain ⟨e, he⟩ := h n
      rw [List.append_assoc]
      exact ⟨e, bind_error he⟩
  | some a =>
      refine (hf a).step ?_
      intro n
      obtain ⟨n', hn'⟩ := h n
      rw [List.append_assoc]
      exact ⟨n', bind_ok hn'⟩

theorem Tells.pure (a : α) (rest : List UInt8) : Tells (Pure.pure a) [] rest (some a) :=
  fun n => ⟨n, rfl⟩

theorem Tells.map {r : Reader α} {bytes rest : List UInt8} {a? : Option α} (h : Tells r bytes rest a?)
    (f : α → β) : Tells (f <$> r) bytes rest (a?.map f) := by
  cases a? with
  | some a =>
      intro n
      obtain ⟨n', hn'⟩ := h n
      exact ⟨n', map_ok f hn'⟩
  | none =>
      intro n
      obtain ⟨e, he⟩ := h n
      exact ⟨e, map_error f he⟩

theorem Tells.inside {r : Reader α} {bytes rest : List UInt8} {a? : Option α}
    (h : Tells r bytes rest a?) (step : Step) : Tells (inside step r) bytes rest a? := by
  cases a? with
  | some a =>
      intro n
      obtain ⟨n', hn'⟩ := h n
      exact ⟨n', inside_ok step hn'⟩
  | none =>
      intro n
      obtain ⟨e, he⟩ := h n
      exact ⟨e.within step, by rw [Reader.inside, he]⟩

/-! ### Doubles -/

/-- A spelled decimal is ASCII, and its first character is a digit. -/
theorem encode_spelled {w : Spelled} (hw : w.Regular) :
    w.text.flatMap String.utf8EncodeChar = w.text.map digitByte ∧
      ∃ c cs, w.text = c :: cs ∧ c.isDigit = true := by
  have hdigit : ∀ {c : Char}, c.isDigit = true → c.toNat ≤ 0x7F := by
    intro c hc
    have hbounds := isDigit_toNat hc
    omega
  have hpower : ∀ c ∈ Spelled.powerText w.power, c.toNat ≤ 0x7F := by
    intro c hc
    cases hp : w.power with
    | none =>
        rw [hp] at hc
        cases hc
    | some p =>
        rw [hp, Spelled.powerText, List.mem_cons, List.mem_cons] at hc
        rcases hc with rfl | rfl | hc
        · decide
        · split <;> decide
        · exact hdigit ((toDigits_digits p.natAbs).1 c hc)
  refine ⟨encode_bytes ?_, ?_⟩
  · intro c hc
    rw [Spelled.text, List.mem_append, List.mem_append] at hc
    rcases hc with hc | hc | hc
    · exact hdigit (hw.digits c (List.mem_append_left _ hc))
    · by_cases hnone : w.fraction = []
      · rw [if_pos hnone] at hc
        cases hc
      · rw [if_neg hnone] at hc
        rcases List.mem_cons.mp hc with rfl | hc
        · decide
        · exact hdigit (hw.digits c (List.mem_append_right _ hc))
    · exact hpower c hc
  · obtain ⟨c, cs, heq⟩ : ∃ c cs, w.whole = c :: cs := by
      rcases hw.front with heq | ⟨c, cs, heq, -⟩
      · exact ⟨'0', [], heq⟩
      · exact ⟨c, cs, heq⟩
    refine ⟨c, _, by rw [Spelled.text, heq, List.cons_append], hw.digits c ?_⟩
    rw [heq]
    exact List.mem_cons_self

/-- A number is written with its sign in front. -/
theorem encode_signed {w : Spelled} (hw : w.Regular) (negative : Bool) :
    Utf8.encode (w.signed negative) =
      if negative then 45 :: w.text.map digitByte else w.text.map digitByte := by
  have hminus : String.utf8EncodeChar '-' = [45] := by decide
  rw [Spelled.signed, Utf8.encode_ofList]
  cases negative with
  | true =>
      rw [if_pos rfl, if_pos rfl, List.flatMap_cons, hminus, (encode_spelled hw).1]
      rfl
  | false => rw [if_neg Bool.false_ne_true, if_neg Bool.false_ne_true, (encode_spelled hw).1]

private theorem encode_null : Utf8.encode "null" = [110, 117, 108, 108] :=
  (Utf8.encode_eq _).trans (by decide)

/-- A double is written as null and lost, or it is written as a decimal that can be read. -/
theorem written_cases (x : Float) :
    (Decimal.json.text x = "null" ∧ wired? x = none) ∨
      ∃ negative w, w.Regular ∧ Decimal.json.text x = Spelled.signed w negative ∧
        wired? x = (scale (w.exponent.natAbs / 308 + 2) w.significand.toUInt64.toFloat w.exponent).map
          fun y => if negative then -y else y := by
  unfold Decimal.Style.text wired?
  cases hx : Binary64.ofFloat x with
  | nan => exact Or.inl ⟨rfl, rfl⟩
  | infinite negative =>
      refine Or.inl ⟨?_, rfl⟩
      cases negative with
      | true => rfl
      | false => rfl
  | finite negative m q =>
      obtain ⟨hm, hlow, hhigh⟩ := Binary64.ofFloat_bounds hx
      obtain ⟨hzero, hdigits, hlow', hhigh'⟩ := Decimal.shortest_bounds hm hlow hhigh
      have hw := Decimal.Scaled.spelled_regular hzero hdigits hlow' hhigh'
      refine Or.inr ⟨negative, (Decimal.shortest m q).spelled, hw, ?_, ?_⟩
      · simp only [Decimal.Scaled.unsigned_spelled, Spelled.signed]
      · simp only [← (Decimal.shortest m q).spelled_taken]

/-- A number is read with its sign. -/
theorem number_spelled (expected : String) (negative : Bool) {w : Spelled} (hw : w.Regular)
    {rest : List UInt8} (hrest : Ends rest) (n : Nat) :
    ∃ n', number expected ⟨Utf8.encode (w.signed negative) ++ rest, n⟩ =
      real (!negative) w.significand w.exponent ⟨rest, n'⟩ := by
  obtain ⟨hbytes, c, cs, heq, hc⟩ := encode_spelled hw
  rw [encode_signed hw]
  cases negative with
  | true =>
      obtain ⟨n', hn'⟩ := unsignedNumber_spelled false hw hrest (n + 1)
      refine ⟨n', ?_⟩
      rw [if_pos rfl, List.cons_append, number, bind_ok (start_cons (by decide) _ n), if_pos rfl,
        bind_ok (advance_cons _ _ n)]
      exact hn'
  | false =>
      obtain ⟨n', hn'⟩ := unsignedNumber_spelled true hw hrest n
      refine ⟨n', ?_⟩
      rw [heq, List.map_cons, List.cons_append] at hn'
      rw [if_neg Bool.false_ne_true, heq, List.map_cons, List.cons_append, number,
        bind_ok (start_cons (isSpace_digitByte hc) _ n), if_neg (digitByte_ne hc (by decide)),
        if_pos (isDigit_digitByte hc)]
      exact hn'

/-- What is no number is written as null, and that is not read as a double. -/
theorem double_null (rest : List UInt8) : Tells double (Utf8.encode "null") rest none := by
  intro n
  rw [encode_null]
  exact ⟨_, rfl⟩

/-- The double of two whole numbers, if it is in range. -/
theorem real_tells (negative : Bool) (significand : Nat) (exponent : Int) (rest : List UInt8) :
    Tells (real (!negative) significand exponent) [] rest
      ((scale (exponent.natAbs / 308 + 2) significand.toUInt64.toFloat exponent).map
        fun y => .real (if negative then -y else y)) := by
  unfold real
  cases scale (exponent.natAbs / 308 + 2) significand.toUInt64.toFloat exponent with
  | none => exact fun n => ⟨_, rfl⟩
  | some y =>
      cases negative with
      | true => exact Tells.pure _ rest
      | false => exact Tells.pure _ rest

/-- The double that a number is taken for. -/
def Number.toDouble : Number → Float
  | .whole n => if n < 0 then -(n.natAbs.toUInt64.toFloat) else n.natAbs.toUInt64.toFloat
  | .real y => y

private theorem double_eq : double = Number.toDouble <$> number "f64" := by
  funext c
  show (number "f64" c).bind _ = (number "f64" c).bind _
  cases number "f64" c with
  | error e => rfl
  | ok p =>
      obtain ⟨n, c'⟩ := p
      cases n with
      | whole n => rfl
      | real y => rfl

/-- A double is read, or lost, as `wired?` says. -/
theorem double_tells (x : Float) {rest : List UInt8} (hrest : Ends rest) :
    Tells double (Utf8.encode (Decimal.json.text x)) rest (wired? x) := by
  rcases written_cases x with ⟨htext, hlost⟩ | ⟨negative, w, hw, htext, hwired⟩
  · rw [htext, hlost]
    exact double_null rest
  · rw [htext, hwired, double_eq]
    have hnumber := (real_tells negative w.significand w.exponent rest).step
      (number_spelled "f64" negative hw hrest)
    have hdouble := hnumber.map Number.toDouble
    rw [Option.map_map] at hdouble
    exact hdouble

/-- The text of a double begins with neither a space nor a closing bracket. -/
theorem double_begins (x : Float) :
    ∃ b more, Utf8.encode (Decimal.json.text x) = b :: more ∧ isSpace b = false ∧ b ≠ 93 := by
  rcases written_cases x with ⟨htext, -⟩ | ⟨negative, w, hw, htext, -⟩
  · rw [htext, encode_null]
    exact ⟨110, _, rfl, by decide, by decide⟩
  · obtain ⟨hbytes, c, cs, heq, hc⟩ := encode_spelled hw
    rw [htext, encode_signed hw]
    cases negative with
    | true => exact ⟨45, _, if_pos rfl, by decide, by decide⟩
    | false =>
        rw [if_neg Bool.false_ne_true, heq]
        exact ⟨digitByte c, _, rfl, isSpace_digitByte hc, digitByte_ne hc (by decide)⟩

/-! ### Lists

The induction is on the items, with the fuel kept above their number.  What stands in front of an item
depends on whether it is the first.
-/

/-- What can come after an item of a list. -/
def Separates (rest : List UInt8) : Prop := ∀ b ∈ rest.head?, b = 44 ∨ b = 93

theorem Separates.ends {rest : List UInt8} (h : Separates rest) : Ends rest := by
  intro b hb
  rcases h b hb with rfl | rfl <;> decide

/-- The texts of items, each with a comma in front if it is not the first one. -/
def itemBytes (write : β → List UInt8) (first : Bool) : List β → List UInt8
  | [] => []
  | b :: bs => (if first then [] else [44]) ++ (write b ++ itemBytes write false bs)

/-- Items are told one by one, and none of them looks like the end of the list. -/
structure Items (r : Reader α) (write : β → List UInt8) (told : β → Option α) : Prop where
  tells : ∀ b rest, Separates rest → Tells r (write b) rest (told b)
  begins : ∀ b, ∃ c more, write b = c :: more ∧ isSpace c = false ∧ c ≠ 93

private theorem items_double : Items double (fun x => Utf8.encode (Decimal.json.text x)) wired? where
  tells x _ hrest := double_tells x hrest.ends
  begins := double_begins

private theorem separates_items (write : β → List UInt8) (bs : List β) (rest : List UInt8) :
    Separates (itemBytes write false bs ++ 93 :: rest) := by
  intro b hb
  cases bs with
  | nil => exact Or.inr (Option.some.inj hb).symm
  | cons c cs => exact Or.inl (Option.some.inj hb).symm

private theorem length_le_items {r : Reader α} {write : β → List UInt8} {told : β → Option α}
    (h : Items r write told) (first : Bool) (bs : List β) :
    bs.length ≤ (itemBytes write first bs).length := by
  induction bs generalizing first with
  | nil => exact Nat.le_refl 0
  | cons b bs ih =>
      obtain ⟨c, more, heq, -⟩ := h.begins b
      have hle := ih false
      simp only [itemBytes, heq, List.length_append, List.length_cons]
      omega

private theorem anotherItem_end (first : Bool) (rest : List UInt8) (n : Nat) :
    anotherItem first ⟨93 :: rest, n⟩ = .ok (false, ⟨93 :: rest, n⟩) := by
  rw [anotherItem, bind_ok (token_cons (by decide) rest n)]
  rfl

private theorem anotherItem_next (first : Bool) {c : UInt8} (hspace : isSpace c = false) (hc : c ≠ 93)
    (rest : List UInt8) (n : Nat) :
    ∃ n', anotherItem first ⟨(if first then [] else [44]) ++ c :: rest, n⟩ =
      .ok (true, ⟨c :: rest, n'⟩) := by
  cases first with
  | true =>
      refine ⟨n, ?_⟩
      show anotherItem true ⟨c :: rest, n⟩ = _
      rw [anotherItem, bind_ok (token_cons hspace rest n)]
      simp only [if_neg hc]
      rfl
  | false =>
      refine ⟨n + 1, ?_⟩
      show anotherItem false ⟨44 :: c :: rest, n⟩ = _
      rw [anotherItem, bind_ok (token_cons (by decide) _ n)]
      refine (bind_ok (advance_cons 44 (c :: rest) n)).trans ?_
      rw [bind_ok (token_cons hspace rest (n + 1))]
      generalize hfirst : some c = first
      split
      · exact absurd (Option.some.inj hfirst) hc
      · rfl
      · cases hfirst

/-- The items of a list are read one after the other; the first one that is lost ends the reading. -/
theorem items_tells {r : Reader α} {write : β → List UInt8} {told : β → Option α}
    (h : Items r write told) (bs : List β) (fuel index : Nat) (hfuel : bs.length < fuel)
    (rest : List UInt8) :
    Tells (items r fuel index) (itemBytes write (index = 0) bs) (93 :: rest) (bs.mapM told) := by
  induction bs generalizing fuel index with
  | nil =>
      obtain ⟨fuel, rfl⟩ := Nat.exists_eq_succ_of_ne_zero (Nat.ne_of_gt hfuel)
      intro n
      refine ⟨n, ?_⟩
      show items r (fuel + 1) index ⟨93 :: rest, n⟩ = _
      rw [items, bind_ok (anotherItem_end _ rest n)]
      rfl
  | cons b bs ih =>
      obtain ⟨fuel, rfl⟩ := Nat.exists_eq_succ_of_ne_zero (Nat.ne_of_gt (Nat.zero_lt_of_lt hfuel))
      obtain ⟨c, more, heq, hspace, hc⟩ := h.begins b
      have hitem := (h.tells b _ (separates_items write bs rest)).inside (.item index)
      have hmore : ∀ a, Tells (do let as ← items r fuel (index + 1); Pure.pure (a :: as))
          (itemBytes write false bs) (93 :: rest) ((bs.mapM told).bind fun as => some (a :: as)) := by
        intro a
        have hbind := (ih fuel (index + 1) (by simpa using hfuel)).bind [] fun as =>
          Tells.pure (a :: as) (93 :: rest)
        rwa [List.append_nil] at hbind
      rw [List.mapM_cons]
      refine (hitem.bind _ hmore).step ?_
      intro n
      obtain ⟨n', hn'⟩ := anotherItem_next (index = 0) hspace hc
        (more ++ (itemBytes write false bs ++ 93 :: rest)) n
      refine ⟨n', ?_⟩
      have hbytes : itemBytes write (index = 0) (b :: bs) ++ 93 :: rest =
          (if decide (index = 0) = true then [] else [44]) ++
            c :: (more ++ (itemBytes write false bs ++ 93 :: rest)) := by
        simp [itemBytes, heq]
      rw [hbytes, items, bind_ok hn', heq, List.append_assoc]
      rfl

theorem encode_reals (xs : List Float) :
    Utf8.encode (Value.reals xs).render =
      91 :: (itemBytes (fun x => Utf8.encode (Decimal.json.text x)) true xs ++ [93]) := by
  have hopen : Utf8.encode "[" = [91] := (Utf8.encode_eq _).trans (by decide)
  have hclose : Utf8.encode "]" = [93] := (Utf8.encode_eq _).trans (by decide)
  have hcomma : Utf8.encode "," = [44] := (Utf8.encode_eq _).trans (by decide)
  have hitems : Utf8.encode (String.intercalate "," (Value.renderItems (xs.map .real))) =
      itemBytes (fun x => Utf8.encode (Decimal.json.text x)) true xs := by
    induction xs with
    | nil =>
        show Utf8.encode (String.intercalate "," []) = []
        rw [String.intercalate_nil, Utf8.encode_eq]
        rfl
    | cons x xs ih =>
        cases xs with
        | nil =>
            show Utf8.encode (String.intercalate "," [Decimal.json.text x]) = _
            rw [String.intercalate_singleton]
            simp [itemBytes]
        | cons y ys =>
            have hcons : Value.renderItems ((x :: y :: ys).map .real) =
                Decimal.json.text x :: Value.renderItems ((y :: ys).map .real) := rfl
            rw [hcons, String.intercalate_cons_of_ne_nil (by simp [Value.renderItems]),
              Utf8.encode_append, Utf8.encode_append, hcomma, ih]
            simp [itemBytes]
  rw [Value.reals, Value.render, Utf8.encode_append, Utf8.encode_append, hopen, hclose, hitems]
  rfl

/-- **A list of doubles is read if each of its items is**, and then item by item. -/
theorem list_tells (xs : List Float) (rest : List UInt8) :
    Tells (list double) (Utf8.encode (Value.reals xs).render) rest (xs.mapM wired?) := by
  have hfuel : xs.length < (itemBytes (fun x => Utf8.encode (Decimal.json.text x)) true xs ++
      93 :: rest).length + 1 := by
    have hle := length_le_items items_double true xs
    rw [List.length_append]
    omega
  have hitems := items_tells items_double xs _ 0 hfuel rest
  have hclose : ∀ as : List Float, Tells (do closeList; Pure.pure as) [93] rest (some as) :=
    fun as n => ⟨n + 1, rfl⟩
  have hlist := hitems.bind [93] hclose
  rw [Option.bind_fun_some] at hlist
  refine hlist.step ?_
  intro n
  refine ⟨n + 1, ?_⟩
  rw [encode_reals, List.cons_append, List.append_assoc, list, bind_ok (start_cons (by decide) _ n),
    if_pos rfl, bind_ok (advance_cons _ _ n), bind_ok get_eq, List.append_assoc]
  rfl

/-! ### Records of one field -/

/-- Nothing is left to read once the only required field has been. -/
theorem fieldsByName_end {fields : List (Field Reader α)} {key : String}
    (hrequired : ∀ g ∈ fields, g.presence = .required → g.name = key) (fuel : Nat) (a : α)
    (rest : List UInt8) :
    Tells (fieldsByName fields (fuel + 1) [key] a) [] (125 :: rest) (some a) := by
  intro n
  have hmissing : missingField fields [key] = none :=
    missingField_none fun g hg hpresence => List.mem_singleton.mpr (hrequired g hg hpresence)
  refine ⟨n, ?_⟩
  show fieldsByName fields (fuel + 1) [key] a ⟨125 :: rest, n⟩ = _
  rw [fieldsByName, bind_ok (anotherKey_end _ rest n), if_neg Bool.false_ne_true, hmissing]
  rfl

/-- The field that is written is found by its key, and what its value gives is put in its place. -/
theorem fieldsByName_only (init : α) {fields : List (Field Reader α)} {key : String}
    {f : Field Reader α} (hfind : fields.find? (·.name == key) = some f)
    (hrequired : ∀ g ∈ fields, g.presence = .required → g.name = key) {bytes : List UInt8}
    {set? : Option (α → α)} (hread : ∀ rest, Tells f.read bytes rest set?) (fuel : Nat)
    (rest : List UInt8) :
    Tells (fieldsByName fields (fuel + 2) [] init) (Utf8.encode (quote key) ++ 58 :: bytes) (125 :: rest)
      (set?.bind fun set => some (set init)) := by
  have hend := fun set : α → α => fieldsByName_end hrequired fuel (set init) rest
  refine (((hread (125 :: rest)).inside (.field key)).bind [] hend).step ?_
  intro n
  obtain ⟨n₁, h₁⟩ := anotherKey_next true (key.toList.flatMap escaped ++ [34] ++
    58 :: (bytes ++ 125 :: rest)) n
  obtain ⟨n₂, h₂⟩ := quoted_takes key (58 :: (bytes ++ 125 :: rest)) (n₁ + 1)
  refine ⟨n₂ + 1, ?_⟩
  have hbytes : Utf8.encode (quote key) ++ 58 :: bytes ++ 125 :: rest =
      [] ++ 34 :: (key.toList.flatMap escaped ++ [34] ++ 58 :: (bytes ++ 125 :: rest)) := by
    simp [encode_quote]
  rw [hbytes, fieldsByName]
  refine (bind_ok h₁).trans ?_
  rw [if_pos rfl, bind_ok (advance_cons _ _ n₁), bind_ok h₂]
  simp only [hfind, List.contains_eq_mem, List.not_mem_nil, decide_false, Bool.false_eq_true,
    if_false]
  rw [bind_ok (colon_cons _ n₂), List.append_nil]

/-- A record that is written with its only required field is read if the field is. -/
theorem record_tells {name key : String} {init : α} {fields : List (Field Reader α)}
    {f : Field Reader α} (hfind : fields.find? (·.name == key) = some f)
    (hrequired : ∀ g ∈ fields, g.presence = .required → g.name = key) {v : Value}
    {set? : Option (α → α)} (hread : ∀ rest, Tells f.read (Utf8.encode v.render) rest set?)
    (rest : List UInt8) :
    Tells (record name init fields) (Utf8.encode (Value.object [(key, v)]).render) rest
      (set?.map fun set => set init) := by
  let inner := Utf8.encode (quote key) ++ 58 :: Utf8.encode v.render ++ [125]
  have hclose : ∀ a : α, Tells (do advance; Pure.pure a) [125] rest (some a) :=
    fun a n => ⟨n + 1, rfl⟩
  have hrecord := fun fuel =>
    (fieldsByName_only init hfind hrequired hread fuel rest).bind [125] hclose
  have hobject : Utf8.encode (Value.object [(key, v)]).render = 123 :: inner := by
    have h := encode_object [(⟨key, v, id⟩ : Member α)]
    simpa [Member.list, Member.bytes, Member.entry, inner] using h
  have hset : set?.map (fun set => set init) = (set?.bind fun set => some (set init)).bind some := by
    cases set? <;> rfl
  rw [hset]
  refine (hrecord ((inner ++ rest).length - 1)).step ?_
  intro n
  have hfuel : (inner ++ rest).length - 1 + 2 = (inner ++ rest).length + 1 := by
    simp only [inner, List.length_append, List.length_cons]
    omega
  refine ⟨n + 1, ?_⟩
  rw [hobject, hfuel, List.cons_append, record, bind_ok (start_cons (by decide) _ n), if_pos rfl,
    bind_ok (advance_cons _ _ n), bind_ok get_eq]

end Json.Reader

end EmbedServer
