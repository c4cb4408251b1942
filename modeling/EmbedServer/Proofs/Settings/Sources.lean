/-
What a source says of a field, if what it gives is of the field's own type and range.

A value of a document says what it is.  A variable's text is taken for what it looks like before the field
is known: a text says what it is only if it looks like nothing else, and a whole number beyond sixty-three
bits looks like a fraction, so that the field is set to what the nearest double comes to.
-/
import EmbedServer.Proofs.Decimal.Integer
import EmbedServer.Proofs.Settings.Kinds

namespace EmbedServer.Settings

/-! ### Whole numbers in an environment -/

/-- Whether a whole number fits sixty-four bits with its sign. -/
def isWord (n : Int) : Bool := -0x8000000000000000 ≤ n && n < 0x8000000000000000

/-- What a variable whose text spells a whole number is taken for. -/
def ofInteger (n : Int) : Scalar :=
  if isWord n then .whole n else .real (Decimal.nearestSigned (decide (n < 0)) n.natAbs)

theorem ofVariable_integer {text : String} {n : Int} (h : Decimal.readInt? text.toList = some n) :
    ofVariable text = ofInteger n := by
  obtain ⟨negative, ds, hspells, hn⟩ := Decimal.readInt?_eq_some.mp h
  have htrue : Text.lower text ≠ "true" := hspells.not_word (by decide)
  have hfalse : Text.lower text ≠ "false" := hspells.not_word (by decide)
  unfold ofVariable ofInteger
  simp only [htrue, hfalse, if_false, h, Option.filter]
  by_cases hword : isWord n = true
  · have hrange : (decide (-0x8000000000000000 ≤ n) && decide (n < 0x8000000000000000)) = true := hword
    simp only [hrange, hword, if_true]
  · have hrange : ¬(decide (-0x8000000000000000 ≤ n) && decide (n < 0x8000000000000000)) = true := hword
    simp only [hrange, hword, Bool.false_eq_true, if_false, hspells.readFloat?]
    -- Beyond the word the number is not zero, so it has the sign that was spelled.
    have hsize : Decimal.ofDigits ds ≠ 0 := by
      rintro hzero
      refine hword ?_
      rw [hn, hzero]
      cases negative <;> rfl
    have hsign : decide (n < 0) = negative ∧ n.natAbs = Decimal.ofDigits ds := by
      subst hn
      cases negative <;> simp [Decimal.signed, hsize, Nat.pos_iff_ne_zero]
    rw [hsign.1, hsign.2]

/-- What a field comes to that a variable sets to a number: beyond sixty-three bits the nearest double is
rounded. -/
def kept (n : Nat) : Nat :=
  if n < 0x8000000000000000 then n else (Decimal.nearest n 0).round.toUInt64.toNat

private theorem kept_of_lt {n : Nat} (h : n < 0x8000000000000000) : kept n = n := if_pos h

/-- A field that a variable sets to a number that fits it is set to what is kept of the number. -/
theorem natural_ofInteger {w : Schema.Width} {n : Nat} (h : n < w.count) (o : Option String) :
    FromNode.natural w (.scalar o (ofInteger n)) = .ok (kept n) := by
  unfold ofInteger kept
  by_cases hsmall : n < 0x8000000000000000
  · have hword : isWord n = true := by simp [isWord]; omega
    rw [if_pos hword, if_pos hsmall]
    simp [FromNode.natural, FromNode.unsigned, Nat.mod_eq_of_lt h]
  · have hword : isWord n = false := by simp [isWord]; omega
    have hcount : w.count = UInt64.size := by
      cases w with
      | w16 => exact absurd (Nat.lt_trans h (by decide)) hsmall
      | w32 => exact absurd (Nat.lt_trans h (by decide)) hsmall
      | w64 => rfl
      | size => rfl
    have hpositive : decide ((n : Int) < 0) = false := by simp
    rw [if_neg (by simp [hword]), if_neg hsmall, hpositive]
    show Except.ok (_ % w.count) = _
    rw [hcount, Nat.mod_eq_of_lt (UInt64.toNat_lt _)]
    rfl

/-! ### What a document says -/

/-- The text that a document's value is. -/
def text? : Toml.Value → Option String
  | .text s => some s
  | _ => none

/-- The fraction that a document's value is. -/
def real? : Toml.Value → Option Float
  | .real x => some x
  | _ => none

/-- What a document's value says of a field of a kind, if it is of the field's own type and range. -/
def Kind.ofToml? : Kind → Toml.Value → Option Datum
  | .text, .text s | .maybeText, .text s => some (.text s)
  | .natural w, .whole n => if w.fits n then some (.natural n.toNat) else none
  | .flag, .flag b => some (.flag b)
  | .backend, .text s => (BackendKind.choices.lookup s).map .backend
  | .texts, .list vs _ => (vs.mapM text?).map .texts
  | .reals, .list vs _ => (vs.mapM real?).map .reals
  | _, _ => none

/-- A list is read if each of its items is. -/
theorem items_ok {β : Type} {r : FromNode β} {g : Toml.Value → Option β} {o : Option String}
    (hg : ∀ v b, g v = some b → r (ofToml o v) = .ok b) {vs : List Toml.Value} {bs : List β}
    (h : vs.mapM g = some bs) (i : Nat) : FromNode.items r i (ofTomlItems o vs) = .ok bs := by
  induction vs generalizing bs i with
  | nil =>
      cases h
      rfl
  | cons v rest ih =>
      rw [List.mapM_cons] at h
      obtain ⟨b, hb, h⟩ := Option.bind_eq_some_iff.mp h
      obtain ⟨more, hmore, h⟩ := Option.bind_eq_some_iff.mp h
      cases h
      simp only [ofTomlItems, FromNode.items, hg v b hb, ih hmore]

private theorem toNat_lt_count {w : Schema.Width} {n : Int} (h : w.fits n = true) : n.toNat < w.count := by
  simp only [Schema.Width.fits, Bool.and_eq_true, decide_eq_true_eq] at h
  omega

private theorem natural_whole {w : Schema.Width} {n : Int} (h : w.fits n = true) (o : Option String) :
    FromNode.natural w (.scalar o (.whole n)) = .ok n.toNat := by
  have hpositive : 0 ≤ n := by
    simp only [Schema.Width.fits, Bool.and_eq_true, decide_eq_true_eq] at h
    exact h.1
  simp only [FromNode.natural, FromNode.unsigned, if_pos hpositive, Nat.mod_eq_of_lt (toNat_lt_count h)]

private theorem choice_text {s : String} {b : BackendKind} (h : BackendKind.choices.lookup s = some b)
    (o : Option String) :
    FromNode.choice "BackendKind" BackendKind.choices (.scalar o (.text s)) = .ok b := by
  simp only [FromNode.choice, FromNode.choice.pick, h]

/-- **A field is read as what the document's value says of it.** -/
theorem read_ofToml {k : Kind} {v : Toml.Value} {d : Datum} (h : k.ofToml? v = some d)
    (o : Option String) : k.read (ofToml o v) = .ok d := by
  unfold Kind.ofToml? at h
  split at h
  case h_1 => exact congrArg Except.ok (Option.some.inj h)
  case h_2 => exact congrArg Except.ok (Option.some.inj h)
  case h_3 w n =>
    split at h
    case isFalse => cases h
    case isTrue hfits =>
      rw [Kind.read, map_read, ofToml, natural_whole hfits, ← Option.some.inj h]
      rfl
  case h_4 => exact congrArg Except.ok (Option.some.inj h)
  case h_5 =>
    obtain ⟨b, hb, rfl⟩ := Option.map_eq_some_iff.mp h
    rw [Kind.read, map_read, ofToml, choice_text hb]
    rfl
  case h_6 =>
    obtain ⟨ss, hss, rfl⟩ := Option.map_eq_some_iff.mp h
    have hitems := items_ok (r := FromNode.text) (o := o) (fun v s hv => by
      cases v <;> cases hv
      rfl) hss 0
    rw [Kind.read, map_read, ofToml, FromNode.list, hitems]
    rfl
  case h_7 =>
    obtain ⟨xs, hxs, rfl⟩ := Option.map_eq_some_iff.mp h
    have hitems := items_ok (r := FromNode.double) (o := o) (fun v x hv => by
      cases v <;> cases hv
      rfl) hxs 0
    rw [Kind.read, map_read, ofToml, FromNode.list, hitems]
    rfl
  case h_8 => cases h

/-! ### What a variable says -/

/-- The text that is taken for nothing else. -/
def Scalar.text? : Scalar → Option String
  | .text s => some s
  | _ => none

def Scalar.flag? : Scalar → Option Bool
  | .flag b => some b
  | _ => none

theorem Scalar.text?_eq_some {x : Scalar} {s : String} : x.text? = some s ↔ x = .text s := by
  cases x <;> simp [text?]

theorem Scalar.flag?_eq_some {x : Scalar} {b : Bool} : x.flag? = some b ↔ x = .flag b := by
  cases x <;> simp [flag?]

/-- What a variable's text says of a field of a kind, if it is of the field's own type and range. -/
def Kind.ofVariable? : Kind → String → Option Datum
  | .text, s | .maybeText, s => (ofVariable s).text?.map .text
  | .natural w, s => (Decimal.readInt? s.toList).bind fun n =>
    if w.fits n then some (.natural n.toNat) else none
  | .flag, s => (ofVariable s).flag?.map .flag
  | .backend, s => (BackendKind.choices.lookup s).map .backend
  | .texts, _ | .reals, _ => none

theorem Kind.ofVariable?_natural {w : Schema.Width} {s : String} {n : Nat}
    (hread : Decimal.readInt? s.toList = some (n : Int)) (hfits : w.fits (n : Int) = true) :
    (Kind.natural w).ofVariable? s = some (.natural n) := by
  simp only [Kind.ofVariable?, hread, Option.bind_some, hfits, if_true, Int.toNat_natCast]

/-- What a field comes to that a variable sets. -/
def Datum.kept : Datum → Datum
  | .natural n => .natural (Settings.kept n)
  | d => d

/-- Up to sixty-three bits that is what the variable says. -/
theorem Datum.kept_eq {d : Datum} (h : ∀ n, d = .natural n → n < 0x8000000000000000) : d.kept = d := by
  cases d with
  | natural n => exact congrArg Datum.natural (kept_of_lt (h n rfl))
  | _ => rfl

private theorem ofVariable_name {s : String} {b : BackendKind} (h : BackendKind.choices.lookup s = some b) :
    ofVariable s = .text s := by
  have hmem : s ∈ BackendKind.choices.map Prod.fst := by
    refine Decidable.byContradiction fun hnot => ?_
    rw [lookup_eq_none hnot] at h
    cases h
  have hall : ∀ s ∈ BackendKind.choices.map Prod.fst, (ofVariable s).text? = some s := by
    decide +kernel
  exact Scalar.text?_eq_some.mp (hall s hmem)

/-- **A field is read as what is kept of what a variable says of it.** -/
theorem read_ofVariable {k : Kind} {s : String} {d : Datum} (h : k.ofVariable? s = some d)
    (o : Option String) : k.read (.scalar o (ofVariable s)) = .ok d.kept := by
  cases k with
  | text =>
      obtain ⟨t, ht, rfl⟩ := Option.map_eq_some_iff.mp h
      rw [Scalar.text?_eq_some.mp ht]
      rfl
  | maybeText =>
      obtain ⟨t, ht, rfl⟩ := Option.map_eq_some_iff.mp h
      rw [Scalar.text?_eq_some.mp ht]
      rfl
  | natural w =>
      obtain ⟨n, hn, h⟩ := Option.bind_eq_some_iff.mp h
      split at h
      case isFalse => cases h
      case isTrue hfits =>
        have hpositive : n = (n.toNat : Int) := by
          simp only [Schema.Width.fits, Bool.and_eq_true, decide_eq_true_eq] at hfits
          omega
        have hread := natural_ofInteger (toNat_lt_count hfits) o
        rw [← hpositive, ← ofVariable_integer hn] at hread
        rw [Kind.read, map_read, hread, ← Option.some.inj h]
        rfl
  | flag =>
      obtain ⟨b, hb, rfl⟩ := Option.map_eq_some_iff.mp h
      rw [Scalar.flag?_eq_some.mp hb]
      rfl
  | backend =>
      obtain ⟨b, hb, rfl⟩ := Option.map_eq_some_iff.mp h
      rw [Kind.read, map_read, ofVariable_name hb, choice_text hb]
      rfl
  | texts => cases h
  | reals => cases h

end EmbedServer.Settings
