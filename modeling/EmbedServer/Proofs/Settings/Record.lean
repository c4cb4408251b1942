/-
Records are read field by field.

A record with defaults is read from a table by changing the defaults, one entry after the other.  If the
fields are separate places of the record and no key stands twice in the table, the order makes no
difference: every field is what its own entry says, or its default if there is none.

A record may be read from a list as well; that is the table of the list's items under the names of the
fields, in order.
-/
import EmbedServer.Settings.Load
import Mathlib.Data.List.Nodup

namespace EmbedServer.Settings

open Schema

/-! ### Keys -/

namespace Node

/-- The keys of a table. -/
def keys : Node → List String
  | .table _ entries => entries.map Prod.fst
  | .scalar .. | .list .. => []

/-- What stands under a key of a table. -/
def under? (key : String) : Node → Option Node
  | .table _ entries => entries.lookup key
  | .scalar .. | .list .. => none

/-- Whether a value is a list. -/
def isList : Node → Bool
  | .list .. => true
  | .scalar .. | .table .. => false

/-- A list as the table of its items under these names, in order. -/
def named (names : List String) : Node → Node
  | .list o items => .table o (names.zip items)
  | .scalar o x => .scalar o x
  | .table o entries => .table o entries

theorem under?_eq (v : Node) (key : String) : v.under? key = (entriesOf v).lookup key := by
  cases v <;> rfl

theorem keys_eq (v : Node) : v.keys = (entriesOf v).map Prod.fst := by
  cases v <;> rfl

theorem named_of_isList {v : Node} (h : v.isList = false) (names : List String) : v.named names = v := by
  cases v with
  | list o items => cases h
  | scalar o x => rfl
  | table o entries => rfl

end Node

private theorem mem_of_mem_zip {key : String} {names : List String} {items : List Node}
    (h : key ∈ (names.zip items).map Prod.fst) : key ∈ names := by
  obtain ⟨p, hp, rfl⟩ := List.mem_map.mp h
  exact (List.of_mem_zip hp).1

/-- Names of which none stands twice are keys of which none does. -/
theorem nodup_zip {names : List String} (h : names.Nodup) (items : List Node) :
    ((names.zip items).map Prod.fst).Nodup := by
  induction names generalizing items with
  | nil => exact List.nodup_nil
  | cons name rest ih =>
      cases items with
      | nil => exact List.nodup_nil
      | cons v more =>
          rw [List.nodup_cons] at h
          rw [List.zip_cons_cons, List.map_cons, List.nodup_cons]
          exact ⟨fun hmem => h.1 (mem_of_mem_zip hmem), ih h.2 more⟩

theorem lookup_cons_ne {β : Type} {key other : String} (h : key ≠ other) (b : β)
    (rest : List (String × β)) : ((key, b) :: rest).lookup other = rest.lookup other := by
  have hne : (other == key) = false := by simpa using Ne.symm h
  rw [List.lookup_cons, hne]

theorem lookup_eq_none {β : Type} {key : String} {entries : List (String × β)}
    (h : key ∉ entries.map Prod.fst) : entries.lookup key = none := by
  refine List.lookup_eq_none_iff.mpr fun p hp => bne_iff_ne.mpr ?_
  rintro rfl
  exact h (List.mem_map_of_mem hp)

/-! ### Slots -/

/-- A place in a record: what it is called, how it is read, and how it is got and set. -/
structure Slot (α : Type) where
  name : String
  Value : Type
  read : FromNode Value
  get : α → Value
  set : Value → α → α

variable {α : Type}

namespace Slot

/-- The slot as a field that may be left out. -/
def field (s : Slot α) : Field FromNode α := .of s.name .free s.read s.set

/-- What the slot is by what is given for it; what it is in `start` if nothing is given. -/
def reading (s : Slot α) (start : α) : Option Node → Except LoadError s.Value
  | some v => s.read v
  | none => .ok (s.get start)

private theorem field_read {s : Slot α} {v : Node} {set : α → α} (h : s.field.read v = .ok set) :
    ∃ x, s.read v = .ok x ∧ set = s.set x := by
  simp only [field, Field.of, Functor.map] at h
  cases hread : s.read v with
  | error e =>
      rw [hread] at h
      cases h
  | ok x =>
      rw [hread] at h
      exact ⟨x, rfl, (Except.ok.inj h).symm⟩

end Slot

/-- Slots that are places of their own. -/
structure Separate (slots : List (Slot α)) : Prop where
  names : (slots.map Slot.name).Nodup
  own : ∀ s ∈ slots, ∀ x a, s.get (s.set x a) = x
  other : ∀ s ∈ slots, ∀ t ∈ slots, t.name ≠ s.name → ∀ x a, s.get (t.set x a) = s.get a

theorem find?_field (slots : List (Slot α)) (key : String) :
    (slots.map Slot.field).find? (·.name == key) = (slots.find? (·.name == key)).map Slot.field := by
  rw [List.find?_map]
  rfl

/-- Slots are told apart by their names. -/
theorem Separate.find?_name {slots : List (Slot α)} (h : Separate slots) {s : Slot α} (hs : s ∈ slots) :
    slots.find? (·.name == s.name) = some s := by
  cases hfind : slots.find? (·.name == s.name) with
  | none => exact absurd (beq_self_eq_true s.name) (List.find?_eq_none.mp hfind s hs)
  | some t =>
      have hname : t.name = s.name := by simpa using List.find?_some hfind
      rw [List.inj_on_of_nodup_map h.names (List.mem_of_find?_eq_some hfind) hs hname]

/-- **Every slot is what its own entry says**, or what it was if there is no such entry. -/
theorem reading_of_applyEntries {slots : List (Slot α)} (hsep : Separate slots) {s : Slot α}
    (hs : s ∈ slots) {entries : List (String × Node)} (hkeys : (entries.map Prod.fst).Nodup) {a r : α}
    (h : FromNode.applyEntries (slots.map Slot.field) entries a = .ok r) :
    s.reading a (entries.lookup s.name) = .ok (s.get r) := by
  induction entries generalizing a with
  | nil =>
      cases h
      rfl
  | cons e rest ih =>
      obtain ⟨key, v⟩ := e
      rw [List.map_cons, List.nodup_cons] at hkeys
      simp only [FromNode.applyEntries, find?_field] at h
      by_cases hkey : key = s.name
      · -- The slot's own entry: no later one changes it again.
        subst hkey
        rw [hsep.find?_name hs] at h
        simp only [Option.map_some] at h
        cases hread : s.field.read v with
        | error e =>
            rw [hread] at h
            cases h
        | ok set =>
            rw [hread] at h
            obtain ⟨x, hx, rfl⟩ := Slot.field_read hread
            have hrest := ih hkeys.2 h
            rw [lookup_eq_none hkeys.1] at hrest
            rw [List.lookup_cons_self, ← Except.ok.inj hrest, hsep.own s hs]
            exact hx
      · rw [lookup_cons_ne hkey]
        cases hfind : slots.find? (·.name == key) with
        | none =>
            rw [hfind] at h
            exact ih hkeys.2 h
        | some t =>
            have hname : t.name = key := by simpa using List.find?_some hfind
            rw [hfind] at h
            simp only [Option.map_some] at h
            cases hread : t.field.read v with
            | error e =>
                rw [hread] at h
                cases h
            | ok set =>
                rw [hread] at h
                obtain ⟨x, -, rfl⟩ := Slot.field_read hread
                rw [← ih hkeys.2 h]
                cases rest.lookup s.name with
                | some w => rfl
                | none =>
                    have hkeep :=
                      hsep.other s hs t (List.mem_of_find?_eq_some hfind) (hname ▸ hkey) x a
                    exact congrArg Except.ok hkeep.symm

/-- What is read by position is what is read from the table of the items under the fields' names. -/
theorem applyEntries_zip {all : List (Slot α)} (hsep : Separate all) {slots : List (Slot α)}
    (hsub : ∀ t ∈ slots, t ∈ all) {expected : String} {items : List Node} {index : Nat} {a r : α}
    (h : FromNode.applyItems expected (slots.map Slot.field) items index a = .ok r) :
    FromNode.applyEntries (all.map Slot.field) ((slots.map Slot.name).zip items) a = .ok r := by
  induction slots generalizing items index a with
  | nil => exact h
  | cons t more ih =>
      have hmore : ∀ s ∈ more, s ∈ all := fun s hs => hsub s (by simp [hs])
      cases items with
      | nil =>
          rw [List.zip_nil_right]
          simpa using ih hmore h
      | cons v rest =>
          simp only [List.map_cons, FromNode.applyItems] at h
          simp only [List.map_cons, List.zip_cons_cons, FromNode.applyEntries, find?_field,
            hsep.find?_name (hsub t (by simp)), Option.map_some]
          cases hread : t.field.read v with
          | error e =>
              rw [hread] at h
              cases h
          | ok set =>
              rw [hread] at h
              exact ih hmore h

/-- **A record is read slot by slot**, from a table or from a list. -/
theorem reading_of_record {slots : List (Slot α)} (hsep : Separate slots) {s : Slot α} (hs : s ∈ slots)
    {name : String} {start r : α} {v : Node} (hkeys : v.keys.Nodup)
    (h : FromNode.record name start (slots.map Slot.field) v = .ok r) :
    s.reading start ((v.named (slots.map Slot.name)).under? s.name) = .ok (s.get r) := by
  cases v with
  | scalar o x => cases h
  | list o items =>
      exact reading_of_applyEntries hsep hs (nodup_zip hsep.names items)
        (applyEntries_zip hsep (fun _ ht => ht) h)
  | table o entries =>
      simp only [FromNode.record] at h
      cases happly : FromNode.applyEntries (slots.map Slot.field) entries start with
      | error e =>
          rw [happly] at h
          cases h
      | ok a =>
          rw [happly] at h
          cases hmissing : missingField (slots.map Slot.field) (entries.map Prod.fst) with
          | some field =>
              simp only [hmissing] at h
              cases h
          | none =>
              simp only [hmissing] at h
              rw [← Except.ok.inj h]
              exact reading_of_applyEntries hsep hs hkeys happly

end EmbedServer.Settings
