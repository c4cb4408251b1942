/-
What the fields of the settings hold.

A field is of one of a few kinds, and a kind has one reader.  The catalogue lists the fields with their
kinds; what is read for the slots of a section is what is read for the fields of the catalogue, so that
settings can be looked at field by field without their types.

Settings can be read from a tree of tables as soon as every field of the catalogue can be read from what
stands in the tree for it.
-/
import EmbedServer.Proofs.Settings.Layering

namespace EmbedServer.Settings

/-- What a field can hold. -/
inductive Datum where
  | absent
  | text (s : String)
  | natural (n : Nat)
  | flag (b : Bool)
  | backend (k : BackendKind)
  | texts (ss : List String)
  | reals (xs : List Float)

/-- The kinds of fields. -/
inductive Kind where
  | text
  /-- A text that may be left out. -/
  | maybeText
  | natural (w : Schema.Width)
  | flag
  | backend
  | texts
  | reals
  deriving DecidableEq

/-- The text, if there is one. -/
def Datum.ofOption : Option String → Datum
  | some s => .text s
  | none => .absent

/-- How a field of a kind is read. -/
def Kind.read : Kind → FromNode Datum
  | .text => Datum.text <$> FromNode.text
  | .maybeText => Datum.ofOption <$> FromNode.optional FromNode.text
  | .natural w => Datum.natural <$> FromNode.natural w
  | .flag => Datum.flag <$> FromNode.flag
  | .backend => Datum.backend <$> FromNode.choice "BackendKind" BackendKind.choices
  | .texts => Datum.texts <$> FromNode.list FromNode.text
  | .reals => Datum.reals <$> FromNode.list FromNode.double

/-- A field of the settings, in its section. -/
structure Setting where
  group : String
  name : String
  kind : Kind
  get : Settings → Datum

def Server.catalogue : List Setting := [
  ⟨"server", "host", .text, fun s => .text s.server.host⟩,
  ⟨"server", "port", .natural .w16, fun s => .natural s.server.port⟩,
  ⟨"server", "drain_timeout_secs", .natural .w64, fun s => .natural s.server.drainTimeoutSecs⟩,
  ⟨"server", "grace_margin_ms", .natural .w64, fun s => .natural s.server.graceMarginMs⟩,
  ⟨"server", "max_body_size_mb", .natural .size, fun s => .natural s.server.maxBodySizeMb⟩,
  ⟨"server", "health_keys", .texts, fun s => .texts s.server.healthKeys⟩]

def Backend.catalogue : List Setting := [
  ⟨"backend", "kind", .backend, fun s => .backend s.backend.kind⟩,
  ⟨"backend", "url", .text, fun s => .text s.backend.url⟩,
  ⟨"backend", "api_token", .maybeText, fun s => .ofOption s.backend.apiToken⟩,
  ⟨"backend", "model", .maybeText, fun s => .ofOption s.backend.model⟩,
  ⟨"backend", "dimension", .natural .size, fun s => .natural s.backend.dimension⟩,
  ⟨"backend", "timeout_secs", .natural .w64, fun s => .natural s.backend.timeoutSecs⟩,
  ⟨"backend", "max_retries", .natural .w32, fun s => .natural s.backend.maxRetries⟩,
  ⟨"backend", "cache_enabled", .flag, fun s => .flag s.backend.cacheEnabled⟩,
  ⟨"backend", "cache_size", .natural .size, fun s => .natural s.backend.cacheSize⟩,
  ⟨"backend", "cache_ttl_secs", .natural .w64, fun s => .natural s.backend.cacheTtlSecs⟩,
  ⟨"backend", "stub_vector", .reals, fun s => .reals s.backend.stubVector⟩,
  ⟨"backend", "stub_delay_ms", .natural .w64, fun s => .natural s.backend.stubDelayMs⟩]

def Logging.catalogue : List Setting := [
  ⟨"logging", "level", .text, fun s => .text s.logging.level⟩,
  ⟨"logging", "format", .text, fun s => .text s.logging.format⟩]

/-- All fields of the settings. -/
def catalogue : List Setting := Server.catalogue ++ Backend.catalogue ++ Logging.catalogue

def host : Setting := ⟨"server", "host", .text, fun s => .text s.server.host⟩

def port : Setting := ⟨"server", "port", .natural .w16, fun s => .natural s.server.port⟩

def apiToken : Setting := ⟨"backend", "api_token", .maybeText, fun s => .ofOption s.backend.apiToken⟩

def stubDelay : Setting :=
  ⟨"backend", "stub_delay_ms", .natural .w64, fun s => .natural s.backend.stubDelayMs⟩

theorem host_mem : host ∈ catalogue :=
  List.mem_append_left _ (List.mem_append_left _ (by simp [Server.catalogue, host]))

theorem port_mem : port ∈ catalogue :=
  List.mem_append_left _ (List.mem_append_left _ (by simp [Server.catalogue, port]))

theorem apiToken_mem : apiToken ∈ catalogue :=
  List.mem_append_left _ (List.mem_append_right _ (by simp [Backend.catalogue, apiToken]))

theorem stubDelay_mem : stubDelay ∈ catalogue :=
  List.mem_append_left _ (List.mem_append_right _ (by simp [Backend.catalogue, stubDelay]))

namespace Setting

/-- The key of the field. -/
def key (f : Setting) : String := fieldKey f.group f.name

/-- What the field is by what is given for it; what it is by default if nothing is given. -/
def reading (f : Setting) : Option Node → Except LoadError Datum
  | some v => f.kind.read v
  | none => .ok (f.get default)

end Setting

theorem mem_fieldNames {f : Setting} (hf : f ∈ catalogue) : (f.group, f.name) ∈ fieldNames := by
  have hall : catalogue.map (fun f => (f.group, f.name)) = fieldNames := rfl
  rw [← hall]
  exact List.mem_map_of_mem hf

/-! ### Fields and slots

A slot knows the type of its field, and the catalogue does not.  The two lists are compared once, section
by section, and later statements are about the catalogue only.
-/

variable {α : Type} {group : String} {part : Settings → α}

/-- A field of the catalogue that shows what a slot of a section holds. -/
structure Setting.Shows (group : String) (part : Settings → α) (f : Setting) (slot : Slot α) : Prop where
  group : f.group = group
  name : f.name = slot.name
  datum : ∃ datum : slot.Value → Datum, f.kind.read = datum <$> slot.read ∧
    ∀ s, f.get s = datum (slot.get (part s))

theorem Server.shown : List.Forall₂ (Setting.Shows "server" Settings.server) catalogue slots := by
  repeat refine .cons ⟨rfl, rfl, _, rfl, fun _ => rfl⟩ ?_
  exact .nil

theorem Backend.shown : List.Forall₂ (Setting.Shows "backend" Settings.backend) catalogue slots := by
  repeat refine .cons ⟨rfl, rfl, _, rfl, fun _ => rfl⟩ ?_
  exact .nil

theorem Logging.shown : List.Forall₂ (Setting.Shows "logging" Settings.logging) catalogue slots := by
  repeat refine .cons ⟨rfl, rfl, _, rfl, fun _ => rfl⟩ ?_
  exact .nil

theorem map_read {β γ : Type} (g : β → γ) (r : FromNode β) (v : Node) :
    (g <$> r) v = (r v).map g := by
  simp only [Functor.map]
  cases r v <;> rfl

/-- What a field is by what is given for it is what its slot is, shown. -/
theorem Setting.Shows.reading {f : Setting} {slot : Slot α} (h : f.Shows group part slot) :
    ∃ datum : slot.Value → Datum, (∀ given, f.reading given =
      (slot.reading (part default) given).map datum) ∧ ∀ s, f.get s = datum (slot.get (part s)) := by
  obtain ⟨datum, hread, hget⟩ := h.datum
  refine ⟨datum, ?_, hget⟩
  rintro (_ | v)
  · exact congrArg Except.ok (hget default)
  · show f.kind.read v = _
    rw [hread, map_read]
    rfl

variable {fields : List Setting} {slots : List (Slot α)} {given : String → String → Option Node}

/-- Fields of which the slots are read are read. -/
theorem reading_of_shown (h : List.Forall₂ (Setting.Shows group part) fields slots) {s : Settings}
    (hread : ∀ slot ∈ slots,
      slot.reading (part default) (given group slot.name) = .ok (slot.get (part s))) :
    ∀ f ∈ fields, f.reading (given f.group f.name) = .ok (f.get s) := by
  induction h with
  | nil => exact fun f hf => absurd hf List.not_mem_nil
  | cons hshows _ ih =>
      rw [List.forall_mem_cons] at hread ⊢
      refine ⟨?_, ih hread.2⟩
      obtain ⟨datum, hreading, hget⟩ := hshows.reading
      rw [hshows.group, hshows.name, hreading, hread.1, hget]
      rfl

/-- Slots whose fields can be read can be read. -/
theorem slots_of_shown (h : List.Forall₂ (Setting.Shows group part) fields slots)
    (hread : ∀ f ∈ fields, ∃ d, f.reading (given f.group f.name) = .ok d) :
    ∀ slot ∈ slots, ∃ x, slot.reading (part default) (given group slot.name) = .ok x := by
  induction h with
  | nil => exact fun slot hslot => absurd hslot List.not_mem_nil
  | cons hshows _ ih =>
      rw [List.forall_mem_cons] at hread ⊢
      refine ⟨?_, ih hread.2⟩
      obtain ⟨datum, hreading, -⟩ := hshows.reading
      obtain ⟨d, hd⟩ := hread.1
      rw [hshows.group, hshows.name, hreading] at hd
      cases hslot : Slot.reading _ (part default) _ with
      | error e =>
          rw [hslot] at hd
          cases hd
      | ok x => exact ⟨x, rfl⟩

/-- **Settings that are what is given are what is given for every field of the catalogue.** -/
theorem Fieldwise.reading {s : Settings} (h : Fieldwise given s) :
    ∀ f ∈ catalogue, f.reading (given f.group f.name) = .ok (f.get s) := by
  intro f hf
  rcases List.mem_append.mp hf with hf | hf
  · rcases List.mem_append.mp hf with hf | hf
    · exact reading_of_shown Server.shown h.server f hf
    · exact reading_of_shown Backend.shown h.backend f hf
  · exact reading_of_shown Logging.shown h.logging f hf

/-! ### Settings that can be read -/

/-- Whether a value is a table. -/
def Node.isTable : Node → Bool
  | .table .. => true
  | .scalar .. | .list .. => false

theorem Node.isList_of_isTable {v : Node} (h : v.isTable = true) : v.isList = false := by
  cases v with
  | table o entries => rfl
  | scalar o x => cases h
  | list o items => cases h

/-- Whether a section is left out or is a table. -/
def Node.tabled (root : Node) (group : String) : Bool := (root.under? group).all isTable

theorem Node.byName_of_tabled {root : Node} {group : String} (h : root.tabled group = true) :
    root.byName group = true := by
  unfold tabled at h
  unfold byName
  cases hsection : root.under? group with
  | none => rfl
  | some v =>
      rw [hsection] at h
      simpa using isList_of_isTable (by simpa using h)

/-- The entries of a table can be applied if those that are fields can be read. -/
theorem applyEntries_ok {slots : List (Slot α)} {entries : List (String × Node)}
    (hkeys : (entries.map Prod.fst).Nodup)
    (h : ∀ slot ∈ slots, ∀ v, entries.lookup slot.name = some v → ∃ x, slot.read v = .ok x) (a : α) :
    ∃ r, FromNode.applyEntries (slots.map Slot.field) entries a = .ok r := by
  induction entries generalizing a with
  | nil => exact ⟨a, rfl⟩
  | cons e rest ih =>
      obtain ⟨key, v⟩ := e
      rw [List.map_cons, List.nodup_cons] at hkeys
      have hrest := ih hkeys.2 fun slot hslot w hw => by
        refine h slot hslot w ?_
        rwa [lookup_cons_ne]
        rintro rfl
        rw [lookup_eq_none hkeys.1] at hw
        cases hw
      simp only [FromNode.applyEntries, find?_field]
      cases hfind : slots.find? (·.name == key) with
      | none => exact hrest a
      | some slot =>
          have hname : slot.name = key := by simpa using List.find?_some hfind
          obtain ⟨x, hx⟩ := h slot (List.mem_of_find?_eq_some hfind) v
            (by rw [hname, List.lookup_cons_self])
          have hread : slot.field.read v = .ok (slot.set x) := by
            show (slot.set <$> slot.read) v = _
            rw [map_read, hx]
            rfl
          simp only [Option.map_some, hread]
          exact hrest _

/-- A record is read from a table if its slots can be read from what stands there for them. -/
theorem record_ok {slots : List (Slot α)} {v : Node} (htable : v.isTable = true)
    (hkeys : v.keys.Nodup) {start : α}
    (h : ∀ slot ∈ slots, ∃ x, slot.reading start (v.under? slot.name) = .ok x) (name : String) :
    ∃ r, FromNode.record name start (slots.map Slot.field) v = .ok r := by
  cases v with
  | scalar o x => cases htable
  | list o items => cases htable
  | table o entries =>
      have hentries : ∀ slot ∈ slots, ∀ w, entries.lookup slot.name = some w →
          ∃ x, slot.read w = .ok x := by
        intro slot hslot w hw
        have hslot := h slot hslot
        rwa [show Node.under? slot.name (.table o entries) = some w from hw] at hslot
      obtain ⟨r, hr⟩ := applyEntries_ok hkeys hentries start
      have hfree : Schema.missingField (slots.map Slot.field) (entries.map Prod.fst) = none := by
        unfold Schema.missingField
        rw [Option.map_eq_none_iff, List.find?_eq_none]
        intro f hf
        obtain ⟨slot, -, rfl⟩ := List.mem_map.mp hf
        simp [Slot.field, Schema.Field.of]
      exact ⟨r, by simp only [FromNode.record, hr, hfree]⟩

/-- A section can be read if it is left out or is a table of which the fields can be read. -/
theorem section_ok {root : Node} {name : String} {get : Settings → α} {set : α → Settings → Settings}
    (hshown : List.Forall₂ (Setting.Shows group get) fields slots) (htabled : root.tabled group = true)
    (hkeys : ∀ v, root.under? group = some v → v.keys.Nodup)
    (h : ∀ f ∈ fields, ∃ d, f.reading (root.at? f.group f.name) = .ok d) :
    ∃ x, (Slot.mk group α (FromNode.record name (get default) (slots.map Slot.field)) get set).reading
      default (root.under? group) = .ok x := by
  have hslots := slots_of_shown hshown h
  simp only [at?_of_byName (Node.byName_of_tabled htabled)] at hslots
  unfold Node.tabled at htabled
  cases hsection : root.under? group with
  | none => exact ⟨_, rfl⟩
  | some v =>
      rw [hsection] at hslots htabled
      exact record_ok (by simpa using htabled) (hkeys v hsection) hslots name

/-- **Settings can be read from a tree of tables** if every field can be read from what stands there for
it. -/
theorem shape_ok {root : Node} (htable : root.isTable = true) (hroot : root.Sectioned)
    (htabled : ∀ f ∈ catalogue, root.tabled f.group = true)
    (h : ∀ f ∈ catalogue, ∃ d, f.reading (root.at? f.group f.name) = .ok d) :
    ∃ s, (shape : FromNode Settings) root = .ok s := by
  rw [shape_eq]
  refine record_ok htable hroot.keys ?_ "Config"
  rw [sections, List.forall_mem_cons, List.forall_mem_cons, List.forall_mem_singleton]
  simp only [catalogue, List.forall_mem_append] at h htabled
  obtain ⟨⟨hserver, hbackend⟩, hlogging⟩ := h
  exact ⟨section_ok Server.shown (htabled.1.1 _ List.mem_cons_self) (hroot.inner _) hserver,
    section_ok Backend.shown (htabled.1.2 _ List.mem_cons_self) (hroot.inner _) hbackend,
    section_ok Logging.shown (htabled.2 _ List.mem_cons_self) (hroot.inner _) hlogging⟩

end EmbedServer.Settings
