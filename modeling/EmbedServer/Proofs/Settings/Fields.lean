/-
The fields of the settings, and what a tree says about each of them.

Settings come in three sections, and every section is a record whose fields are places of their own.  So
settings that are read from a tree are, field by field, what stands in the tree under the section's key
and the field's, or the default if nothing stands there; and there are no other settings of which this is
true.  A section that is a list has its fields by position.
-/
import EmbedServer.Proofs.Settings.Record

namespace EmbedServer.Settings

/-! ### The fields -/

def Server.slots : List (Slot Server) := [
  ⟨"host", _, FromNode.text, Server.host, fun host s => { s with host }⟩,
  ⟨"port", _, FromNode.natural .w16, Server.port, fun port s => { s with port }⟩,
  ⟨"drain_timeout_secs", _, FromNode.natural .w64, Server.drainTimeoutSecs,
    fun drainTimeoutSecs s => { s with drainTimeoutSecs }⟩,
  ⟨"grace_margin_ms", _, FromNode.natural .w64, Server.graceMarginMs,
    fun graceMarginMs s => { s with graceMarginMs }⟩,
  ⟨"max_body_size_mb", _, FromNode.natural .size, Server.maxBodySizeMb,
    fun maxBodySizeMb s => { s with maxBodySizeMb }⟩,
  ⟨"health_keys", _, FromNode.list FromNode.text, Server.healthKeys,
    fun healthKeys s => { s with healthKeys }⟩]

def Backend.slots : List (Slot Backend) := [
  ⟨"kind", _, FromNode.choice "BackendKind" BackendKind.choices, Backend.kind,
    fun kind b => { b with kind }⟩,
  ⟨"url", _, FromNode.text, Backend.url, fun url b => { b with url }⟩,
  ⟨"api_token", _, FromNode.optional FromNode.text, Backend.apiToken,
    fun apiToken b => { b with apiToken }⟩,
  ⟨"model", _, FromNode.optional FromNode.text, Backend.model, fun model b => { b with model }⟩,
  ⟨"dimension", _, FromNode.natural .size, Backend.dimension, fun dimension b => { b with dimension }⟩,
  ⟨"timeout_secs", _, FromNode.natural .w64, Backend.timeoutSecs,
    fun timeoutSecs b => { b with timeoutSecs }⟩,
  ⟨"max_retries", _, FromNode.natural .w32, Backend.maxRetries,
    fun maxRetries b => { b with maxRetries }⟩,
  ⟨"cache_enabled", _, FromNode.flag, Backend.cacheEnabled,
    fun cacheEnabled b => { b with cacheEnabled }⟩,
  ⟨"cache_size", _, FromNode.natural .size, Backend.cacheSize,
    fun cacheSize b => { b with cacheSize }⟩,
  ⟨"cache_ttl_secs", _, FromNode.natural .w64, Backend.cacheTtlSecs,
    fun cacheTtlSecs b => { b with cacheTtlSecs }⟩,
  ⟨"stub_vector", _, FromNode.list FromNode.double, Backend.stubVector,
    fun stubVector b => { b with stubVector }⟩,
  ⟨"stub_delay_ms", _, FromNode.natural .w64, Backend.stubDelayMs,
    fun stubDelayMs b => { b with stubDelayMs }⟩]

def Logging.slots : List (Slot Logging) := [
  ⟨"level", _, FromNode.text, Logging.level, fun level l => { l with level }⟩,
  ⟨"format", _, FromNode.text, Logging.format, fun format l => { l with format }⟩]

/-- The sections. -/
def sections : List (Slot Settings) := [
  ⟨"server", _, Server.shape, Settings.server, fun server s => { s with server }⟩,
  ⟨"backend", _, Backend.shape, Settings.backend, fun backend s => { s with backend }⟩,
  ⟨"logging", _, Logging.shape, Settings.logging, fun logging s => { s with logging }⟩]

theorem Server.shape_eq : (Server.shape : FromNode Server) =
    FromNode.record "ServerConfig" default (slots.map Slot.field) := rfl

theorem Backend.shape_eq : (Backend.shape : FromNode Backend) =
    FromNode.record "BackendConfig" default (slots.map Slot.field) := rfl

theorem Logging.shape_eq : (Logging.shape : FromNode Logging) =
    FromNode.record "LoggingConfig" default (slots.map Slot.field) := rfl

theorem shape_eq : (shape : FromNode Settings) =
    FromNode.record "Config" default (sections.map Slot.field) := rfl

theorem Server.separate_slots : Separate slots where
  names := by simp [slots]
  own := by simp [slots]
  other := by simp [slots]

theorem Backend.separate_slots : Separate slots where
  names := by simp [slots]
  own := by simp [slots]
  other := by simp [slots]

theorem Logging.separate_slots : Separate slots where
  names := by simp [slots]
  own := by simp [slots]
  other := by simp [slots]

theorem separate_sections : Separate sections where
  names := by simp [sections]
  own := by simp [sections]
  other := by simp [sections]

/-! ### Settings by what is given

Settings are characterised by what is given for their fields, and uniquely so.  What is loaded can then be
compared field by field, without looking at the order in which entries were applied.
-/

/-- The keys of all fields, each after that of its section. -/
def fieldNames : List (String × String) :=
  (Server.slots.map fun f => ("server", f.name)) ++ (Backend.slots.map fun f => ("backend", f.name)) ++
    Logging.slots.map fun f => ("logging", f.name)

/-- The names of the fields of a section, in order. -/
def namesIn (group : String) : List String := (fieldNames.filter (·.1 == group)).map Prod.snd

/-- What stands in a tree for a field of a section: under the section's key and the field's name, or at the
field's place if the section is a list. -/
def Node.at? (v : Node) (group name : String) : Option Node :=
  (v.under? group).bind fun content => (content.named (namesIn group)).under? name

/-- Settings that are, field by field, what is given under the section's key and the field's, or the
default if nothing is given. -/
structure Fieldwise (given : String → String → Option Node) (s : Settings) : Prop where
  server : ∀ f ∈ Server.slots, f.reading .default (given "server" f.name) = .ok (f.get s.server)
  backend : ∀ f ∈ Backend.slots, f.reading .default (given "backend" f.name) = .ok (f.get s.backend)
  logging : ∀ f ∈ Logging.slots, f.reading .default (given "logging" f.name) = .ok (f.get s.logging)

/-- There is at most one such record. -/
theorem Fieldwise.unique {given : String → String → Option Node} {s t : Settings}
    (hs : Fieldwise given s) (ht : Fieldwise given t) : s = t := by
  have hserver : ∀ f ∈ Server.slots, f.get s.server = f.get t.server := fun f hf =>
    Except.ok.inj ((hs.server f hf).symm.trans (ht.server f hf))
  have hbackend : ∀ f ∈ Backend.slots, f.get s.backend = f.get t.backend := fun f hf =>
    Except.ok.inj ((hs.backend f hf).symm.trans (ht.backend f hf))
  have hlogging : ∀ f ∈ Logging.slots, f.get s.logging = f.get t.logging := fun f hf =>
    Except.ok.inj ((hs.logging f hf).symm.trans (ht.logging f hf))
  obtain ⟨⟨⟩, ⟨⟩, ⟨⟩⟩ := s
  obtain ⟨⟨⟩, ⟨⟩, ⟨⟩⟩ := t
  simp only [Server.slots, List.forall_mem_cons] at hserver
  simp only [Backend.slots, List.forall_mem_cons] at hbackend
  simp only [Logging.slots, List.forall_mem_cons] at hlogging
  simp [hserver, hbackend, hlogging]

variable {α : Type}

/-- A section that is read from what is given is what is given field by field. -/
theorem reading_of_section {slots : List (Slot α)} (hsep : Separate slots) (name : String)
    (get : Settings → α) {group : String} {set : α → Settings → Settings} {given : Option Node}
    (hnames : namesIn group = slots.map Slot.name) (hkeys : ∀ v, given = some v → v.keys.Nodup) {x : α}
    (h : (Slot.mk group α (FromNode.record name (get default) (slots.map Slot.field)) get set).reading
      default given = .ok x) :
    ∀ f ∈ slots, f.reading (get default)
      (given.bind fun content => (content.named (namesIn group)).under? f.name) = .ok (f.get x) := by
  intro f hf
  rw [hnames]
  cases given with
  | none =>
      cases h
      rfl
  | some v => exact reading_of_record hsep hf (hkeys v rfl) h

/-- A table of sections, with no key twice in it nor in any section. -/
structure Node.Sectioned (root : Node) : Prop where
  isList : root.isList = false
  keys : root.keys.Nodup
  inner : ∀ group v, root.under? group = some v → v.keys.Nodup

/-- **Settings that are read from a tree are what the tree says, field by field.** -/
theorem fieldwise_of_read {root : Node} (hroot : root.Sectioned) {s : Settings}
    (h : (shape : FromNode Settings) root = .ok s) : Fieldwise root.at? s := by
  rw [shape_eq] at h
  have hread : ∀ f ∈ sections, f.reading default (root.under? f.name) = .ok (f.get s) := by
    intro f hf
    have hf' := reading_of_record separate_sections hf hroot.keys h
    rwa [Node.named_of_isList hroot.isList] at hf'
  rw [sections, List.forall_mem_cons, List.forall_mem_cons, List.forall_mem_singleton] at hread
  obtain ⟨hserver, hbackend, hlogging⟩ := hread
  exact ⟨reading_of_section Server.separate_slots "ServerConfig" Settings.server (by decide)
      (hroot.inner _) hserver,
    reading_of_section Backend.separate_slots "BackendConfig" Settings.backend (by decide)
      (hroot.inner _) hbackend,
    reading_of_section Logging.separate_slots "LoggingConfig" Settings.logging (by decide)
      (hroot.inner _) hlogging⟩

end EmbedServer.Settings
