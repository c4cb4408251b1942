/-
Settings are layered field by field.

A document and an environment over it, each of which sets some fields to values of their own type and
range, are always loaded, and every field is what the environment says of it, or else what the document
says, or else what it is by default.  So it makes no difference to a field what the layers say of the
others, and a section that nobody mentions is what it is by default, as is one that is mentioned and left
empty.

A number of an environment is loaded as it is up to sixty-three bits; beyond them it goes by the nearest
double (`kept`), and two numbers can be loaded as one (`delays_confused`).
-/
import EmbedServer.Proofs.Settings.Documents

namespace EmbedServer.Settings

/-- Whether a document assigns a value of a field's own type and range. -/
def suits (a : (String × String) × Toml.Value) : Bool :=
  catalogue.any fun f => f.group == a.1.1 && f.name == a.1.2 && (f.kind.ofToml? a.2).isSome

/-- Whether a key is a field's, with a text of the field's own type and range. -/
def settles (e : String × String) : Bool :=
  catalogue.any fun f => f.key == e.1 && (f.kind.ofVariable? e.2).isSome

theorem suits_iff {a : (String × String) × Toml.Value} :
    suits a = true ↔
      ∃ f ∈ catalogue, (f.group = a.1.1 ∧ f.name = a.1.2) ∧ ∃ d, f.kind.ofToml? a.2 = some d := by
  simp only [suits, List.any_eq_true, Bool.and_eq_true, beq_iff_eq, Option.isSome_iff_exists]

theorem settles_iff {e : String × String} :
    settles e = true ↔ ∃ f ∈ catalogue, f.key = e.1 ∧ ∃ d, f.kind.ofVariable? e.2 = some d := by
  simp only [settles, List.any_eq_true, Bool.and_eq_true, beq_iff_eq, Option.isSome_iff_exists]

/-- A document, and an environment over it. -/
structure Layers where
  document : Toml.Entries
  environment : List (String × String)

namespace Layers

/-- Layers that set fields to values of their own type and range, and do nothing else. -/
structure Proper (l : Layers) : Prop where
  sections : ∀ e ∈ l.document, isSection e.2 = true ∧ e.1 ∈ catalogue.map Setting.group
  assigned : ∀ a ∈ assignments l.document, suits a = true
  said : ∀ e ∈ textsOf l.environment, settles e = true

/-- What the environment says of a field. -/
def said? (l : Layers) (f : Setting) : Option Datum :=
  (textFor? l.environment f).bind f.kind.ofVariable?

/-- What the document says of a field. -/
def assigned? (l : Layers) (f : Setting) : Option Datum :=
  (valueFor? l.document f).bind f.kind.ofToml?

/-- What a field is: what is kept of what the environment says of it, else what the document says, else
what it is by default. -/
def value (l : Layers) (f : Setting) : Datum :=
  (((l.said? f).map Datum.kept).or (l.assigned? f)).getD (f.get default)

/-- The tree of the layers, with the name of the file that the document was read from. -/
def tree (l : Layers) (o : Option String) : Node :=
  layered [ofTomlEntries o l.document, environmentLayer l.environment]

variable {l : Layers} {f : Setting}

/-! ### What layers say of a field -/

theorem Proper.ofToml?_eq (h : l.Proper) (hf : f ∈ catalogue) {v : Toml.Value}
    (hv : valueFor? l.document f = some v) : ∃ d, f.kind.ofToml? v = some d := by
  obtain ⟨g, hg, ⟨hgroup, hname⟩, hvalue⟩ := suits_iff.mp (h.assigned _ (mem_of_lookup_reverse hv))
  obtain rfl : g = f := eq_of_key hg hf (by rw [Setting.key, Setting.key, hgroup, hname])
  exact hvalue

theorem Proper.ofVariable?_eq (h : l.Proper) (hf : f ∈ catalogue) {text : String}
    (htext : textFor? l.environment f = some text) : ∃ d, f.kind.ofVariable? text = some d := by
  obtain ⟨g, hg, hkey, hvalue⟩ := settles_iff.mp (h.said _ (mem_of_lookup_reverse htext))
  obtain rfl : g = f := eq_of_key hg hf hkey
  exact hvalue

/-- A field can be read from what the layers give for it, and is then what they say of it. -/
theorem Proper.reading (h : l.Proper) (hf : f ∈ catalogue) (o : Option String) :
    f.reading ((given? l.environment f.group f.name).or
      ((valueFor? l.document f).map (ofToml o))) = .ok (l.value f) := by
  rw [given?_eq]
  unfold value said? assigned?
  cases hsaid : textFor? l.environment f with
  | some text =>
      obtain ⟨d, hd⟩ := h.ofVariable?_eq hf hsaid
      simp only [Option.map_some, Option.some_or, Option.bind_some, hd, Option.getD_some]
      exact read_ofVariable hd _
  | none =>
      simp only [Option.map_none, Option.none_or, Option.bind_none]
      cases hassigned : valueFor? l.document f with
      | some v =>
          obtain ⟨d, hd⟩ := h.ofToml?_eq hf hassigned
          simp only [Option.map_some, Option.bind_some, hd, Option.getD_some]
          exact read_ofToml hd o
      | none => rfl

/-! ### The tree -/

/-- No field takes a table. -/
theorem isSection_of_suits {a : (String × String) × Toml.Value} (h : suits a = true) :
    isSection a.2 = false := by
  obtain ⟨g, -, -, d, hvalue⟩ := suits_iff.mp h
  obtain ⟨names, v⟩ := a
  cases v with
  | table making entries => cases hkind : g.kind <;> rw [hkind] at hvalue <;> cases hvalue
  | _ => rfl

theorem Proper.sectional (h : l.Proper) (group name : String) : Sectional group name l.document where
  paths e he := by
    refine Decidable.or_iff_not_imp_left.mpr fun hne => ?_
    unfold besides
    rw [pathOf_group _ (h.sections e he).2]
    exact bne_iff_ne.mpr hne
  sections e he _ := (h.sections e he).1
  plain a ha _ := isSection_of_suits (h.assigned a ha)

/-- Every key of the environment is that of a field. -/
theorem Proper.key (h : l.Proper) {e : String × Node} (he : e ∈ environmentLayer l.environment) :
    ∃ g ∈ catalogue, g.key = e.1 := by
  rw [environmentLayer_eq] at he
  obtain ⟨said, hsaid, rfl⟩ := List.mem_map.mp he
  obtain ⟨g, hg, hkey, -⟩ := settles_iff.mp (h.said said hsaid)
  exact ⟨g, hg, hkey⟩

private theorem isTable_foldl (entries : Layer) {tree : Node} (h : tree.isTable = true) :
    (entries.foldl put tree).isTable = true := by
  induction entries generalizing tree with
  | nil => exact h
  | cons e rest ih =>
      refine ih ?_
      obtain ⟨name, steps, hpath⟩ := pathOf_name e.1
      rw [put, hpath]
      rfl

/-- Sections stay tables if fields are written. -/
theorem tabled_foldl {group : String} {entries : Layer}
    (hkeys : ∀ e ∈ entries, ∃ g ∈ catalogue, g.key = e.1) {tree : Node}
    (h : tree.tabled group = true) : (entries.foldl put tree).tabled group = true := by
  induction entries generalizing tree with
  | nil => exact h
  | cons e rest ih =>
      rw [List.forall_mem_cons] at hkeys
      obtain ⟨⟨g, hg, hkey⟩, hkeys⟩ := hkeys
      refine ih hkeys ?_
      have hpath := Setting.pathOf_key hg
      rw [hkey] at hpath
      exact tabled_put hpath (fun _ => rfl) h

theorem tree_eq (l : Layers) (o : Option String) :
    l.tree o = (environmentLayer l.environment).foldl put
      ((ofTomlEntries o l.document).foldl put (.table none [])) := by
  rw [tree, layered_eq, List.flatten_cons, List.flatten_singleton, List.foldl_append]

/-- What stands for a field in the tree of the layers. -/
theorem Proper.at?_tree (h : l.Proper) (hf : f ∈ catalogue) (o : Option String) :
    (l.tree o).tabled f.group = true ∧
      (l.tree o).at? f.group f.name = (given? l.environment f.group f.name).or
        ((valueFor? l.document f).map (ofToml o)) := by
  obtain ⟨htabled, hat⟩ := at?_alone hf (h.sectional f.group f.name) o
  have hkeys : ∀ e ∈ environmentLayer l.environment, setsWhole f.group f.name e.1 = true := by
    intro e he
    obtain ⟨g, hg, hkey⟩ := h.key he
    rw [← hkey]
    exact setsWhole_key hg
  rw [tree_eq]
  refine ⟨tabled_foldl (fun _ => h.key) htabled, ?_⟩
  rw [at?_foldl (pathOf_fieldKey _ (mem_fieldNames hf)) (fun _ => scalar_of_mem) hkeys
    (Node.byName_of_tabled htabled), hat]
  rfl

/-- **Settings can be read from layers**, and every field is what the layers say of it. -/
theorem Proper.shape_tree (h : l.Proper) (o : Option String) :
    ∃ s, (shape : FromNode Settings) (l.tree o) = .ok s ∧ ∀ f ∈ catalogue, f.get s = l.value f := by
  have hreading : ∀ f ∈ catalogue, f.reading ((l.tree o).at? f.group f.name) = .ok (l.value f) := by
    intro f hf
    rw [(h.at?_tree hf o).2]
    exact h.reading hf o
  have htable : (l.tree o).isTable = true := by
    rw [tree_eq]
    exact isTable_foldl _ (isTable_foldl _ rfl)
  have hsectioned : (l.tree o).Sectioned := sectioned_layered _
  obtain ⟨s, hs⟩ := shape_ok htable hsectioned (fun f hf => (h.at?_tree hf o).1)
    fun f hf => ⟨_, hreading f hf⟩
  refine ⟨s, hs, fun f hf => ?_⟩
  have hfield := (fieldwise_of_read hsectioned hs).reading f hf
  rw [hreading f hf] at hfield
  exact (Except.ok.inj hfield).symm

end Layers

/-! ### The ways of loading -/

private theorem ofEnvironment_eq {l : Layers} {file : Option SourceFile}
    (h : documentOf file = some l.document) :
    ∃ o, ofEnvironment file l.environment = (shape : FromNode Settings) (l.tree o) := by
  cases file with
  | none =>
      refine ⟨none, ?_⟩
      rw [Layers.tree, ← Option.some.inj h]
      rfl
  | some f =>
      refine ⟨some f.path, ?_⟩
      simp only [ofEnvironment, layer_eq h]
      rfl

/-- Settings that have the same fields are the same. -/
theorem eq_of_catalogue {s t : Settings} (h : ∀ f ∈ catalogue, f.get s = f.get t) : s = t := by
  have hoption : ∀ x y : Option String, Datum.ofOption x = Datum.ofOption y → x = y := by
    rintro (_ | x) (_ | y) h <;> cases h <;> rfl
  obtain ⟨⟨⟩, ⟨⟩, ⟨⟩⟩ := s
  obtain ⟨⟨⟩, ⟨⟩, ⟨⟩⟩ := t
  simp only [catalogue, List.forall_mem_append] at h
  obtain ⟨⟨hserver, hbackend⟩, hlogging⟩ := h
  simp only [Server.catalogue, List.forall_mem_cons, Datum.text.injEq, Datum.natural.injEq,
    Datum.texts.injEq] at hserver
  simp only [Backend.catalogue, List.forall_mem_cons, Datum.text.injEq, Datum.natural.injEq,
    Datum.backend.injEq, Datum.flag.injEq, Datum.reals.injEq] at hbackend
  simp only [Logging.catalogue, List.forall_mem_cons, Datum.text.injEq] at hlogging
  have htoken := hoption _ _ hbackend.2.2.1
  have hmodel := hoption _ _ hbackend.2.2.2.1
  simp [hserver, hbackend, hlogging, htoken, hmodel]

private theorem ofDocument_eq {l : Layers} (h : l.environment = []) {text : String}
    (hparse : Toml.parse text = some l.document) :
    ofDocument text = (shape : FromNode Settings) (l.tree none) := by
  simp only [ofDocument, documentLayer_eq hparse]
  rw [Layers.tree, h]
  rfl

private theorem ofFile_eq {l : Layers} (h : l.environment = []) {path text : String}
    (hparse : Toml.parse text = some l.document) :
    ofFile ⟨path, some text⟩ = (shape : FromNode Settings) (l.tree (some path)) := by
  simp only [ofFile, layer_eq (f := ⟨path, some text⟩) hparse]
  rw [Layers.tree, h]
  rfl

namespace Layers

variable {l : Layers} {f : Setting}

private theorem value_eq_default (hsaid : textFor? l.environment f = none)
    (hassigned : valueFor? l.document f = none) : l.value f = f.get default := by
  simp only [value, said?, assigned?, hsaid, hassigned, Option.bind_none, Option.map_none, Option.none_or,
    Option.getD_none]

private theorem value_eq_assigned (hsaid : textFor? l.environment f = none) {v : Toml.Value}
    (hassigned : valueFor? l.document f = some v) {d : Datum} (hd : f.kind.ofToml? v = some d) :
    l.value f = d := by
  simp only [value, said?, assigned?, hsaid, hassigned, hd, Option.bind_none, Option.map_none,
    Option.none_or, Option.bind_some, Option.getD_some]

/-- A document assigns nothing in a section that it leaves out or leaves empty. -/
theorem valueFor?_eq_none {doc : Toml.Entries} (h : ∀ e ∈ doc, e.1 = f.group → tableEntries e.2 = []) :
    valueFor? doc f = none := by
  refine List.lookup_eq_none_iff.mpr fun a ha => bne_iff_ne.mpr ?_
  intro hkey
  obtain ⟨e, he, hin⟩ := List.mem_flatMap.mp (List.mem_reverse.mp ha)
  obtain ⟨b, hb, rfl⟩ := List.mem_map.mp hin
  rw [h e he (congrArg Prod.fst hkey).symm] at hb
  exact absurd hb List.not_mem_nil

private theorem textFor?_eq_none {environment : List (String × String)}
    (h : ∀ e ∈ textsOf environment, e.1 ≠ f.key) : textFor? environment f = none :=
  List.lookup_eq_none_iff.mpr fun e he => bne_iff_ne.mpr (h e (List.mem_reverse.mp he)).symm

/-- Settings that layers give. -/
structure Gives (l : Layers) (s : Settings) : Prop where
  /-- Every field is what the layers say of it. -/
  value : ∀ f ∈ catalogue, f.get s = l.value f
  /-- It is exactly what the environment says, if that is no number beyond sixty-three bits. -/
  said : ∀ f ∈ catalogue, ∀ d, l.said? f = some d → (∀ n, d = .natural n → n < 0x8000000000000000) →
    f.get s = d
  /-- A section that the document leaves out or leaves empty, and of which the environment says nothing, is
  as it is by default. -/
  untouched : ∀ group, (∀ e ∈ l.document, e.1 = group → tableEntries e.2 = []) →
    (∀ e ∈ textsOf l.environment, ∀ f ∈ catalogue, f.group = group → e.1 ≠ f.key) →
      ∀ f ∈ catalogue, f.group = group → f.get s = f.get default
  /-- Empty layers give the defaults. -/
  bare : l.document = [] → l.environment = [] → s = default
  /-- Other layers that say the same of a field give the same for it. -/
  undisturbed : ∀ m : Layers, m.Proper → ∀ file t, documentOf file = some m.document →
    ofEnvironment file m.environment = .ok t →
      ∀ f ∈ catalogue, m.said? f = l.said? f → m.assigned? f = l.assigned? f → f.get t = f.get s

/-- What is loaded from layers is, field by field, what they say. -/
theorem Proper.loaded (h : l.Proper) {file : Option SourceFile}
    (hfile : documentOf file = some l.document) :
    ∃ s, ofEnvironment file l.environment = .ok s ∧ ∀ f ∈ catalogue, f.get s = l.value f := by
  obtain ⟨o, ho⟩ := ofEnvironment_eq hfile
  rw [ho]
  exact h.shape_tree o

private theorem gives_of_value {s : Settings} (h : ∀ f ∈ catalogue, f.get s = l.value f) : l.Gives s where
  value := h
  said f hf d hd hsmall := by
    rw [h f hf, Layers.value, hd, Option.map_some, Option.some_or, Option.getD_some, Datum.kept_eq hsmall]
  untouched group hdoc hvars f hf hgroup := by
    rw [h f hf]
    exact value_eq_default (textFor?_eq_none fun e he => hvars e he f hf hgroup)
      (valueFor?_eq_none fun e he heq => hdoc e he (heq.trans hgroup))
  bare hdoc henv := by
    refine eq_of_catalogue fun f hf => ?_
    rw [h f hf]
    exact value_eq_default (by rw [henv]; rfl) (by rw [hdoc]; rfl)
  undisturbed m hm file t hfile ht f hf hsaid hassigned := by
    obtain ⟨t', ht', hvalue⟩ := hm.loaded hfile
    rw [ht] at ht'
    rw [h f hf, Except.ok.inj ht', hvalue f hf, Layers.value, Layers.value, hsaid, hassigned]

end Layers

/-- **Layering is by field.**  Settings are loaded from a document, if there is one, and an environment that
both set fields to values of their own type and range; every field is what the layers say of it, and is not
touched by what they say of others.  Without the environment the ways of loading a document agree. -/
theorem layers_loaded {l : Layers} (h : l.Proper) {file : Option SourceFile}
    (hfile : documentOf file = some l.document) :
    ∃ s, ofEnvironment file l.environment = .ok s ∧ l.Gives s ∧
      (l.environment = [] → ∀ path text, Toml.parse text = some l.document →
        ofDocument text = .ok s ∧ ofFile ⟨path, some text⟩ = .ok s) := by
  obtain ⟨s, hs, hvalue⟩ := h.loaded hfile
  refine ⟨s, hs, Layers.gives_of_value hvalue, fun hnone path text hparse => ?_⟩
  -- The trees differ in the origins of their values, but what is read from them has the same fields.
  have hsame : ∀ o, (shape : FromNode Settings) (l.tree o) = .ok s := by
    intro o
    obtain ⟨t, ht, hvalue'⟩ := h.shape_tree o
    rw [ht, eq_of_catalogue fun f hf => (hvalue' f hf).trans (hvalue f hf).symm]
  exact ⟨(ofDocument_eq hnone hparse).trans (hsame none), (ofFile_eq hnone hparse).trans (hsame _)⟩

/-! ### A file under two variables -/

/-- A file that sets two fields, with an empty section. -/
def mixedFile : SourceFile :=
  ⟨"config.toml", some "[server]\nhost = \"a\"\nport = 1\n\n[logging]\n"⟩

def mixedVariables : List (String × String) :=
  [("SOFTGREP__SERVER__PORT", "7000"), ("softgrep__backend__cache_enabled", "true")]

private theorem mixed_proper : ∃ doc, documentOf (some mixedFile) = some doc ∧
    Layers.Proper ⟨doc, mixedVariables⟩ ∧ (valueFor? doc host).bind text? = some "a" := by
  have hdoc : (documentOf (some mixedFile)).map (fun doc =>
      (doc.all (fun e => isSection e.2 && decide (e.1 ∈ catalogue.map Setting.group)),
        (assignments doc).all suits, (valueFor? doc host).bind text?)) = some (true, true, some "a") := by
    decide +kernel
  have hsaid : ∀ e ∈ textsOf mixedVariables, settles e = true := by decide +kernel
  obtain ⟨doc, hdoc, hchecks⟩ := Option.map_eq_some_iff.mp hdoc
  obtain ⟨hsections, hassigned, htext⟩ := by simpa only [Prod.mk.injEq] using hchecks
  refine ⟨doc, hdoc, ⟨fun e he => ?_, List.all_eq_true.mp hassigned, hsaid⟩, htext⟩
  simpa using List.all_eq_true.mp hsections e he

/-- The port is the variable's, the host the file's, and the logging is as by default. -/
theorem layers_loaded_mixed :
    ∃ doc s, Layers.Proper ⟨doc, mixedVariables⟩ ∧ documentOf (some mixedFile) = some doc ∧
      ofEnvironment (some mixedFile) mixedVariables = .ok s ∧ Layers.Gives ⟨doc, mixedVariables⟩ s ∧
      s.server.port = 7000 ∧ s.server.host = "a" := by
  obtain ⟨doc, hdoc, hproper, htext⟩ := mixed_proper
  obtain ⟨s, hs, hgives, -⟩ := layers_loaded hproper hdoc
  have hport : s.server.port = 7000 := by
    have hsaid : textFor? mixedVariables port = some "7000" := by decide +kernel
    have hread : Decimal.readInt? "7000".toList = some 7000 := by decide +kernel
    have hnumber : port.kind.ofVariable? "7000" = some (.natural 7000) :=
      Kind.ofVariable?_natural hread (by decide)
    have hsays : Layers.said? ⟨doc, mixedVariables⟩ port = some (.natural 7000) := by
      simp only [Layers.said?, hsaid, Option.bind_some, hnumber]
    exact Datum.natural.inj (hgives.said port port_mem _ hsays fun n hn => by cases hn; decide)
  have hhost : s.server.host = "a" := by
    have hsaid : textFor? mixedVariables host = none := by decide +kernel
    obtain ⟨v, hv, hva⟩ := Option.bind_eq_some_iff.mp htext
    cases v <;> cases hva
    exact Datum.text.inj ((hgives.value host host_mem).trans (Layers.value_eq_assigned hsaid hv rfl))
  exact ⟨doc, s, hproper, hdoc, hs, hgives, hport, hhost⟩

/-! ### Two delays that are loaded as one

`kept` is the number itself up to sixty-three bits only.  A whole number from there to the end of a `u64` is
of the field's own type and range as well, but the nearest double does not tell it from the next one. -/

/-- An environment that sets the delay of the stub, and no document. -/
def delayed (text : String) : Layers := ⟨[], [("SOFTGREP__BACKEND__STUB_DELAY_MS", text)]⟩

private theorem textsOf_delayed (text : String) :
    textsOf (delayed text).environment = [(stubDelay.key, text)] := by
  have hkey : variableKey? "SOFTGREP__BACKEND__STUB_DELAY_MS" = some stubDelay.key := by decide +kernel
  simp only [textsOf, delayed, List.filterMap_cons, List.filterMap_nil, hkey, Option.map_some]

/-- A delay of sixty-four bits is loaded as what is kept of it. -/
theorem delayed_loaded {text : String} {n : Nat} (hread : Decimal.readInt? text.toList = some (n : Int))
    (hfits : Schema.Width.w64.fits (n : Int) = true) :
    (delayed text).Proper ∧ (delayed text).said? stubDelay = some (.natural n) ∧
      ∃ s, ofEnvironment none (delayed text).environment = .ok s ∧ s.backend.stubDelayMs = kept n := by
  have hkind : stubDelay.kind.ofVariable? text = some (.natural n) := Kind.ofVariable?_natural hread hfits
  have hsaid : (delayed text).said? stubDelay = some (.natural n) := by
    have htext : textFor? (delayed text).environment stubDelay = some text := by
      rw [textFor?, textsOf_delayed]
      exact List.lookup_cons_self
    rw [Layers.said?, htext, Option.bind_some, hkind]
  have hproper : (delayed text).Proper := by
    refine ⟨fun e he => absurd he List.not_mem_nil, fun a ha => absurd ha List.not_mem_nil, fun e he => ?_⟩
    rw [textsOf_delayed, List.mem_singleton] at he
    subst he
    exact settles_iff.mpr ⟨stubDelay, stubDelay_mem, rfl, _, hkind⟩
  obtain ⟨s, hs, hvalue⟩ := hproper.loaded (show documentOf none = some [] from rfl)
  refine ⟨hproper, hsaid, s, hs, ?_⟩
  have hdelay : Datum.natural s.backend.stubDelayMs = .natural (kept n) := by
    rw [show Datum.natural s.backend.stubDelayMs = stubDelay.get s from rfl, hvalue stubDelay stubDelay_mem,
      Layers.value, hsaid, Option.map_some, Option.some_or, Option.getD_some, Datum.kept]
  exact Datum.natural.inj hdelay

/-- The two delays are two numbers of sixty-four bits, and are loaded without an error as the same one: the
field is not what the environment says of it under both. -/
theorem delays_confused :
    ∃ s t, (delayed "9223372036854775808").Proper ∧ (delayed "9223372036854775809").Proper ∧
      (delayed "9223372036854775808").said? stubDelay = some (.natural 9223372036854775808) ∧
      (delayed "9223372036854775809").said? stubDelay = some (.natural 9223372036854775809) ∧
      ofEnvironment none (delayed "9223372036854775808").environment = .ok s ∧
      ofEnvironment none (delayed "9223372036854775809").environment = .ok t ∧
      s.backend.stubDelayMs = t.backend.stubDelayMs ∧
      ¬(s.backend.stubDelayMs = 9223372036854775808 ∧ t.backend.stubDelayMs = 9223372036854775809) := by
  have hreads : Decimal.readInt? "9223372036854775808".toList = some 9223372036854775808 := by
    decide +kernel
  have hreadt : Decimal.readInt? "9223372036854775809".toList = some 9223372036854775809 := by
    decide +kernel
  obtain ⟨hpropers, hsaids, s, hs, hdelays⟩ := delayed_loaded (n := 9223372036854775808) hreads (by decide)
  obtain ⟨hpropert, hsaidt, t, ht, hdelayt⟩ := delayed_loaded (n := 9223372036854775809) hreadt (by decide)
  -- They lie between two doubles that are two thousand and forty-eight apart.
  have hnearest : Decimal.nearest 9223372036854775808 0 = Decimal.nearest 9223372036854775809 0 := by
    decide +kernel
  have hsame : s.backend.stubDelayMs = t.backend.stubDelayMs := by
    rw [hdelays, hdelayt, kept, kept, if_neg (by decide), if_neg (by decide), hnearest]
  refine ⟨s, t, hpropers, hpropert, hsaids, hsaidt, hs, ht, hsame, ?_⟩
  rintro ⟨heqs, heqt⟩
  rw [heqs, heqt] at hsame
  exact absurd hsame (by decide)

end EmbedServer.Settings
