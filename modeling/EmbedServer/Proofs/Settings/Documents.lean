/-
Documents that are written section by section.

Such a document is a list of assignments, each of a value to a name in a section.  A section's table is
merged into what is there, name by name, so that what stands for a field in the tree is the last value
that was assigned to it, and sections stay tables.  The same is true of variables that are written over a
document: each of them sets one field and leaves the others alone.
-/
import EmbedServer.Proofs.Settings.Variables

namespace EmbedServer.Settings

/-! ### Lists with keys -/

section Lookup

variable {β γ : Type}

private theorem lookup_map_values (g : β → γ) (entries : List (String × β)) (key : String) :
    (entries.map fun e => (e.1, g e.2)).lookup key = (entries.lookup key).map g := by
  induction entries with
  | nil => rfl
  | cons e rest ih =>
      obtain ⟨k, b⟩ := e
      rw [List.map_cons]
      by_cases h : key = k
      · rw [h, List.lookup_cons_self, List.lookup_cons_self]
        rfl
      · rw [lookup_cons_ne (Ne.symm h), lookup_cons_ne (Ne.symm h), ih]

/-- Looking for a name in a group among entries of one group. -/
theorem lookup_map_keys (g : String) (entries : List (String × β)) (group name : String) :
    (entries.map fun e => ((g, e.1), e.2)).lookup (group, name) =
      if group = g then entries.lookup name else none := by
  induction entries with
  | nil => simp
  | cons e rest ih =>
      have hkey : ((group, name) == (g, e.1)) = (group == g && name == e.1) := rfl
      rw [List.map_cons, List.lookup_cons, ih, List.lookup_cons, hkey]
      by_cases hg : group = g
      · rw [if_pos hg, if_pos hg, beq_iff_eq.mpr hg, Bool.true_and]
      · rw [if_neg hg, if_neg hg, beq_false_of_ne hg, Bool.false_and]

/-- What is found from the end stands in the list. -/
theorem mem_of_lookup_reverse {κ : Type} [BEq κ] [LawfulBEq κ] {entries : List (κ × β)} {key : κ} {b : β}
    (h : entries.reverse.lookup key = some b) : (key, b) ∈ entries := by
  obtain ⟨before, after, hsplit, -⟩ := List.lookup_eq_some_iff.mp h
  rw [← List.mem_reverse, hsplit]
  exact List.mem_append_right _ List.mem_cons_self

end Lookup

/-! ### Writing a section

A section that comes again is merged into what there is, and not put in its place.  Plain values replace
each other, so a field has the last of them.
-/

private theorem merge_plain {v : Node} (h : v.isTable = false) (old : Option Node) : merge old v = v := by
  cases v with
  | scalar o x => rfl
  | list o items => rfl
  | table o entries => cases h

/-- Entries written over others: what stands under a key is the last of its own, if these are plain, or what
was there. -/
theorem lookup_mergeEntries {entries : List (String × Node)} {key : String}
    (h : ∀ e ∈ entries, e.1 = key → e.2.isTable = false) (old : List (String × Node)) :
    (mergeEntries old entries).lookup key = (entries.reverse.lookup key).or (old.lookup key) := by
  induction entries generalizing old with
  | nil => rfl
  | cons e rest ih =>
      obtain ⟨k, v⟩ := e
      rw [List.forall_mem_cons] at h
      rw [mergeEntries, ih h.2, lookup_putEntry, List.reverse_cons, List.lookup_append, Option.or_assoc]
      refine congrArg _ ?_
      by_cases heq : key = k
      · rw [if_pos heq, merge_plain (h.1 heq.symm), heq, List.lookup_cons_self]
        rfl
      · rw [if_neg heq, lookup_cons_ne (Ne.symm heq)]
        rfl

variable {group name : String}

/-- A section is left out or is a table after something has been written that makes a table of it. -/
theorem tabled_put {g : String} {rest : List PathStep} {key : String} (hpath : pathOf key = .name g :: rest)
    {v : Node} (hv : ∀ old, (write v rest old).isTable = true) {tree : Node}
    (h : tree.tabled group = true) : (put tree (key, v)).tabled group = true := by
  unfold Node.tabled put
  rw [hpath, under?_write]
  by_cases hg : group = g
  · rw [if_pos hg, Option.all_some]
    exact hv _
  · rw [if_neg hg]
    exact h

/-- What stands for a field after the table of its section has been written. -/
theorem at?_put_section (hpath : pathOf group = [.name group]) {o : Option String}
    {entries : List (String × Node)} (hplain : ∀ e ∈ entries, e.1 = name → e.2.isTable = false)
    {tree : Node} (h : tree.tabled group = true) :
    (put tree (group, .table o entries)).tabled group = true ∧
      (put tree (group, .table o entries)).at? group name =
        (entries.reverse.lookup name).or (tree.at? group name) := by
  have htabled : (put tree (group, .table o entries)).tabled group = true :=
    tabled_put hpath (fun _ => rfl) h
  refine ⟨htabled, ?_⟩
  rw [at?_of_byName (Node.byName_of_tabled htabled), at?_of_byName (Node.byName_of_tabled h), put, hpath,
    under?_write, if_pos rfl, Option.bind_some]
  exact (lookup_mergeEntries hplain _).trans (congrArg _ (lookup_entriesOf _ _))

/-- Whether a key leads to something besides a section. -/
def besides (group key : String) : Bool :=
  match pathOf key with
  | .name g :: _ => g != group
  | _ => false

/-- What is written besides a section leaves it alone. -/
theorem under?_put_besides {key : String} (hkey : besides group key = true) (tree v : Node) :
    (put tree (key, v)).under? group = tree.under? group := by
  unfold besides at hkey
  obtain ⟨g, rest, hpath⟩ := pathOf_name key
  rw [hpath] at hkey
  rw [put, hpath, under?_write, if_neg (Ne.symm (by simpa using hkey))]
  rfl

/-! ### The assignments of a document -/

/-- The entries of a document's table. -/
def tableEntries : Toml.Value → Toml.Entries
  | .table _ entries => entries
  | _ => []

def isSection : Toml.Value → Bool
  | .table .. => true
  | _ => false

/-- What a document assigns: values to names in sections. -/
def assignments (doc : Toml.Entries) : List ((String × String) × Toml.Value) :=
  doc.flatMap fun e => (tableEntries e.2).map fun a => ((e.1, a.1), a.2)

/-- The value that a document gives for a field: the last that it assigns. -/
def valueFor? (doc : Toml.Entries) (f : Setting) : Option Toml.Value :=
  (assignments doc).reverse.lookup (f.group, f.name)

/-- A document that gives a field in its section's table if at all, and no table for it. -/
structure Sectional (group name : String) (doc : Toml.Entries) : Prop where
  paths : ∀ e ∈ doc, e.1 = group ∨ besides group e.1 = true
  sections : ∀ e ∈ doc, e.1 = group → isSection e.2 = true
  plain : ∀ a ∈ assignments doc, a.1 = (group, name) → isSection a.2 = false

private theorem assignments_cons (e : String × Toml.Value) (rest : Toml.Entries) :
    assignments (e :: rest) = ((tableEntries e.2).map fun a => ((e.1, a.1), a.2)) ++ assignments rest :=
  List.flatMap_cons

theorem Sectional.tail {e : String × Toml.Value} {rest : Toml.Entries}
    (h : Sectional group name (e :: rest)) : Sectional group name rest where
  paths e' he' := h.paths e' (List.mem_cons_of_mem _ he')
  sections e' he' := h.sections e' (List.mem_cons_of_mem _ he')
  plain a ha := h.plain a (by rw [assignments_cons]; exact List.mem_append_right _ ha)

private theorem ofTomlEntries_eq (o : Option String) (entries : Toml.Entries) :
    ofTomlEntries o entries = entries.map fun e => (e.1, ofToml o e.2) := by
  induction entries with
  | nil => rfl
  | cons e rest ih => rw [ofTomlEntries, ih, List.map_cons]

private theorem isTable_ofToml (o : Option String) (v : Toml.Value) : (ofToml o v).isTable = isSection v := by
  cases v <;> rfl

/-- What stands for a field after one entry of a document has been written: the last of the values that it
assigns to the field, or what was there; and the section stays a table. -/
theorem at?_put_entry (hpath : pathOf group = [.name group]) {e : String × Toml.Value}
    {rest : Toml.Entries} (h : Sectional group name (e :: rest)) (o : Option String) {tree : Node}
    (htree : tree.tabled group = true) :
    (put tree (e.1, ofToml o e.2)).tabled group = true ∧
      (put tree (e.1, ofToml o e.2)).at? group name =
        ((((tableEntries e.2).map fun a => ((e.1, a.1), a.2)).reverse.lookup (group, name)).map
          (ofToml o)).or (tree.at? group name) := by
  obtain ⟨g, v⟩ := e
  by_cases hg : g = group
  · -- The field's own section: its entries go over those that are there, name by name.
    subst hg
    have hsection := h.sections _ List.mem_cons_self rfl
    cases v with
    | table making entries =>
        have hplain : ∀ e ∈ ofTomlEntries o entries, e.1 = name → e.2.isTable = false := by
          intro e he hname
          rw [ofTomlEntries_eq] at he
          obtain ⟨a, ha, rfl⟩ := List.mem_map.mp he
          rw [isTable_ofToml]
          refine h.plain ((g, a.1), a.2) ?_ (congrArg _ hname)
          rw [assignments_cons]
          exact List.mem_append_left _ (List.mem_map_of_mem ha)
        obtain ⟨htabled, hat⟩ := at?_put_section hpath (o := o) hplain htree
        refine ⟨htabled, hat.trans ?_⟩
        rw [← List.map_reverse, tableEntries, lookup_map_keys, if_pos rfl, ofTomlEntries_eq,
          ← List.map_reverse, lookup_map_values]
    | _ => cases hsection
  · -- Whatever else it is, it assigns nothing to the field.
    have hbesides : besides group g = true := (h.paths _ List.mem_cons_self).resolve_left hg
    have hunder := under?_put_besides hbesides tree (ofToml o v)
    have htabled : (put tree (g, ofToml o v)).tabled group = true := by
      rwa [Node.tabled, hunder]
    refine ⟨htabled, ?_⟩
    rw [at?_of_byName (Node.byName_of_tabled htabled), at?_of_byName (Node.byName_of_tabled htree), hunder,
      ← List.map_reverse, lookup_map_keys, if_neg (Ne.symm hg)]
    rfl

/-- **What stands for a field after a document has been written** is the last value that the document
assigns to it, or what was there; and its section stays a table. -/
theorem at?_document (hpath : pathOf group = [.name group]) {doc : Toml.Entries}
    (hdoc : Sectional group name doc) (o : Option String) {tree : Node} (h : tree.tabled group = true) :
    ((ofTomlEntries o doc).foldl put tree).tabled group = true ∧
      ((ofTomlEntries o doc).foldl put tree).at? group name =
        (((assignments doc).reverse.lookup (group, name)).map (ofToml o)).or (tree.at? group name) := by
  induction doc generalizing tree with
  | nil => exact ⟨h, rfl⟩
  | cons e rest ih =>
      obtain ⟨htabled, hat⟩ := at?_put_entry hpath hdoc o h
      obtain ⟨htabled', hat'⟩ := ih hdoc.tail htabled
      refine ⟨htabled', hat'.trans ?_⟩
      rw [hat, assignments_cons, List.reverse_append, List.lookup_append, Option.map_or, Option.or_assoc]

/-! ### Documents that are loaded -/

/-- The document of a file that may be asked for; it is empty if none is. -/
def documentOf : Option SourceFile → Option Toml.Entries
  | none => some []
  | some f => f.text.bind Toml.parse

/-- The layer of a document that is well formed. -/
theorem documentLayer_eq {text : String} {doc : Toml.Entries} (h : Toml.parse text = some doc)
    (o : Option String) : documentLayer o text = .ok (ofTomlEntries o doc) := by
  unfold documentLayer
  rw [h]

theorem layer_eq {f : SourceFile} {doc : Toml.Entries} (h : documentOf (some f) = some doc) :
    f.layer = .ok (ofTomlEntries (some f.path) doc) := by
  obtain ⟨text, htext, hparse⟩ := Option.bind_eq_some_iff.mp h
  rw [SourceFile.layer, htext]
  exact documentLayer_eq hparse _

/-- The tree of a file whose document is there. -/
theorem fileTree_eq {file : Option SourceFile} {doc : Toml.Entries} (h : documentOf file = some doc) :
    ∃ o, fileTree file = (ofTomlEntries o doc).foldl put (.table none []) := by
  cases file with
  | none =>
      obtain rfl := Option.some.inj h
      exact ⟨none, rfl⟩
  | some f =>
      refine ⟨some f.path, ?_⟩
      unfold fileTree
      rw [Option.map_some, layer_eq h]
      show layered [ofTomlEntries (some f.path) doc] = _
      rw [layered_eq, List.flatten_singleton]

theorem pathOf_group : ∀ group ∈ catalogue.map Setting.group, pathOf group = [.name group] := by
  decide +kernel

/-! ### Variables over a document

Variables are written like one more document of plain values, each under the whole key of a field.
-/

/-- The keys that an environment has texts for. -/
def textsOf (environment : List (String × String)) : List (String × String) :=
  environment.filterMap fun e => (variableKey? e.1).map fun key => (key, e.2)

/-- The text that an environment has for a field: the last of its variables' texts. -/
def textFor? (environment : List (String × String)) (f : Setting) : Option String :=
  (textsOf environment).reverse.lookup f.key

theorem environmentLayer_eq (environment : List (String × String)) :
    environmentLayer environment =
      (textsOf environment).map fun e => (e.1, .scalar (some "the environment") (ofVariable e.2)) := by
  unfold environmentLayer textsOf
  rw [List.map_filterMap]
  refine List.filterMap_congr fun e _ => ?_
  rw [Option.map_map]
  rfl

theorem given?_eq (environment : List (String × String)) (f : Setting) :
    given? environment f.group f.name =
      (textFor? environment f).map fun text => .scalar (some "the environment") (ofVariable text) := by
  rw [given?, environmentLayer_eq, ← List.map_reverse]
  exact lookup_map_values (fun text => Node.scalar (some "the environment") (ofVariable text)) _ _

/-- Fields are told apart by their keys. -/
theorem eq_of_key {f g : Setting} (hf : f ∈ catalogue) (hg : g ∈ catalogue) (h : f.key = g.key) :
    f = g :=
  List.inj_on_of_nodup_map (by decide +kernel) hf hg h

theorem Setting.pathOf_key {f : Setting} (hf : f ∈ catalogue) :
    pathOf f.key = [.name f.group, .name f.name] := by
  rw [key]
  exact pathOf_fieldKey (f.group, f.name) (mem_fieldNames hf)

/-- What stands for a field in the tree of a document alone. -/
theorem at?_alone {f : Setting} (hf : f ∈ catalogue) {doc : Toml.Entries}
    (hdoc : Sectional f.group f.name doc) (o : Option String) :
    ((ofTomlEntries o doc).foldl put (.table none [])).tabled f.group = true ∧
      ((ofTomlEntries o doc).foldl put (.table none [])).at? f.group f.name =
        (valueFor? doc f).map (ofToml o) := by
  have hempty : Node.tabled (.table none []) f.group = true := rfl
  obtain ⟨htabled, hat⟩ := at?_document (pathOf_group _ (List.mem_map_of_mem hf)) hdoc o hempty
  exact ⟨htabled, hat.trans Option.or_none⟩

/-- A field's key sets the field as a whole, or leaves it alone. -/
theorem setsWhole_key {f g : Setting} (hg : g ∈ catalogue) :
    setsWhole f.group f.name g.key = true := by
  unfold setsWhole
  by_cases h : g.key = fieldKey f.group f.name
  · rw [beq_iff_eq.mpr h, Bool.true_or]
  · have helsewhere : leadsElsewhere f.group f.name (pathOf g.key) = true := by
      rw [Setting.pathOf_key hg, leadsElsewhere, Bool.or_eq_true, bne_iff_ne, bne_iff_ne]
      refine Decidable.byContradiction fun hsame => h ?_
      obtain ⟨hgroup, hname⟩ := not_or.mp hsame
      rw [Setting.key, Decidable.not_not.mp hgroup, Decidable.not_not.mp hname]
    rw [helsewhere, Bool.or_true]

end EmbedServer.Settings
