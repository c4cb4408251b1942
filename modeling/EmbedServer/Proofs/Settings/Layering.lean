/-
Layers are put together field by field.

Writing an entry into the tree changes what stands under its path and leaves the other paths alone, so
what stands under a field's key in the end is what was written there last.  Keys stay unique in the tree
and in its sections, whatever is written.

An environment sets a field as a whole, or leaves it alone, if none of its keys is that of the section or
goes inside the field.  Then the field has the environment's value if there is one, and the file's
otherwise.
-/
import EmbedServer.Proofs.Settings.Fields

namespace EmbedServer.Settings

/-! ### Writing one entry

A path is followed step by step.  What stands beside it is left alone, so it is enough to know what
stands under its first name.
-/

theorem lookup_putEntry (key other : String) (v : Node) (entries : List (String × Node)) :
    (putEntry key v entries).lookup other = if other = key then some v else entries.lookup other := by
  induction entries with
  | nil =>
      by_cases h : other = key
      · rw [if_pos h, h, putEntry, List.lookup_cons_self]
      · rw [if_neg h, putEntry, lookup_cons_ne (Ne.symm h)]
  | cons e rest ih =>
      obtain ⟨k, w⟩ := e
      by_cases hk : k = key
      · subst hk
        by_cases h : other = k
        · rw [if_pos h, h, putEntry, if_pos rfl, List.lookup_cons_self]
        · rw [if_neg h, putEntry, if_pos rfl, lookup_cons_ne (Ne.symm h), lookup_cons_ne (Ne.symm h)]
      · rw [putEntry, if_neg hk]
        by_cases h : other = k
        · rw [h, List.lookup_cons_self, List.lookup_cons_self, if_neg hk]
        · rw [lookup_cons_ne (Ne.symm h), lookup_cons_ne (Ne.symm h), ih]

private theorem mem_keys_putEntry {key other : String} {v : Node} {entries : List (String × Node)}
    (h : other ∈ (putEntry key v entries).map Prod.fst) :
    other = key ∨ other ∈ entries.map Prod.fst := by
  induction entries with
  | nil => exact Or.inl (by simpa [putEntry] using h)
  | cons e rest ih =>
      obtain ⟨k, w⟩ := e
      by_cases hk : k = key
      · rw [putEntry, if_pos hk] at h
        exact Or.inr h
      · rw [putEntry, if_neg hk, List.map_cons, List.mem_cons] at h
        rcases h with h | h
        · exact Or.inr (by simp [h])
        · rcases ih h with h | h
          · exact Or.inl h
          · exact Or.inr (by simp [h])

private theorem nodup_putEntry {entries : List (String × Node)} (h : (entries.map Prod.fst).Nodup)
    (key : String) (v : Node) : ((putEntry key v entries).map Prod.fst).Nodup := by
  induction entries with
  | nil => simp [putEntry]
  | cons e rest ih =>
      obtain ⟨k, w⟩ := e
      rw [List.map_cons, List.nodup_cons] at h
      by_cases hk : k = key
      · rw [putEntry, if_pos hk, List.map_cons, List.nodup_cons]
        exact h
      · rw [putEntry, if_neg hk, List.map_cons, List.nodup_cons]
        refine ⟨?_, ih h.2⟩
        intro hmem
        rcases mem_keys_putEntry hmem with heq | hmem
        · exact hk heq
        · exact h.1 hmem

/-- Entries written over others leave no key twice. -/
theorem nodup_mergeEntries {old : List (String × Node)} (h : (old.map Prod.fst).Nodup)
    (entries : List (String × Node)) : ((mergeEntries old entries).map Prod.fst).Nodup := by
  induction entries generalizing old with
  | nil => exact h
  | cons e rest ih =>
      rw [mergeEntries]
      exact ih (nodup_putEntry h _ _)

/-- No key stands twice in what may be there. -/
def Keyed (old : Option Node) : Prop := ∀ v, old = some v → v.keys.Nodup

theorem Keyed.entries {old : Option Node} (h : Keyed old) :
    ((entriesOf (old.getD (.table none []))).map Prod.fst).Nodup := by
  cases old with
  | none => exact List.nodup_nil
  | some v =>
      rw [Option.getD_some, ← Node.keys_eq]
      exact h v rfl

private theorem keyed_merge {old : Option Node} (h : Keyed old) (v : Node) : (merge old v).keys.Nodup := by
  cases v with
  | scalar o x => exact List.nodup_nil
  | list o items => exact List.nodup_nil
  | table o entries => exact nodup_mergeEntries h.entries entries

private theorem keyed_write {old : Option Node} (h : Keyed old) (value : Node) (path : List PathStep) :
    (write value path old).keys.Nodup := by
  cases path with
  | nil => exact keyed_merge h value
  | cons step rest =>
      cases step with
      | name key => exact nodup_putEntry h.entries _ _
      | item index => exact List.nodup_nil

/-- What is found among the entries that are written over. -/
theorem lookup_entriesOf (old : Option Node) (name : String) :
    (entriesOf (old.getD (.table none []))).lookup name = old.bind (Node.under? name) := by
  cases old with
  | none => rfl
  | some v => exact (Node.under?_eq v name).symm

/-- What stands under a key after something has been written under a name. -/
theorem under?_write (value : Node) (key : String) (rest : List PathStep) (old : Option Node)
    (other : String) :
    (write value (.name key :: rest) old).under? other =
      if other = key then some (write value rest (old.bind (Node.under? key)))
      else old.bind (Node.under? other) := by
  show (putEntry key _ _).lookup other = _
  rw [lookup_putEntry, lookup_entriesOf, lookup_entriesOf]

/-! ### Writing layers -/

/-- A path begins with a name. -/
theorem pathOf_name (key : String) : ∃ name rest, pathOf key = .name name :: rest := by
  simp only [pathOf]
  split
  · exact ⟨_, _, rfl⟩
  · split
    · exact ⟨_, _, rfl⟩
    · exact ⟨_, _, rfl⟩

/-- An entry written into a tree. -/
def put (tree : Node) (e : String × Node) : Node := write e.2 (pathOf e.1) (some tree)

theorem layered_eq (layers : List Layer) : layered layers = layers.flatten.foldl put (.table none []) :=
  rfl

private theorem layered_append (xs ys : List Layer) :
    layered (xs ++ ys) = ys.flatten.foldl put (layered xs) := by
  rw [layered_eq, layered_eq, List.flatten_append, List.foldl_append]

private theorem sectioned_put {tree : Node} (h : tree.Sectioned) (e : String × Node) :
    (put tree e).Sectioned := by
  obtain ⟨name, rest, hpath⟩ := pathOf_name e.1
  have hkeyed : Keyed (some tree) := by
    rintro v hv
    cases hv
    exact h.keys
  refine ⟨?_, keyed_write hkeyed _ _, ?_⟩
  · rw [put, hpath]
    rfl
  · intro group v hv
    rw [put, hpath, under?_write] at hv
    split at hv
    · cases hv
      refine keyed_write ?_ _ _
      intro w hw
      exact h.inner name w hw
    · exact h.inner group v hv

/-- Whatever is layered, no key stands twice in the tree or in a section of it. -/
theorem sectioned_layered (layers : List Layer) : (layered layers).Sectioned := by
  have hfold : ∀ (entries : Layer) (tree : Node), tree.Sectioned → (entries.foldl put tree).Sectioned := by
    intro entries
    induction entries with
    | nil => exact fun _ h => h
    | cons e rest ih => exact fun tree h => ih _ (sectioned_put h e)
  refine hfold layers.flatten _ ⟨rfl, List.nodup_nil, ?_⟩
  intro group v hv
  cases hv

/-! ### Keys of fields -/

/-- The key of a field, with that of its section in front. -/
def fieldKey (group name : String) : String := group ++ "." ++ name

theorem pathOf_fieldKey : ∀ k ∈ fieldNames, pathOf (fieldKey k.1 k.2) = [.name k.1, .name k.2] := by
  decide +kernel

/-- Whether a path leads to some entry other than the one of this name in the group, or into one. -/
def leadsElsewhere (group name : String) : List PathStep → Bool
  | .name g :: .name n :: _ => g != group || n != name
  | .name g :: _ => g != group
  | _ => false

/-- Whether a key sets a field as a whole or leaves it alone: it neither is the key of the section nor goes
inside the field. -/
def setsWhole (group name key : String) : Bool :=
  key == fieldKey group name || leadsElsewhere group name (pathOf key)

/-- A path that leads elsewhere leaves the group alone, or goes on to another name in it. -/
theorem leadsElsewhere_cases {group name : String} {path : List PathStep}
    (h : leadsElsewhere group name path = true) :
    (∃ g rest, path = .name g :: rest ∧ group ≠ g) ∨
      (∃ n rest, path = .name group :: .name n :: rest ∧ name ≠ n) := by
  cases path with
  | nil => cases h
  | cons step rest =>
      cases step with
      | item index => cases h
      | name g =>
          by_cases hg : group = g
          · subst hg
            cases rest with
            | nil => simp [leadsElsewhere] at h
            | cons step rest =>
                cases step with
                | item index => simp [leadsElsewhere] at h
                | name n =>
                    refine Or.inr ⟨n, rest, rfl, ?_⟩
                    rintro rfl
                    simp [leadsElsewhere] at h
          · exact Or.inl ⟨g, rest, rfl, hg⟩

variable {group name : String}

private theorem setsWhole_cases {key : String} (hkey : setsWhole group name key = true) :
    fieldKey group name = key ∨
      (fieldKey group name ≠ key ∧ leadsElsewhere group name (pathOf key) = true) := by
  by_cases h : fieldKey group name = key
  · exact Or.inl h
  · have hne : (key == fieldKey group name) = false := by simpa using Ne.symm h
    exact Or.inr ⟨h, by simpa only [setsWhole, hne, Bool.false_or] using hkey⟩

/-- Whether the fields of a section stand under their names: it is no list. -/
def Node.byName (root : Node) (group : String) : Bool := (root.under? group).all (!·.isList)

/-- What stands for a field of a section that is no list stands under the field's name. -/
theorem at?_of_byName {tree : Node} (h : tree.byName group = true) :
    tree.at? group name = (tree.under? group).bind (Node.under? name) := by
  unfold Node.byName at h
  unfold Node.at?
  cases hsection : tree.under? group with
  | none => rfl
  | some v =>
      rw [hsection] at h
      have hlist : v.isList = false := by simpa using h
      exact congrArg (Node.under? name) (Node.named_of_isList hlist _)

/-- A section that is no list is none after a key has been written that sets a field as a whole. -/
theorem byName_put (hpath : pathOf (fieldKey group name) = [.name group, .name name]) {key : String}
    (hkey : setsWhole group name key = true) {tree : Node} (h : tree.byName group = true) (value : Node) :
    (put tree (key, value)).byName group = true := by
  unfold Node.byName put
  rcases setsWhole_cases hkey with rfl | ⟨-, helsewhere⟩
  · rw [hpath, under?_write, if_pos rfl]
    rfl
  · rcases leadsElsewhere_cases helsewhere with ⟨g, rest, hsteps, hg⟩ | ⟨n, rest, hsteps, -⟩
    · rw [hsteps, under?_write, if_neg hg]
      exact h
    · rw [hsteps, under?_write, if_pos rfl]
      rfl

/-- What stands for a field after a plain value has been written under a key. -/
theorem at?_put (hpath : pathOf (fieldKey group name) = [.name group, .name name]) {key : String}
    (hkey : setsWhole group name key = true) {tree : Node} (h : tree.byName group = true)
    (o : Option String) (x : Scalar) :
    (put tree (key, .scalar o x)).at? group name =
      if fieldKey group name = key then some (.scalar o x) else tree.at? group name := by
  rw [at?_of_byName (byName_put hpath hkey h _), at?_of_byName h, put]
  rcases setsWhole_cases hkey with rfl | ⟨hne, helsewhere⟩
  · rw [if_pos rfl, hpath, under?_write, if_pos rfl, Option.bind_some, under?_write, if_pos rfl]
    rfl
  · rw [if_neg hne]
    rcases leadsElsewhere_cases helsewhere with ⟨g, rest, hsteps, hg⟩ | ⟨n, rest, hsteps, hn⟩
    · rw [hsteps, under?_write, if_neg hg]
      rfl
    · rw [hsteps, under?_write, if_pos rfl, Option.bind_some, under?_write, if_neg hn]
      rfl

/-! ### An environment over a file

The values of an environment are plain, so what is written under a field's key replaces what was there as
a whole.
-/

/-- What an environment gives for a field: the last of its variables that has the field's key. -/
def given? (environment : List (String × String)) (group name : String) : Option Node :=
  (environmentLayer environment).reverse.lookup (fieldKey group name)

/-- The tree that a file gives, if one is asked for and can be read. -/
def fileTree (f : Option SourceFile) : Node :=
  match f.map SourceFile.layer with
  | some (.ok layer) => layered [layer]
  | some (.error _) | none => .table none []

/-- The tree of a file with an environment written into it. -/
def overlaid (f : Option SourceFile) (environment : List (String × String)) : Node :=
  (environmentLayer environment).foldl put (fileTree f)

/-- An environment that sets a field as a whole or leaves it alone. -/
def SetsWhole (environment : List (String × String)) (group name : String) : Prop :=
  ∀ e ∈ environmentLayer environment, setsWhole group name e.1 = true

instance (environment : List (String × String)) (group name : String) :
    Decidable (SetsWhole environment group name) :=
  inferInstanceAs (Decidable (∀ e ∈ environmentLayer environment, _))

/-- The values of an environment are plain. -/
theorem scalar_of_mem {environment : List (String × String)} {e : String × Node}
    (h : e ∈ environmentLayer environment) : ∃ o x, e.2 = .scalar o x := by
  obtain ⟨⟨name, text⟩, -, hkey⟩ := List.mem_filterMap.mp h
  obtain ⟨key, -, rfl⟩ := Option.map_eq_some_iff.mp hkey
  exact ⟨_, _, rfl⟩

/-- Plain values written one after the other: what stands for a field is the last of its own. -/
theorem at?_foldl (hpath : pathOf (fieldKey group name) = [.name group, .name name]) {entries : Layer}
    (hscalar : ∀ e ∈ entries, ∃ o x, e.2 = .scalar o x)
    (hkeys : ∀ e ∈ entries, setsWhole group name e.1 = true) {tree : Node}
    (h : tree.byName group = true) :
    (entries.foldl put tree).at? group name =
      (entries.reverse.lookup (fieldKey group name)).or (tree.at? group name) := by
  induction entries generalizing tree with
  | nil => rfl
  | cons e rest ih =>
      obtain ⟨key, v⟩ := e
      rw [List.forall_mem_cons] at hscalar hkeys
      obtain ⟨⟨o, x, rfl⟩, hscalar⟩ := hscalar
      rw [List.foldl_cons, ih hscalar hkeys.2 (byName_put hpath hkeys.1 h _), at?_put hpath hkeys.1 h,
        List.reverse_cons, List.lookup_append, Option.or_assoc]
      refine congrArg _ ?_
      by_cases heq : fieldKey group name = key
      · rw [if_pos heq, heq, List.lookup_cons_self]
        rfl
      · rw [if_neg heq, lookup_cons_ne (Ne.symm heq)]
        rfl

/-- **An environment lies over a file field by field**: what stands for a field is the environment's value
if there is one, and the file's otherwise. -/
theorem at?_overlaid {k : String × String} (hk : k ∈ fieldNames) {f : Option SourceFile}
    {environment : List (String × String)} (hwhole : SetsWhole environment k.1 k.2)
    (hfile : (fileTree f).byName k.1 = true) :
    (overlaid f environment).at? k.1 k.2 = (given? environment k.1 k.2).or ((fileTree f).at? k.1 k.2) :=
  at?_foldl (pathOf_fieldKey k hk) (fun _ => scalar_of_mem) hwhole hfile

/-- **Settings under an environment** are, field by field, what stands in the file's tree with the
environment written into it. -/
theorem fieldwise_of_environment {f : Option SourceFile} {environment : List (String × String)}
    {s : Settings} (h : ofEnvironment f environment = .ok s) :
    Fieldwise (overlaid f environment).at? s := by
  have hread : ∃ files : List Layer, fileTree f = layered files ∧
      (shape : FromNode Settings) (layered (files ++ [environmentLayer environment])) = .ok s := by
    cases f with
    | none => exact ⟨[], rfl, h⟩
    | some f =>
        cases hlayer : f.layer with
        | error e =>
            simp only [ofEnvironment, hlayer] at h
            cases h
        | ok layer =>
            simp only [ofEnvironment, hlayer] at h
            exact ⟨[layer], by simp only [fileTree, Option.map_some, hlayer], h⟩
  obtain ⟨files, hfiles, hshape⟩ := hread
  have hsectioned := sectioned_layered (files ++ [environmentLayer environment])
  rw [layered_append, List.flatten_singleton, ← hfiles] at hshape hsectioned
  exact fieldwise_of_read hsectioned hshape

/-- What is known of a result that is there. -/
theorem exists_ok {ε α β : Type} {x : Except ε α} {f : α → β} {b : β}
    (h : x.toOption.map f = some b) : ∃ a, x = .ok a ∧ f a = b := by
  cases x with
  | error e => cases h
  | ok a => exact ⟨a, rfl, Option.some.inj h⟩

end EmbedServer.Settings
