/-
Variables that set fields.

A variable is named after the section and the field, in any case.  If nothing written after it leads to the
section as a whole, to the field or into it, then the variable has the last word: whatever the file
gives and whatever was written before, it is what stands for the field.
-/
import EmbedServer.Proofs.Settings.Sources

namespace EmbedServer.Settings

/-- A text in capitals. -/
def capitals (s : String) : String := String.ofList (s.toList.map Char.toUpper)

/-- The usual name of the variable for a field. -/
def Setting.variableName (f : Setting) : String :=
  "SOFTGREP__" ++ capitals f.group ++ "__" ++ capitals f.name

/-- A variable counts if its name begins with the prefix, in any case. -/
theorem variableKey?_eq {name : String} {rest : List Char}
    (h : name.toList.map Char.toLower = "softgrep__".toList ++ rest) :
    variableKey? name = some (String.ofList (separate rest)) := by
  have hlower : (Text.lower name).toList = "softgrep__".toList ++ rest := by
    rw [Text.lower, String.toList_ofList, h]
  have hprefix : Text.startsWith (Text.lower name) "softgrep__" = true := by
    rw [Text.startsWith, hlower]
    exact List.isPrefixOf_iff_prefix.mpr (List.prefix_append _ _)
  rw [variableKey?, Text.dropStart?, if_pos hprefix, Option.map_some, hlower, List.drop_left,
    String.toList_ofList]

/-- Written in capitals and back in small letters, names of sections and fields are what they were, and no
two of their underscores are taken for a point. -/
theorem small_of_capitals : ∀ f ∈ catalogue,
    (f.group.toList.map Char.toUpper).map Char.toLower = f.group.toList ∧
      (f.name.toList.map Char.toUpper).map Char.toLower = f.name.toList ∧
        separate (f.group.toList ++ ['_', '_'] ++ f.name.toList) =
          f.group.toList ++ ['.'] ++ f.name.toList := by
  decide +kernel

theorem variableKey?_variableName {f : Setting} (hf : f ∈ catalogue) :
    variableKey? f.variableName = some f.key := by
  obtain ⟨hgroup, hname, hseparate⟩ := small_of_capitals f hf
  have hlower : f.variableName.toList.map Char.toLower =
      "softgrep__".toList ++ (f.group.toList ++ ['_', '_'] ++ f.name.toList) := by
    simp only [Setting.variableName, capitals, String.toList_append, String.toList_ofList, List.map_append,
      hgroup, hname, List.append_assoc]
    rfl
  rw [variableKey?_eq hlower, hseparate, Setting.key, fieldKey]
  simp only [String.ofList_append, String.ofList_toList]

/-- An environment that gives a text for a field and has nothing after it that leads to the section as a
whole, to the field or into it. -/
def Says (environment : List (String × String)) (f : Setting) (text : String) : Prop :=
  ∃ before name after, environment = before ++ (name, text) :: after ∧
    variableKey? name = some f.key ∧
    ∀ e ∈ environmentLayer after, leadsElsewhere f.group f.name (pathOf e.1) = true

private theorem environmentLayer_append (xs ys : List (String × String)) :
    environmentLayer (xs ++ ys) = environmentLayer xs ++ environmentLayer ys :=
  List.filterMap_append

private theorem environmentLayer_cons {name key : String} (h : variableKey? name = some key) (text : String)
    (rest : List (String × String)) :
    environmentLayer ((name, text) :: rest) =
      (key, .scalar (some "the environment") (ofVariable text)) :: environmentLayer rest := by
  have hentry : (variableKey? name).map
      (fun key => (key, Node.scalar (some "the environment") (ofVariable text))) =
        some (key, .scalar (some "the environment") (ofVariable text)) := by rw [h, Option.map_some]
  exact List.filterMap_cons_some hentry

variable {group name : String}

/-- A plain value written under a field's key stands for the field, whatever was there. -/
theorem at?_put_key (hpath : pathOf (fieldKey group name) = [.name group, .name name]) (tree : Node)
    (o : Option String) (x : Scalar) :
    (put tree (fieldKey group name, .scalar o x)).byName group = true ∧
      (put tree (fieldKey group name, .scalar o x)).at? group name = some (.scalar o x) := by
  have hunder : (put tree (fieldKey group name, .scalar o x)).under? group =
      some (write (.scalar o x) [.name name] (tree.under? group)) := by
    rw [put, hpath, under?_write, if_pos rfl]
    rfl
  have hbyName : (put tree (fieldKey group name, .scalar o x)).byName group = true := by
    unfold Node.byName
    rw [hunder]
    rfl
  refine ⟨hbyName, ?_⟩
  rw [at?_of_byName hbyName, hunder, Option.bind_some, under?_write, if_pos rfl]
  rfl

/-- No key that leads elsewhere is the field's. -/
theorem lookup_elsewhere (hpath : pathOf (fieldKey group name) = [.name group, .name name])
    {entries : Layer} (h : ∀ e ∈ entries, leadsElsewhere group name (pathOf e.1) = true) :
    entries.lookup (fieldKey group name) = none := by
  refine lookup_eq_none fun hmem => ?_
  obtain ⟨e, he, heq⟩ := List.mem_map.mp hmem
  have helsewhere := h e he
  rw [heq, hpath] at helsewhere
  simp [leadsElsewhere] at helsewhere

/-- **A variable that has the last word is what stands for its field**, whatever the file gives. -/
theorem at?_said {f : Setting} (hf : f ∈ catalogue) {environment : List (String × String)}
    {text : String} (h : Says environment f text) (file : Option SourceFile) :
    (overlaid file environment).at? f.group f.name =
      some (.scalar (some "the environment") (ofVariable text)) := by
  obtain ⟨before, name, after, rfl, hname, hafter⟩ := h
  have hpath := pathOf_fieldKey _ (mem_fieldNames hf)
  have hscalar : ∀ e ∈ environmentLayer after, ∃ o x, e.2 = .scalar o x := fun _ => scalar_of_mem
  have hwhole : ∀ e ∈ environmentLayer after, setsWhole f.group f.name e.1 = true := by
    intro e he
    unfold setsWhole
    rw [hafter e he, Bool.or_true]
  have hafter' : ∀ e ∈ (environmentLayer after).reverse,
      leadsElsewhere f.group f.name (pathOf e.1) = true := fun e he => hafter e (List.mem_reverse.mp he)
  obtain ⟨hbyName, hat⟩ := at?_put_key hpath ((environmentLayer before).foldl put (fileTree file))
    (some "the environment") (ofVariable text)
  rw [overlaid, environmentLayer_append, environmentLayer_cons hname, List.foldl_append, List.foldl_cons]
  rw [Setting.key, at?_foldl hpath hscalar hwhole hbyName, lookup_elsewhere hpath hafter', hat]
  rfl

/-- Settings that are loaded have, for a field on which a variable has the last word, what the variable
is read as. -/
theorem read_said {f : Setting} (hf : f ∈ catalogue) {environment : List (String × String)}
    {text : String} (h : Says environment f text) {file : Option SourceFile} {s : Settings}
    (hs : ofEnvironment file environment = .ok s) :
    f.kind.read (.scalar (some "the environment") (ofVariable text)) = .ok (f.get s) := by
  have hreading := (fieldwise_of_environment hs).reading f hf
  rwa [at?_said hf h file] at hreading

end EmbedServer.Settings
