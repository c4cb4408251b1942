/-
What becomes of whole numbers.

A field of some width is loaded as what is left of the number in that width.  So a number of sixty-four bits
that is loaded at all is loaded as it is exactly if it fits the field, and none is refused for being too
large: port 70000 is loaded as 4464.  Negative ones are refused.  A variable's number that does not fit
sixty-four bits with its sign is taken for a fraction, and what the nearest double comes to is cut down in the
same way.
-/
import EmbedServer.Proofs.Settings.Documents

namespace EmbedServer.Settings

/-! ### The ways of loading

A number can come by a document, by a file or by a variable, and what becomes of it is the same each
time.  So the ways of loading are one type, and the statement about numbers is over all of them.
-/

/-- A way of loading settings, with what is loaded from. -/
inductive Loading where
  | document (text : String)
  | file (f : SourceFile)
  | environment (f : Option SourceFile) (vars : List (String × String))

namespace Loading

/-- The settings that are loaded. -/
def settings : Loading → Except LoadError Settings
  | document text => ofDocument text
  | file f => ofFile f
  | environment f vars => ofEnvironment f vars

/-- The document that is loaded from, if it is there and well formed. -/
def source : Loading → Option Toml.Entries
  | document text => Toml.parse text
  | file f => documentOf (some f)
  | environment f _ => documentOf f

/-- The variables over it. -/
def vars : Loading → List (String × String)
  | document _ | file _ => []
  | environment _ vars => vars

/-- The tree that the settings are read from. -/
def tree : Loading → Node
  | document text => match documentLayer none text with
    | .ok layer => layered [layer]
    | .error _ => .table none []
  | file f => fileTree (some f)
  | environment f vars => overlaid f vars

/-- **Settings that are loaded in any way** are, field by field, what stands in the tree. -/
theorem fieldwise {l : Loading} {s : Settings} (h : l.settings = .ok s) : Fieldwise l.tree.at? s := by
  cases l with
  | document text =>
      unfold settings ofDocument at h
      unfold tree
      dsimp only at h ⊢
      cases hlayer : documentLayer none text with
      | error e =>
          rw [hlayer] at h
          cases h
      | ok layer =>
          rw [hlayer] at h
          exact fieldwise_of_read (sectioned_layered [layer]) h
  | file f =>
      unfold settings ofFile at h
      unfold tree fileTree
      dsimp only [Option.map_some] at h ⊢
      cases hlayer : f.layer with
      | error e =>
          rw [hlayer] at h
          cases h
      | ok layer =>
          rw [hlayer] at h
          exact fieldwise_of_read (sectioned_layered [layer]) h
  | environment f vars => exact fieldwise_of_environment h

/-- The tree is that of the document with the variables written into it. -/
theorem tree_eq {l : Loading} {doc : Toml.Entries} (h : l.source = some doc) :
    ∃ o, l.tree = (environmentLayer l.vars).foldl put ((ofTomlEntries o doc).foldl put (.table none [])) := by
  cases l with
  | document text =>
      refine ⟨none, ?_⟩
      unfold tree
      dsimp only
      rw [documentLayer_eq (show Toml.parse text = some doc from h)]
      show layered [ofTomlEntries none doc] = _
      rw [layered_eq, List.flatten_singleton]
      rfl
  | file f => exact fileTree_eq h
  | environment f vars =>
      obtain ⟨o, ho⟩ := fileTree_eq h
      exact ⟨o, congrArg (List.foldl put · _) ho⟩

/-- A number that the document gives for a field of which no variable says anything stands in the tree. -/
theorem at?_tree {l : Loading} {f : Setting} (hf : f ∈ catalogue) {doc : Toml.Entries}
    (h : l.source = some doc) (hdoc : Sectional f.group f.name doc)
    (hvars : SetsWhole l.vars f.group f.name) (hsaid : textFor? l.vars f = none) :
    ∃ o, l.tree.at? f.group f.name = (valueFor? doc f).map (ofToml o) := by
  obtain ⟨o, ho⟩ := tree_eq h
  obtain ⟨htabled, hat⟩ := at?_alone hf hdoc o
  have hgiven := given?_eq l.vars f
  rw [hsaid, given?] at hgiven
  refine ⟨o, ?_⟩
  rw [ho, at?_foldl (pathOf_fieldKey _ (mem_fieldNames hf)) (fun _ => scalar_of_mem) hvars
    (Node.byName_of_tabled htabled), hat]
  exact congrArg (Option.or · _) hgiven

end Loading

/-! ### Numbers in a field -/

/-- What a field of a width holds that is given a number of sixty-four bits. -/
structure Setting.Wraps (f : Setting) (w : Schema.Width) (n : Int) (s : Settings) : Prop where
  /-- The number is not negative. -/
  nonneg : 0 ≤ n
  /-- What is left of it in the field's width. -/
  value : f.get s = .natural (n.toNat % w.count)
  /-- That is the number itself exactly if it fits. -/
  exact_iff : f.get s = .natural n.toNat ↔ n < w.count

/-- A number is read exactly if it is not negative, and what is read is what is left of it. -/
theorem read_whole {w : Schema.Width} {n : Int} {o : Option String} {d : Datum} :
    Kind.read (.natural w) (.scalar o (.whole n)) = .ok d ↔ 0 ≤ n ∧ d = .natural (n.toNat % w.count) := by
  rw [Kind.read, map_read, FromNode.natural, FromNode.unsigned]
  by_cases hn : 0 ≤ n
  · rw [if_pos hn]
    constructor
    · exact fun h => ⟨hn, (Except.ok.inj h).symm⟩
    · rintro ⟨-, rfl⟩
      rfl
  · rw [if_neg hn]
    constructor
    · rintro ⟨⟩
    · exact fun h => absurd h.1 hn

private theorem wraps_of_read {f : Setting} {w : Schema.Width} (hw : f.kind = .natural w) {n : Int}
    {o : Option String} {s : Settings} (h : f.kind.read (.scalar o (.whole n)) = .ok (f.get s)) :
    f.Wraps w n s := by
  rw [hw, read_whole] at h
  obtain ⟨hn, hvalue⟩ := h
  refine ⟨hn, hvalue, ?_⟩
  rw [hvalue, Datum.natural.injEq]
  have hcount : 0 < w.count := by cases w <;> decide
  constructor
  · intro hmod
    have hlt := Nat.mod_lt n.toNat hcount
    omega
  · exact fun hlt => Nat.mod_eq_of_lt (by omega)

/-- What a number field holds after a way of loading. -/
structure Loading.Naturals (l : Loading) (f : Setting) (w : Schema.Width) (s : Settings) : Prop where
  /-- Where a number stands for it in the tree. -/
  given : ∀ n o, l.tree.at? f.group f.name = some (.scalar o (.whole n)) → f.Wraps w n s
  /-- Where the document gives a number, and no variable says anything. -/
  assigned : ∀ doc n, l.source = some doc → Sectional f.group f.name doc →
    valueFor? doc f = some (.whole n) → SetsWhole l.vars f.group f.name → textFor? l.vars f = none →
      f.Wraps w n s
  /-- Where a variable that spells a number of sixty-four bits has the last word. -/
  said : ∀ file vars text n, l = .environment file vars → Says vars f text →
    Decimal.readInt? text.toList = some n → isWord n = true → f.Wraps w n s
  /-- Where it spells a number beyond them. -/
  beyond : ∀ file vars text n, l = .environment file vars → Says vars f text →
    Decimal.readInt? text.toList = some n → isWord n = false →
      f.get s = .natural
        ((Decimal.nearestSigned (decide (n < 0)) n.natAbs).round.toUInt64.toNat % w.count)

/-- **A number field holds what is left of the number that is given for it**, however the settings are
loaded; it is the number itself exactly if that fits, and no negative one of sixty-four bits is loaded. -/
theorem natural_loaded {f : Setting} (hf : f ∈ catalogue) {w : Schema.Width} (hw : f.kind = .natural w)
    {l : Loading} {s : Settings} (hs : l.settings = .ok s) : l.Naturals f w s := by
  have hgiven : ∀ n o, l.tree.at? f.group f.name = some (.scalar o (.whole n)) → f.Wraps w n s := by
    intro n o hgiven
    have hread := (Loading.fieldwise hs).reading f hf
    rw [hgiven] at hread
    exact wraps_of_read hw hread
  constructor
  case given => exact hgiven
  case assigned =>
    intro doc n hsource hdoc hn hvars hsaid
    obtain ⟨o, ho⟩ := Loading.at?_tree hf hsource hdoc hvars hsaid
    rw [hn] at ho
    exact hgiven n o ho
  case said =>
    rintro file vars text n rfl hsays hn hword
    have hread := read_said hf hsays hs
    rw [ofVariable_integer hn, ofInteger, if_pos hword] at hread
    exact wraps_of_read hw hread
  case beyond =>
    rintro file vars text n rfl hsays hn hword
    have hread := read_said hf hsays hs
    rw [ofVariable_integer hn, ofInteger, if_neg (by simp [hword]), hw, Kind.read, map_read] at hread
    exact (Except.ok.inj hread).symm

/-! ### A port beyond sixteen bits -/

/-- A variable that gives a port that is none. -/
def portVariables : List (String × String) := [("SOFTGREP__SERVER__PORT", "70000")]

/-- The port is loaded as what is left of it. -/
theorem natural_loaded_port :
    ∃ s, port ∈ catalogue ∧ port.kind = .natural .w16 ∧
      (Loading.environment none portVariables).settings = .ok s ∧
      (Loading.environment none portVariables).Naturals port .w16 s ∧ s.server.port = 4464 := by
  have hloaded : (ofEnvironment none portVariables).toOption.map (fun _ => ()) = some () := by
    decide +kernel
  have hsays : Says portVariables port "70000" :=
    ⟨[], port.variableName, [], by decide +kernel, variableKey?_variableName port_mem, by decide⟩
  have hread : Decimal.readInt? "70000".toList = some 70000 := by decide +kernel
  obtain ⟨s, hs, -⟩ := exists_ok hloaded
  have hnaturals := natural_loaded port_mem rfl (l := .environment none portVariables) hs
  refine ⟨s, port_mem, rfl, hs, hnaturals, ?_⟩
  exact Datum.natural.inj (hnaturals.said _ _ _ _ rfl hsays hread (by decide)).value

private theorem exists_port {x : Except LoadError Settings} {n : Nat}
    (h : x.toOption.map (fun s => (s.isValid, s.server.port)) = some (true, n)) :
    ∃ s, x = .ok s ∧ s.isValid = true ∧ s.server.port = n := by
  obtain ⟨s, hs, hvalues⟩ := exists_ok h
  exact ⟨s, hs, Prod.mk.inj hvalues⟩

/-- Port 70000 by a variable, by a document and by a file: it is loaded as 4464 each time, with settings
that are accepted. -/
theorem port_wrapped :
    (∃ s, ofEnvironment none portVariables = .ok s ∧ s.isValid = true ∧ s.server.port = 4464) ∧
      (∃ s, ofDocument "[server]\nport = 70000\n" = .ok s ∧ s.isValid = true ∧ s.server.port = 4464) ∧
      ∃ s, ofFile ⟨"config.toml", some "[server]\nport = 70000\n"⟩ = .ok s ∧ s.isValid = true ∧
        s.server.port = 4464 :=
  ⟨exists_port (by decide +kernel), exists_port (by decide +kernel), exists_port (by decide +kernel)⟩

end EmbedServer.Settings
