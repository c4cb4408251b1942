/-
What becomes of a text on its way through the environment.

A variable's text is taken for a truth value, a whole number or a fraction if it looks like one, and written
out again where the field asks for a text.  So the text that is loaded is the one that was given only if
it was spelled as it is written out, or looks like nothing of the kind: `00012` becomes `12`.
-/
import EmbedServer.Proofs.Settings.Variables

namespace EmbedServer.Settings

/-- The text that is written out for what a variable's text is taken for. -/
def respelled (text : String) : String :=
  match ofVariable text with
  | .nil => ""
  | .flag b => toString b
  | .whole n => toString n
  | .real x => Decimal.plain.text x
  | .text s => s

/-- A text that is spelled as it is written out. -/
inductive KeepsSpelling (text : String) : Prop where
  | flag (b : Bool) (spelled : text = toString b)
  | whole (n : Int) (word : isWord n = true) (spelled : text = toString n)
  | fraction (x : Float) (taken : ofVariable text = .real x) (spelled : text = Decimal.plain.text x)
  | other (taken : ofVariable text = .text text)

/-- What a text can be taken for. -/
theorem ofVariable_cases (text : String) :
    (∃ b, ofVariable text = .flag b) ∨ (∃ n, ofVariable text = .whole n ∧ isWord n = true) ∨
      (∃ x, ofVariable text = .real x) ∨ ofVariable text = .text text := by
  unfold ofVariable
  by_cases htrue : Text.lower text = "true"
  · exact Or.inl ⟨true, if_pos htrue⟩
  · by_cases hfalse : Text.lower text = "false"
    · exact Or.inl ⟨false, (if_neg htrue).trans (if_pos hfalse)⟩
    · right
      simp only [htrue, hfalse, if_false]
      split
      case h_1 n hn =>
        exact Or.inl ⟨n, rfl, (Option.filter_eq_some_iff.mp hn).2⟩
      case h_2 =>
        split
        case h_1 x _ => exact Or.inr (Or.inl ⟨x, rfl⟩)
        case h_2 => exact Or.inr (Or.inr rfl)

private theorem ofVariable_toString {n : Int} (h : isWord n = true) : ofVariable (toString n) = .whole n := by
  rw [ofVariable_integer (Decimal.readInt?_toString n), ofInteger, if_pos h]

private theorem ofVariable_flag (b : Bool) : ofVariable (toString b) = .flag b := by
  have hflag : ∀ b : Bool, (ofVariable (toString b)).flag? = some b := by decide +kernel
  exact Scalar.flag?_eq_some.mp (hflag b)

/-- **A text keeps its spelling** exactly if it is a truth value or a whole number as it is written out, a
fraction as it is written out, or looks like none of them. -/
theorem respelled_eq_iff (text : String) : respelled text = text ↔ KeepsSpelling text := by
  unfold respelled
  constructor
  · intro h
    rcases ofVariable_cases text with ⟨b, htaken⟩ | ⟨n, htaken, hword⟩ | ⟨x, htaken⟩ | htaken
    · rw [htaken] at h
      exact .flag b h.symm
    · rw [htaken] at h
      exact .whole n hword h.symm
    · rw [htaken] at h
      exact .fraction x htaken h.symm
    · exact .other htaken
  · rintro (⟨b, rfl⟩ | ⟨n, hword, rfl⟩ | ⟨x, htaken, hspelled⟩ | htaken)
    · rw [ofVariable_flag]
    · rw [ofVariable_toString hword]
    · rw [htaken]
      exact hspelled.symm
    · rw [htaken]

/-- A text is read from a variable as it is written out. -/
theorem text_ofVariable (text : String) (o : Option String) :
    FromNode.text (.scalar o (ofVariable text)) = .ok (respelled text) ∧
      FromNode.optional FromNode.text (.scalar o (ofVariable text)) = .ok (some (respelled text)) := by
  unfold respelled
  rcases ofVariable_cases text with ⟨b, htaken⟩ | ⟨n, htaken, -⟩ | ⟨x, htaken⟩ | htaken <;>
    rw [htaken] <;> exact ⟨rfl, rfl⟩

/-- **What a text field holds that a variable sets**: the variable's text as it is written out.  It is the
text itself exactly if that keeps its spelling. -/
theorem text_respelled {f : Setting} (hf : f ∈ catalogue) (hkind : f.kind = .text ∨ f.kind = .maybeText)
    {environment : List (String × String)} {text : String} (h : Says environment f text)
    {file : Option SourceFile} {s : Settings} (hs : ofEnvironment file environment = .ok s) :
    f.get s = .text (respelled text) ∧ (f.get s = .text text ↔ KeepsSpelling text) := by
  have hvalue : f.get s = .text (respelled text) := by
    have hread := read_said hf h hs
    obtain ⟨htext, hoptional⟩ := text_ofVariable text (some "the environment")
    rcases hkind with hkind | hkind
    · rw [hkind, Kind.read, map_read, htext] at hread
      exact (Except.ok.inj hread).symm
    · rw [hkind, Kind.read, map_read, hoptional] at hread
      exact (Except.ok.inj hread).symm
  refine ⟨hvalue, ?_⟩
  rw [hvalue, Datum.text.injEq]
  exact respelled_eq_iff text

/-! ### A token of digits -/

/-- A file that gives a token. -/
def tokenFile : SourceFile := ⟨"config.toml", some "[backend]\napi_token = \"00012\"\n"⟩

/-- Variables that give the same token, and a model. -/
def tokenVariables : List (String × String) :=
  [("SOFTGREP__BACKEND__API_TOKEN", "00012"), ("SOFTGREP__BACKEND__MODEL", "m")]

private theorem respelled_token : respelled "00012" = "12" := by decide +kernel

/-- The variable's token is written out without its zeros, whatever the file gives. -/
theorem text_respelled_token :
    ∃ s, apiToken ∈ catalogue ∧ (apiToken.kind = .text ∨ apiToken.kind = .maybeText) ∧
      Says tokenVariables apiToken "00012" ∧ ofEnvironment (some tokenFile) tokenVariables = .ok s ∧
      apiToken.get s = .text "12" ∧ ¬KeepsSpelling "00012" := by
  have hsays : Says tokenVariables apiToken "00012" :=
    ⟨[], apiToken.variableName, [("SOFTGREP__BACKEND__MODEL", "m")], by decide +kernel,
      variableKey?_variableName apiToken_mem, by decide +kernel⟩
  have hloaded : (ofEnvironment (some tokenFile) tokenVariables).toOption.map (fun _ => ()) = some () := by
    decide +kernel
  obtain ⟨s, hs, -⟩ := exists_ok hloaded
  obtain ⟨hvalue, hkeeps⟩ := text_respelled apiToken_mem (Or.inr rfl) hsays hs
  rw [respelled_token] at hvalue
  refine ⟨s, apiToken_mem, Or.inr rfl, hsays, hs, hvalue, fun hplain => ?_⟩
  rw [hvalue, Datum.text.injEq] at hkeeps
  exact absurd (hkeeps.mpr hplain) (by decide)

/-- The same token by a file and by a variable: the file's is loaded as it is given, and the variable's is
altered, with settings that are accepted. -/
theorem token_altered :
    (∃ s, ofFile tokenFile = .ok s ∧ s.backend.apiToken = some "00012") ∧
      ∃ s, ofEnvironment none tokenVariables = .ok s ∧ s.isValid = true ∧
        s.backend.apiToken = some "12" := by
  have hfile : (ofFile tokenFile).toOption.map (fun s => s.backend.apiToken) = some (some "00012") := by
    decide +kernel
  have hvariable : (ofEnvironment none tokenVariables).toOption.map
      (fun s => (s.isValid, s.backend.apiToken)) = some (true, some "12") := by decide +kernel
  obtain ⟨s, hs, hvalue⟩ := exists_ok hfile
  obtain ⟨t, ht, hvalues⟩ := exists_ok hvariable
  obtain ⟨hvalid, htoken⟩ := Prod.mk.inj hvalues
  exact ⟨⟨s, hs, hvalue⟩, t, ht, hvalid, htoken⟩

end EmbedServer.Settings
