/-
Which settings the program runs with, and when it refuses them.

The settings that are loaded are looked at twice: as they are, and with the options over them.  The options
change the host and the port, and of these only the host can break a rule.  So the program gets as far as
its backend exactly if the settings with the options over them are accepted and the host under them is not
blank either; then it runs with those settings and no others.

A blank host in the file or in the environment is therefore refused even if an option puts another one in
its place.
-/
import EmbedServer.Cli.Program
import EmbedServer.Proofs.Settings.Layering
import EmbedServer.Proofs.Settings.Validation

namespace EmbedServer

namespace Cli

open Settings

/-- Settings that are accepted with options over them are accepted without, unless their own host is
blank. -/
theorem valid_under_options {o : Options} {s : Settings} (h : (o.over s).isValid = true) :
    s.isValid = true ↔ s.server.isBlank = false := by
  rw [isValid_iff, Server.violation_eq_none] at h ⊢
  obtain ⟨⟨-, hrest⟩, hbackend, hlogging⟩ := h
  exact ⟨fun hs => hs.1.1, fun hblank => ⟨⟨hblank, hrest⟩, hbackend, hlogging⟩⟩

private theorem effective_eq {o : Options} {file : Option SourceFile} {environment : List (String × String)}
    {s : Settings} (hs : ofEnvironment file environment = .ok s) :
    effective o file environment = match validate s with
      | .error e => .error (.loading e)
      | .ok _ => match validate (o.over s) with
        | .error e => .error (.settings e)
        | .ok e => .ok e := by
  unfold effective checked
  rw [hs]
  cases h : validate s with
  | error e => simp only [h]
  | ok t =>
      obtain ⟨rfl, -⟩ := validate_ok.mp h
      cases hover : (o.over t).validate <;> simp only [h, hover]

/-- **The settings that the program runs with**: those that are loaded, with the options over them, if they
are accepted and the loaded host is not blank. -/
theorem effective_ok {o : Options} {file : Option SourceFile} {environment : List (String × String)}
    {s : Settings} (hs : ofEnvironment file environment = .ok s) (e : Settings) :
    effective o file environment = .ok e ↔
      e = o.over s ∧ e.isValid = true ∧ s.server.isBlank = false := by
  rw [effective_eq hs]
  constructor
  · intro h
    cases hfirst : validate s with
    | error v => simp [hfirst] at h
    | ok t =>
        cases hsecond : validate (o.over s) with
        | error v => simp [hfirst, hsecond] at h
        | ok e' =>
            simp only [hfirst, hsecond, Except.ok.injEq] at h
            subst h
            obtain ⟨rfl, hvalid⟩ := validate_ok.mp hsecond
            obtain ⟨-, hloaded⟩ := validate_ok.mp hfirst
            exact ⟨rfl, hvalid, (valid_under_options hvalid).mp hloaded⟩
  · rintro ⟨rfl, hvalid, hblank⟩
    have hfirst := validate_ok.mpr ⟨rfl, (valid_under_options hvalid).mpr hblank⟩
    have hsecond := validate_ok.mpr ⟨rfl, hvalid⟩
    rw [hfirst]
    simp only [hsecond]

/-! ### The program

The program ends in one of two ways before it has a backend, with the fault of the settings that were
loaded or with the fault of those under the options.  The first is looked for first.
-/

/-- What the program makes of the settings that it loads, with these options. -/
structure World.Acceptance (w : World) (o : Options) (loaded : Settings) : Prop where
  /-- They are, field by field, what stands in the file's tree with the environment written into it, or the
  default. -/
  fields : Fieldwise
    (overlaid (o.config.map (SourceFile.locate w.files)) w.fullEnvironment).at? loaded
  /-- There every field has the environment's value if it gives one, and the file's otherwise.  Left out are
  fields of a section that the file gives as a list or that a variable sets at once, and fields that a
  variable goes inside. -/
  layers : ∀ k ∈ fieldNames, SetsWhole w.fullEnvironment k.1 k.2 →
    (fileTree (o.config.map (SourceFile.locate w.files))).byName k.1 = true →
      (overlaid (o.config.map (SourceFile.locate w.files)) w.fullEnvironment).at? k.1 k.2 =
        (given? w.fullEnvironment k.1 k.2).or
          ((fileTree (o.config.map (SourceFile.locate w.files))).at? k.1 k.2)
  /-- With the options over them they are accepted by the rules, unless their own host is blank. -/
  accepted : ∀ e, effective o (o.config.map (SourceFile.locate w.files)) w.fullEnvironment = .ok e ↔
    e = o.over loaded ∧ e.isValid = true ∧ loaded.server.isBlank = false
  /-- Then the program builds its backend and goes on, with these settings. -/
  runs : (o.over loaded).isValid = true → loaded.server.isBlank = false →
    w.run = serve w.machine (o.over loaded)
      (Printer.choose (o.over loaded).logging w.fullEnvironment).1
      (Printer.choose (o.over loaded).logging w.fullEnvironment).2
  /-- Otherwise it ends, and says that the rules are broken. -/
  refused : ¬((o.over loaded).isValid = true ∧ loaded.server.isBlank = false) →
    ∃ v : Violation, w.run = .error ⟨1, [], (Failure.loading (.config v.message)).message⟩ ∨
      w.run = .error ⟨1, [], (Failure.settings (.config v.message)).message⟩
  /-- A blank host that was loaded is refused, whatever the options say. -/
  blank : loaded.server.isBlank = true →
    w.run = .error ⟨1, [], (Failure.loading (.config Violation.emptyHost.message)).message⟩

private theorem run_refused {w : World} {o : Options} (ho : w.options = .ok o) {f : Failure}
    (hf : effective o (o.config.map (SourceFile.locate w.files)) w.fullEnvironment = .error f) :
    w.run = .error ⟨1, [], f.message⟩ := by
  simp only [World.run, ho, hf]

/-- A blank host that was loaded is refused before the options are looked at. -/
theorem run_blank {w : World} {o : Options} (ho : w.options = .ok o) {loaded : Settings}
    (hs : ofEnvironment (o.config.map (SourceFile.locate w.files)) w.fullEnvironment = .ok loaded)
    (hblank : loaded.server.isBlank = true) :
    w.run = .error ⟨1, [], (Failure.loading (.config Violation.emptyHost.message)).message⟩ := by
  have hviolation : loaded.violation = some .emptyHost := by
    unfold Server.isBlank at hblank
    unfold violation Server.violation
    rw [if_pos hblank]
    rfl
  exact run_refused ho (f := .loading (.config _)) (by simp only [effective_eq hs, validate, hviolation])

/-- **Acceptance**: the program gets to its backend exactly if the loaded settings with the options over them
are accepted and no blank host was loaded, and then it runs with exactly those settings. -/
theorem acceptance {w : World} {o : Options} (ho : w.options = .ok o) {loaded : Settings}
    (hs : ofEnvironment (o.config.map (SourceFile.locate w.files)) w.fullEnvironment = .ok loaded) :
    w.Acceptance o loaded := by
  refine ⟨fieldwise_of_environment hs, fun k hk => at?_overlaid hk, effective_ok hs, ?_, ?_,
    run_blank ho hs⟩
  · intro hvalid hblank
    simp only [World.run, ho, (effective_ok hs _).mpr ⟨rfl, hvalid, hblank⟩]
  · intro hrefused
    cases hfirst : loaded.violation with
    | some v =>
        exact ⟨v, Or.inl (run_refused ho (f := .loading (.config v.message))
          (by simp only [effective_eq hs, validate, hfirst]))⟩
    | none =>
        cases hsecond : (o.over loaded).violation with
        | some v =>
            exact ⟨v, Or.inr (run_refused ho (f := .settings (.config v.message))
              (by simp only [effective_eq hs, validate, hfirst, hsecond]))⟩
        | none =>
            have hvalid : (o.over loaded).isValid = true := by simp only [isValid, hsecond]; rfl
            have hloaded : loaded.isValid = true := by simp only [isValid, hfirst]; rfl
            exact absurd ⟨hvalid, (valid_under_options hvalid).mp hloaded⟩ hrefused

/-! ### A world in which every source has its say -/

/-- A file with this host, variables in either case, and options for host, port and file. -/
def World.layered (host : String) : World where
  arguments := ["-c", "config.toml", "--host", "127.0.0.1", "--port", "0"]
  environment := [("SOFTGREP__BACKEND__KIND", "stub"), ("softgrep__logging__format", "compact")]
  files := [("config.toml", "[server]\nhost = \"" ++ host ++ "\"\ndrain_timeout_secs = 2\n")]
  machine := ⟨[], 40000⟩

private theorem layered_options (host : String) (h : host = "0.0.0.0" ∨ host = "") :
    (World.layered host).options = .ok ⟨some "127.0.0.1", some 0, some "config.toml"⟩ := by
  have hoptions : (World.layered host).options.toOption.map id =
      some ⟨some "127.0.0.1", some 0, some "config.toml"⟩ := by
    rcases h with rfl | rfl <;> decide +kernel
  obtain ⟨o, ho, rfl⟩ := exists_ok hoptions
  exact ho

/-- Every field comes from the last source that has it. -/
theorem acceptance_layered :
    let w := World.layered "0.0.0.0"
    let o : Options := ⟨some "127.0.0.1", some 0, some "config.toml"⟩
    let file := o.config.map (SourceFile.locate w.files)
    ∃ loaded, w.options = .ok o ∧ ofEnvironment file w.fullEnvironment = .ok loaded ∧
      (∀ k ∈ fieldNames, SetsWhole w.fullEnvironment k.1 k.2 ∧ (fileTree file).byName k.1 = true) ∧
      loaded.server = ⟨"0.0.0.0", 50051, 2, 500, 10, ["", "softgrep.Model"]⟩ ∧
      loaded.backend.kind = .stub ∧ loaded.logging = ⟨"info", "compact"⟩ ∧
      (o.over loaded).isValid = true ∧ loaded.server.isBlank = false ∧ w.Acceptance o loaded := by
  intro w o file
  have ho : w.options = .ok o := layered_options _ (Or.inl rfl)
  have hloaded : (ofEnvironment file w.fullEnvironment).toOption.map (fun s =>
      (s.server, s.backend.kind, s.logging, (o.over s).isValid, s.server.isBlank)) =
        some (⟨"0.0.0.0", 50051, 2, 500, 10, ["", "softgrep.Model"]⟩, .stub, ⟨"info", "compact"⟩, true,
          false) := by
    decide +kernel
  obtain ⟨loaded, hs, hfields⟩ := exists_ok hloaded
  simp only [Prod.mk.injEq] at hfields
  obtain ⟨hserver, hkind, hlogging, hvalid, hblank⟩ := hfields
  exact ⟨loaded, ho, hs, by decide +kernel, hserver, hkind, hlogging, hvalid, hblank, acceptance ho hs⟩

/-- The file's host is blank, and an option puts another one in its place: the settings that would result
are accepted by every rule, and the program refuses to run with them. -/
theorem host_refused_under_option :
    let w := World.layered ""
    let o : Options := ⟨some "127.0.0.1", some 0, some "config.toml"⟩
    ∃ loaded, w.options = .ok o ∧
      ofEnvironment (o.config.map (SourceFile.locate w.files)) w.fullEnvironment = .ok loaded ∧
      (o.over loaded).server = ⟨"127.0.0.1", 0, 2, 500, 10, ["", "softgrep.Model"]⟩ ∧
      (o.over loaded).isValid = true ∧
      w.run = .error ⟨1, [], "Error: failed to load configuration\n\nCaused by:\n    " ++
        "Configuration error: Server host cannot be empty\n"⟩ := by
  intro w o
  have ho : w.options = .ok o := layered_options _ (Or.inr rfl)
  have hloaded : (ofEnvironment (o.config.map (SourceFile.locate w.files)) w.fullEnvironment).toOption.map
      (fun s => ((o.over s).server, (o.over s).isValid, s.server.isBlank)) =
        some (⟨"127.0.0.1", 0, 2, 500, 10, ["", "softgrep.Model"]⟩, true, true) := by
    decide +kernel
  obtain ⟨loaded, hs, hfields⟩ := exists_ok hloaded
  simp only [Prod.mk.injEq] at hfields
  obtain ⟨hserver, hvalid, hblank⟩ := hfields
  have hmessage : (Failure.loading (.config Violation.emptyHost.message)).message =
      "Error: failed to load configuration\n\nCaused by:\n    " ++
        "Configuration error: Server host cannot be empty\n" := by decide +kernel
  exact ⟨loaded, ho, hs, hserver, hvalid, hmessage ▸ run_blank ho hs hblank⟩

end Cli

end EmbedServer
