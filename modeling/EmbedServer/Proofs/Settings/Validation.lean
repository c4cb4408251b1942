/-
What is true of settings that are accepted.

The rules are tried in order, so that all of them are kept if none is reported: the settings are accepted
if the server, the backend and the logging each keep their own, and a part keeps its own if none of its
conditions holds.
-/
import EmbedServer.Settings.Load

namespace EmbedServer.Settings

/-- Whether the host is blank. -/
def Server.isBlank (s : Server) : Bool := (Text.trim s.host).isEmpty

/-- A rule is kept if its condition does not hold; then it is for the next one. -/
theorem rule_eq_none {condition : Prop} [Decidable condition] {v : Violation} {next : Option Violation} :
    (if condition then some v else next) = none ↔ ¬condition ∧ next = none := by
  by_cases h : condition <;> simp [h]

theorem Server.violation_eq_none (s : Server) :
    s.violation = none ↔ s.isBlank = false ∧ s.drainTimeoutSecs ≤ 300 ∧ s.graceMarginMs ≤ 60000 ∧
      s.maxBodySizeMb ≤ 100 := by
  unfold violation isBlank
  rw [rule_eq_none, rule_eq_none, rule_eq_none, rule_eq_none, Bool.not_eq_true, Nat.not_lt,
    Nat.not_lt, Nat.not_lt]
  simp only [and_true]

theorem isValid_iff (s : Settings) :
    s.isValid = true ↔
      s.server.violation = none ∧ s.backend.violation = none ∧ s.logging.violation = none := by
  simp [isValid, violation]

theorem validate_ok {s t : Settings} : validate s = .ok t ↔ t = s ∧ s.isValid = true := by
  unfold validate isValid
  cases s.violation with
  | none => simp [eq_comm]
  | some v => simp

/-- A remote executor is not asked more than ten times again. -/
theorem Backend.maxRetries_le {b : Backend} (h : b.violation = none) (hkind : b.kind = .remote) :
    b.maxRetries ≤ 10 := by
  rw [violation, rule_eq_none, rule_eq_none, Option.or_eq_none_iff, kindViolation, hkind] at h
  obtain ⟨-, -, hrules, -⟩ := h
  rw [rule_eq_none, rule_eq_none] at hrules
  exact Nat.le_of_not_lt hrules.2.1

end EmbedServer.Settings
