/-
What accepted settings leave room for.

The rules bound what is computed later from the fields they look at: the limit of bodies in bytes, the
deadline of a stop, and the pauses of a remote executor all fit their words.  No rule bounds how long a
cache is to remember answers, and a cache cannot be told to remember them for more than a thousand years.
So the backend is built exactly if it is not told so, and otherwise the program is lost while it starts, with
settings that it has just accepted.
-/
import EmbedServer.Cli.Program
import EmbedServer.Proofs.Backend.Retries

namespace EmbedServer.Settings

/-- Whether the cache is to remember answers for longer than it can. -/
def Backend.outlasts (b : Backend) : Bool :=
  b.cacheEnabled && decide (EmbedServer.Backend.longestLifetime < .ofSecs b.cacheTtlSecs)

/-- A cache can remember answers for a thousand years of 365 days. -/
theorem Backend.outlasts_iff (b : Backend) :
    b.outlasts = true ↔ b.cacheEnabled = true ∧ 31536000000 < b.cacheTtlSecs := by
  have hlong : EmbedServer.Backend.longestLifetime < Duration.ofSecs b.cacheTtlSecs ↔
      31536000000 < b.cacheTtlSecs := by
    rw [Duration.lt_def]
    show 31536000000 * 1000000000 < b.cacheTtlSecs * 1000000000 ↔ _
    omega
  rw [outlasts, Bool.and_eq_true, decide_eq_true_eq, hlong]

/-! ### Building a backend -/

section Building

variable {σ : Type} (peer : Http.Peer σ) (w : σ) {b : Backend}

private theorem ofSettings_outlasting (h : b.outlasts = true) :
    (EmbedServer.Backend.ofSettings peer w b).1 = .error (.lifetimeTooLong (.ofSecs b.cacheTtlSecs)) := by
  simp only [Backend.outlasts, Bool.and_eq_true, decide_eq_true_eq] at h
  unfold EmbedServer.Backend.ofSettings
  simp only [h.1, h.2, if_true]

private theorem ofSettings_ok (h : b.outlasts = false) :
    ∃ built, (EmbedServer.Backend.ofSettings peer w b).1 = .ok built := by
  unfold EmbedServer.Backend.ofSettings
  by_cases hcache : b.cacheEnabled = true
  · have hshort : ¬EmbedServer.Backend.longestLifetime < Duration.ofSecs b.cacheTtlSecs := by
      simpa [Backend.outlasts, hcache] using h
    simp only [hcache, hshort, if_true, if_false]
    exact ⟨_, rfl⟩
  · simp only [hcache]
    exact ⟨_, rfl⟩

end Building

/-- A program that cannot build its backend is lost, and tells the reason and nothing else. -/
theorem serve_outlasting (m : Net.Machine) {s : Settings} (printer : Cli.Printer) (complaints : String)
    (h : s.backend.outlasts = true) :
    ∃ e, Cli.serve m s printer complaints = .error e ∧ e.code = 101 ∧
      e.complaints = complaints ++ "time_to_live is longer than 1000 years" ++ "\n" := by
  have hrefused := ofSettings_outlasting Http.Peer.absent () h
  rcases hbuilt : EmbedServer.Backend.ofSettings Http.Peer.absent () s.backend with ⟨built, events⟩
  rw [hbuilt] at hrefused
  cases hrefused
  exact ⟨_, by simp only [Cli.serve, hbuilt]; rfl, rfl, rfl⟩

/-- The program is lost while it starts exactly if the cache is to remember answers for longer than it
can. -/
theorem serve_lost_iff (m : Net.Machine) (s : Settings) (printer : Cli.Printer) (complaints : String) :
    (∃ e, Cli.serve m s printer complaints = .error e ∧ e.code = 101) ↔ s.backend.outlasts = true := by
  constructor
  · rintro ⟨e, he, hcode⟩
    refine Decidable.byContradiction fun hshort => ?_
    obtain ⟨backend, hok⟩ := ofSettings_ok Http.Peer.absent () (Bool.eq_false_iff.mpr hshort)
    rcases hbuilt : EmbedServer.Backend.ofSettings Http.Peer.absent () s.backend with ⟨built, events⟩
    rw [hbuilt] at hok
    cases hok
    simp only [Cli.serve, hbuilt] at he
    split at he
    · rw [← Except.error.inj he] at hcode
      cases hcode
    · cases he
  · intro h
    obtain ⟨e, he, hcode, -⟩ := serve_outlasting m printer complaints h
    exact ⟨e, he, hcode⟩

/-! ### Accepted settings -/

/-- What settings leave room for. -/
structure Headroom (s : Settings) : Prop where
  /-- The limit of bodies in bytes fits a word. -/
  body : s.server.maxBodySize < Schema.Width.size.count
  /-- A stop has a deadline, unless the clock is within six minutes of the end of time. -/
  deadline : ∀ now, now + (Duration.ofSecs 360).nanos < Lifecycle.endOfTime →
    Lifecycle.deadline? now s.server.drainTimeout s.server.graceMargin =
      some (now + s.server.drainTimeout.nanos + s.server.graceMargin.nanos)
  /-- Every pause of a remote executor fits a word, and so does the power it is worked out from. -/
  pauses : s.backend.kind = .remote → ∀ i ≤ s.backend.maxRetries,
    EmbedServer.Backend.Remote.pauseInWords? i = some (.ofMillis (100 * Nat.pow 2 i))
  /-- The backend can be built if its cache is not to remember answers for longer than it can. -/
  built : s.backend.outlasts = false → ∀ {σ : Type} (peer : Http.Peer σ) (w : σ),
    ∃ b, (EmbedServer.Backend.ofSettings peer w s.backend).1 = .ok b
  /-- Otherwise it cannot. -/
  refused : s.backend.outlasts = true → ∀ {σ : Type} (peer : Http.Peer σ) (w : σ),
    (EmbedServer.Backend.ofSettings peer w s.backend).1 =
      .error (.lifetimeTooLong (.ofSecs s.backend.cacheTtlSecs))
  /-- Then, and only then, the program is lost while it starts. -/
  lost : ∀ m printer complaints,
    (∃ e, Cli.serve m s printer complaints = .error e ∧ e.code = 101) ↔
      s.backend.cacheEnabled = true ∧ 31536000000 < s.backend.cacheTtlSecs
  /-- Its last word is the reason. -/
  word : s.backend.outlasts = true → ∀ m printer complaints, ∃ e,
    Cli.serve m s printer complaints = .error e ∧
      e.complaints = complaints ++ "time_to_live is longer than 1000 years" ++ "\n"

/-- **Accepted settings leave room for all that is computed from them**, but for the time for which a cache is
to remember answers. -/
theorem headroom {s : Settings} (h : s.isValid = true) : s.Headroom := by
  obtain ⟨hserver, hbackend, -⟩ := (isValid_iff s).mp h
  obtain ⟨-, hdrain, hgrace, hbody⟩ := (Server.violation_eq_none s.server).mp hserver
  constructor
  case body =>
    have hsize : s.server.maxBodySize ≤ 104857600 := by
      unfold Server.maxBodySize
      omega
    exact Nat.lt_of_le_of_lt hsize (by decide)
  case deadline =>
    intro now hnow
    have hshort : s.server.drainTimeout.nanos + s.server.graceMargin.nanos ≤
        (Duration.ofSecs 360).nanos := by
      show s.server.drainTimeoutSecs * 1000000000 + s.server.graceMarginMs * 1000000 ≤ 360 * 1000000000
      omega
    have htime : now + s.server.drainTimeout.nanos + s.server.graceMargin.nanos < Lifecycle.endOfTime := by
      omega
    simp only [Lifecycle.deadline?, htime, if_true]
  case pauses =>
    intro hkind i hi
    have hten := Backend.maxRetries_le hbackend hkind
    have hmillis : 100 * Nat.pow 2 i < UInt64.size :=
      EmbedServer.Backend.Remote.millis_mono (Nat.le_trans hi hten) (by decide)
    rw [EmbedServer.Backend.Remote.pauseInWords?_eq hmillis]
    rfl
  case built => exact fun hshort _ peer w => ofSettings_ok peer w hshort
  case refused => exact fun hlong _ peer w => ofSettings_outlasting peer w hlong
  case lost =>
    intro m printer complaints
    rw [serve_lost_iff, Backend.outlasts_iff]
  case word =>
    intro hlong m printer complaints
    obtain ⟨e, he, -, hword⟩ := serve_outlasting m printer complaints hlong
    exact ⟨e, he, hword⟩

/-! ### A cache for a thousand years, and for a second more -/

/-- A remote executor whose answers are remembered for so many seconds. -/
def remembering (secs : Nat) : Settings :=
  { default with
    backend := { Backend.default with kind := .remote, cacheEnabled := true, cacheTtlSecs := secs } }

/-- A thousand years can be remembered. -/
theorem headroom_remembering :
    (remembering 31536000000).isValid = true ∧ (remembering 31536000000).Headroom ∧
      (∃ b, (EmbedServer.Backend.ofSettings Http.Peer.absent () (remembering 31536000000).backend).1 =
        .ok b) ∧
      Lifecycle.deadline? 0 (remembering 31536000000).server.drainTimeout
        (remembering 31536000000).server.graceMargin = some 5500000000 := by
  have hvalid : (remembering 31536000000).isValid = true := by decide +kernel
  have hroom := headroom hvalid
  exact ⟨hvalid, hroom, hroom.built (by decide) _ _, hroom.deadline 0 (by decide)⟩

/-- A second more is accepted as well, and the program is lost with it while it starts. -/
theorem startup_lost :
    (remembering 31536000001).isValid = true ∧
      (∃ r, (EmbedServer.Backend.ofSettings Http.Peer.absent () (remembering 31536000001).backend).1 =
        .error r ∧ r.message = "time_to_live is longer than 1000 years") ∧
      ∃ e, Cli.serve ⟨[], 40000⟩ (remembering 31536000001) ⟨[], .line⟩ "" = .error e ∧ e.code = 101 ∧
        e.complaints = "time_to_live is longer than 1000 years\n" := by
  have hlong : (remembering 31536000001).backend.outlasts = true := by decide
  exact ⟨by decide +kernel, ⟨_, ofSettings_outlasting _ _ hlong, rfl⟩, serve_outlasting _ _ _ hlong⟩

end EmbedServer.Settings
