/-
The calls that outlast a drain timeout, and who counts them.

  * The supervisor warns about the calls in flight at the end of the drain timeout.  At that moment a
    call waits exactly if its own end is not past.
  * Whoever was told since that a call is cancelled waited when the stop was taken up, and was told so
    by the cancellation, because the backend never says so by itself.

A call that ends by itself at the very end of the drain timeout may be found either way, so both
numbers lie between the number of calls that end later and the number of those that end no sooner.
Without such a call the two are one (`Outlast.eq_of_untied`).
-/
import EmbedServer.Proofs.Lifecycle.Fate

namespace EmbedServer.Lifecycle.Tasks

open Call (Gauges isCancelled Outcome)

variable {σ : Type} {limit deadline : Nat} {t u : Tasks σ}

/-! ### The calls that outlast the drain timeout

A call that ends right at the end of the drain timeout may have been seen to end or not, so the number
cannot be that of one list.  `Outlast` puts it between the numbers of two.
-/

/-- The moment at which the call under a number ends by itself, if one waits. -/
def ownEnd? (t : Tasks σ) (id : Nat) : Option Nat :=
  (t.wire.pending? id).map fun x => t.ownEnd x.2

/-- The calls in flight that end by themselves after a moment. -/
def endingAfter (t : Tasks σ) (moment : Nat) : List Nat :=
  t.wire.computing.filter fun id => (t.ownEnd? id).any (moment < ·)

/-- The calls in flight that end by themselves no sooner than at a moment. -/
def endingFrom (t : Tasks σ) (moment : Nat) : List Nat :=
  t.wire.computing.filter fun id => (t.ownEnd? id).any (moment ≤ ·)

/-- A number of calls that outlast a moment; calls that end right then are counted or not. -/
def Outlast (t : Tasks σ) (moment n : Nat) : Prop :=
  (t.endingAfter moment).length ≤ n ∧ n ≤ (t.endingFrom moment).length

/-- Without a call that ends right then, there is only one such number. -/
theorem Outlast.eq_of_untied {moment n : Nat} (h : t.Outlast moment n)
    (huntied : ∀ id ∈ t.wire.computing, t.ownEnd? id ≠ some moment) :
    n = (t.endingAfter moment).length := by
  have hsame : t.endingFrom moment = t.endingAfter moment := by
    refine List.filter_congr ?_
    intro id hid
    have hne := huntied id hid
    cases hend : t.ownEnd? id with
    | none => rfl
    | some x =>
        rw [hend] at hne
        have hx : x ≠ moment := fun hc => hne (by rw [hc])
        simp only [Option.any_some, decide_eq_decide]
        omega
  have hle := h.2
  rw [hsame] at hle
  exact Nat.le_antisymm hle h.1

private theorem ownEnd?_of_waiting {id : Nat} {e : Http.Exchange σ} {request : Call.Request}
    {p : Call.Pending σ} (he : t.wire.exchanges[id]? = some e) (hp : e.phase = .waiting request p) :
    t.ownEnd? id = some (t.ownEnd p) := by
  rw [ownEnd?, Http.Server.pending?_of_waiting he hp]
  rfl

theorem mem_endingAfter {moment id : Nat} : id ∈ t.endingAfter moment ↔
    ∃ e request p, t.wire.exchanges[id]? = some e ∧ e.phase = .waiting request p ∧
      moment < t.ownEnd p := by
  simp only [endingAfter, List.mem_filter]
  refine ⟨?_, fun ⟨e, request, p, he, hp, hlate⟩ => ⟨?_, ?_⟩⟩
  · rintro ⟨hid, hlate⟩
    obtain ⟨e, request, p, he, hp⟩ := Http.Server.waiting_of_mem_computing hid
    rw [ownEnd?_of_waiting he hp] at hlate
    exact ⟨e, request, p, he, hp, by simpa using hlate⟩
  · exact Http.Server.mem_computing_of_waiting he hp
  · rw [ownEnd?_of_waiting he hp]
    simpa using hlate

theorem mem_endingFrom {moment id : Nat} {e : Http.Exchange σ} {request : Call.Request}
    {p : Call.Pending σ} (he : t.wire.exchanges[id]? = some e) (hp : e.phase = .waiting request p)
    (hlate : moment ≤ t.ownEnd p) : id ∈ t.endingFrom moment := by
  refine List.mem_filter.mpr ⟨Http.Server.mem_computing_of_waiting he hp, ?_⟩
  rw [ownEnd?_of_waiting he hp]
  simpa using hlate

/-- Different numbers that take in all calls that end later, and no call that ends sooner. -/
theorem outlast_of_mem {moment : Nat} {ids : List Nat} (hnodup : ids.Nodup)
    (hall : ∀ id ∈ t.endingAfter moment, id ∈ ids) (honly : ∀ id ∈ ids, id ∈ t.endingFrom moment) :
    t.Outlast moment ids.length :=
  ⟨List.Nodup.length_le_of_subset ((Http.Server.nodup_computing t.wire).filter _) hall,
    List.Nodup.length_le_of_subset hnodup honly⟩

/-! ### The warning -/

/-- While the supervisor waits for the transport and the drain timeout is over, the calls in flight
are those that outlast it. -/
theorem Under.outlast (h : Under t limit deadline u) {timeout : Duration} {limit' deadline' : Nat}
    (hstage : u.stage = .draining timeout limit' deadline') (hlate : limit' ≤ u.now) :
    t.Outlast limit u.wire.computing.length := by
  have hpaced := h.pace.stage
  rw [hstage] at hpaced
  obtain ⟨hlimit, -, hmarks, hnow, -⟩ := hpaced
  refine outlast_of_mem (Http.Server.nodup_computing u.wire) ?_ ?_
  · intro id hid
    obtain ⟨e, request, p, he, hp, hlater⟩ := mem_endingAfter.mp hid
    cases h.calls id e request p he hp with
    | waits he' hnone hown hle =>
        exact Http.Server.mem_computing_of_waiting he' hp
    | ended hle hgot => omega
    | cancelled hge hfired hgot =>
        have hmark := (h.marked hfired).1
        rw [hmarks] at hmark
        cases hmark
  · intro id hid
    obtain ⟨e, request, p, he, hp, -, hown, -⟩ := h.waits_of_mem hid
    exact mem_endingFrom he hp (by omega)

/-- What is planned as a warning gives the right number, at the right moment. -/
def Warned (base : Gauges) (t : Tasks σ) (limit : Nat) (u : Tasks σ) : Prop :=
  ∀ moment n timeout, (moment, .exceed n timeout) ∈ u.planned → moment = limit ∧
    ∃ k, t.Outlast limit k ∧ n = (base.inFlight + UInt64.ofNat k).toNat

theorem Warned.step {base : Gauges} (h : Warned base t limit u) (hu : Under t limit deadline u)
    (hl : Ledger base u) {v : Turn} (hallowed : u.isPrompt v = true) :
    Warned base t limit (u.step v) := by
  intro moment n timeout hmem
  rcases turn_cases v with ⟨exitFirst, rfl⟩ | hv
  · rcases mem_planned_wake hmem with hold | ⟨acts, stage, hsteps, hmoment, ha⟩
    · exact h moment n timeout hold
    · obtain ⟨timeout', limit', deadline', hstage, hlate, hexceed⟩ := hsteps.draining_of_cut ha rfl
      have hout := hu.outlast hstage hlate
      have hpaced := hu.pace.stage
      rw [hstage] at hpaced
      obtain ⟨hlimit, -, -, hnow, -⟩ := hpaced
      have hmoment' : moment = u.now := hmoment
      have hlate' : limit' ≤ u.now := hlate
      have hn : n = u.wire.core.gauges.inFlight.toNat := by
        rcases hexceed with hc | hc <;> cases hc
        rfl
      refine ⟨by omega, _, hout, ?_⟩
      rw [hn, hl.inFlight]
  · have hwake : ∀ exitFirst, v ≠ .wake exitFirst := by
      rcases hv with rfl | hv
      · exact nofun
      · exact hv.1
    rw [planned_step (isPunctual_of_isPrompt hallowed) hwake] at hmem
    exact h moment n timeout hmem

/-! ### The cancelled calls

The count goes by what callers are told, and the calls in flight have numbers.  The two meet in
`ToldSince`: whoever was told since the stop was taken up that a call is cancelled is one of those who
waited then.
-/

/-- Stages that watch change no outcome. -/
theorem Sound.outcome (hs : t.Sound) {id : Nat} {e : Http.Exchange σ} {request : Call.Request}
    {p : Call.Pending σ} (he : t.wire.exchanges[id]? = some e) (hp : e.phase = .waiting request p)
    (moment : Nat) (a : Backend.Answer) : p.outcome moment a = Call.outcomeOf a :=
  (hs.counted id request p (Http.Server.pending?_of_waiting he hp)).outcome moment a

private theorem isCancelled_outcomeOf {a : Backend.Answer} (h : a ≠ .error .cancelled) :
    isCancelled (Call.outcomeOf a) = false := by
  cases a with
  | ok vec => rfl
  | error e =>
      cases e with
      | cancelled => exact absurd rfl h
      | _ => rfl

/-- A backend that never says that a call is cancelled, does not say so in the end of a call. -/
theorem ownAnswer_ne_cancelled (hs : t.Sound)
    (hnever : ∀ state text, (t.wire.core.backend.compute state text).answer ≠ .error .cancelled)
    {id : Nat} {e : Http.Exchange σ} {request : Call.Request} {p : Call.Pending σ}
    (he : t.wire.exchanges[id]? = some e) (hp : e.phase = .waiting request p) :
    t.ownAnswer p ≠ .error .cancelled := by
  unfold ownAnswer Call.Race.ownAnswer
  split
  · obtain ⟨state, text, hc⟩ := hs.asked id request p (Http.Server.pending?_of_waiting he hp)
    rw [hc]
    exact hnever state text
  · simp

/-- Whoever was told since the stop was taken up that a call is cancelled has waited then. -/
def ToldSince (t u : Tasks σ) : Prop := ∃ since, u.answers = t.answers ++ since ∧
  ∀ x ∈ since, isCancelled x.outcome = true → x.id ∈ t.wire.computing

/-- A request that comes during a stop is told at once, and not that it is cancelled. -/
theorem Under.answers_receive (h : Under t limit deadline u) (hs : u.Sound) {r : Http.Request}
    (hallowed : u.isPrompt (.receive r) = true) {o : Outcome} (ho : u.wire.outcomeOf? r = some o) :
    isCancelled o = false := by
  have htodo : u.todo = [] := Decidable.byContradiction fun hne => by
    cases act_of_busy hallowed hne
  unfold Http.Server.outcomeOf? at ho
  split at ho
  · rename_i request _
    obtain ⟨c', after, o', htake, hcalm⟩ := Call.Core.take_calm u.wire.core hs.watched
      (h.late htodo) ⟨request.method, r.metadata⟩ request
    rw [htake] at ho
    rw [← Option.some.inj ho]
    exact hcalm
  · cases ho
  · cases ho

theorem ToldSince.step (hanswers : ToldSince t u) (h : Under t limit deadline u) (hs : u.Sound)
    {v : Turn} (hallowed : u.isPrompt v = true) : ToldSince t (u.step v) := by
  obtain ⟨since, hsince, hall⟩ := hanswers
  have hmore : ∀ x : Answered, (u.step v).answers = u.answers ++ [x] →
      (isCancelled x.outcome = true → x.id ∈ t.wire.computing) → ToldSince t (u.step v) := by
    intro x hx hmem
    refine ⟨since ++ [x], by rw [hx, hsince, List.append_assoc], ?_⟩
    intro y hy
    rcases List.mem_append.mp hy with hy | hy
    · exact hall y hy
    · rw [List.mem_singleton.mp hy]
      exact hmem
  rcases request_cases u v with ⟨r, rfl⟩ | ⟨id, rfl⟩ | ⟨id, rfl⟩ | hun
  · cases ho : u.wire.outcomeOf? r with
    | none => exact ⟨since, by simp [Tasks.step, answer, ho, hsince], hall⟩
    | some o =>
        refine hmore ⟨u.now, u.wire.exchanges.length, o⟩ (by simp [Tasks.step, answer, ho]) ?_
        intro hc
        rw [h.answers_receive hs hallowed ho] at hc
        cases hc
  · rcases look_step u id with ⟨-, -, -, hanswers⟩ |
      ⟨e, request, p, w, c', after, o, he, hp, -, -, -, hanswers⟩
    · exact ⟨since, by rw [hanswers, hsince], hall⟩
    · refine hmore _ hanswers ?_
      intro _
      cases hpend : t.wire.pending? id with
      | some x => exact Http.Server.mem_computing.mpr ⟨x.1, x.2, hpend⟩
      | none =>
          have hnone := h.closed id hpend
          rw [Http.Server.pending?_of_waiting he hp] at hnone
          cases hnone
  · cases hallowed
  · exact ⟨since, by rw [hun.answers, hsince], hall⟩

/-- If the backend never says so, those who were told since are calls that outlast the drain
timeout. -/
theorem ToldSince.outlast (hanswers : ToldSince t u) (h : Under t limit deadline u) (ht : t.Once)
    (hs : t.Sound)
    (hnever : ∀ state text, (t.wire.core.backend.compute state text).answer ≠ .error .cancelled)
    (hpast : ∀ id, id ∉ u.wire.computing) :
    ∃ n, t.Outlast limit n ∧ cancellations u.answers = cancellations t.answers + n := by
  obtain ⟨since, hsince, hall⟩ := hanswers
  have hnodup := h.once.nodup
  rw [hsince, List.map_append, List.nodup_append] at hnodup
  have hmine : ∀ x ∈ since, ∀ id, x.id = id → x ∈ u.answersTo id := by
    intro x hx id hid
    refine List.mem_filter.mpr ⟨?_, by simpa using hid⟩
    rw [hsince]
    exact List.mem_append_right _ hx
  refine ⟨((since.filter fun x => isCancelled x.outcome).map Answered.id).length,
    outlast_of_mem ?_ ?_ ?_, ?_⟩
  · exact (hnodup.2.1).sublist ((List.filter_sublist).map _)
  · intro id hid
    obtain ⟨e, request, p, he, hp, hlater⟩ := mem_endingAfter.mp hid
    have hanswer : (⟨limit, id, Call.outcomeOf (.error .cancelled)⟩ : Answered) ∈ u.answersTo id := by
      cases h.calls id e request p he hp with
      | waits he' hnone hown hle =>
          exact absurd (Http.Server.mem_computing_of_waiting he' hp) (hpast id)
      | ended hle hgot => omega
      | cancelled hge hfired hgot =>
          rw [hgot.answers, hs.outcome he hp]
          exact List.mem_singleton.mpr rfl
    have hmem := (List.mem_filter.mp hanswer).1
    rw [hsince] at hmem
    rcases List.mem_append.mp hmem with hold | hnew
    · have hover := ht.settled _ hold
      rw [Http.Server.pending?_of_waiting he hp] at hover
      cases hover
    · exact List.mem_map.mpr ⟨_, List.mem_filter.mpr ⟨hnew, rfl⟩, rfl⟩
  · intro id hid
    obtain ⟨x, hx, hid'⟩ := List.mem_map.mp hid
    obtain ⟨hx, hc⟩ := List.mem_filter.mp hx
    have hwaited := hall x hx hc
    rw [hid'] at hwaited
    obtain ⟨e, request, p, he, hp⟩ := Http.Server.waiting_of_mem_computing hwaited
    have hanswer := hmine x hx id hid'
    cases h.calls id e request p he hp with
    | waits he' hnone hown hle =>
        rw [hnone] at hanswer
        cases hanswer
    | ended hle hgot =>
        rw [hgot.answers, hs.outcome he hp] at hanswer
        rw [List.mem_singleton.mp hanswer,
          isCancelled_outcomeOf (ownAnswer_ne_cancelled hs hnever he hp)] at hc
        cases hc
    | cancelled hge hfired hgot => exact mem_endingFrom he hp hge
  · rw [hsince, cancellations, cancellations, List.countP_append, List.length_map,
      List.countP_eq_length_filter (l := since)]

end EmbedServer.Lifecycle.Tasks
