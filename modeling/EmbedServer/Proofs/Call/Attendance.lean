/-
The gauges of a core whose callers may go away.

Every call that waits has been admitted, and its way back lets it out of flight and counts it as
cancelled if that is its outcome; a caller that goes away takes its call out of flight as well.  So after
any moves the gauges show, on top of what they showed at first, how many admitted calls are open and how
many calls have said that they were cancelled.

As long as nobody cancels, what a call says is what became of its own race: the answer of its
computation, or that the time is up.
-/
import EmbedServer.Backend.Simple
import EmbedServer.Call.Attendance
import EmbedServer.Proofs.Call.Gauges
import EmbedServer.Proofs.Call.Samples

namespace EmbedServer.Call

variable {σ : Type}

/-! ### Gauges that have moved up

The gauges wrap at sixty-four bits, so the account is kept by how far they have moved, and not by what
they show.
-/

namespace Gauges

/-- The gauges with so many more calls in flight, and so many more that were cancelled. -/
def plus (g : Gauges) (inFlight cancelled : Nat) : Gauges where
  inFlight := g.inFlight + inFlight.toUInt64
  cancelled := g.cancelled + cancelled.toUInt64

@[simp] theorem plus_zero (g : Gauges) : g.plus 0 0 = g := by
  simp [plus]

private theorem toUInt64_succ (n : Nat) : (n + 1).toUInt64 = n.toUInt64 + 1 := UInt64.ofNat_add n 1

private theorem enlist_plus (g : Gauges) (n m : Nat) : (g.plus n m).enlist = g.plus (n + 1) m := by
  simp [plus, enlist, toUInt64_succ, UInt64.add_assoc]

private theorem dismiss_plus (g : Gauges) (n m : Nat) : (g.plus (n + 1) m).dismiss = g.plus n m := by
  rw [← enlist_plus, dismiss_enlist]

private theorem settle_plus (g : Gauges) (n m : Nat) (o : Outcome) :
    (g.plus n m).settle o = g.plus n (m + (isCancelled o).toNat) := by
  cases h : isCancelled o <;> simp [plus, settle, h, toUInt64_succ, UInt64.add_assoc]

end Gauges

/-! ### Records -/

/-- A record of a call that waits says that it was admitted and for which race it waits, and its way back
settles its account. -/
def Attendee.Kept (k : Attendee σ) : Prop :=
  ∀ p, k.standing = .waiting p → k.admitted = true ∧ k.race = some p.race ∧ p.Counted

/-- What is counted in a list with one entry replaced. -/
theorem countP_set {α : Type} {q : α → Bool} {xs : List α} {i : Nat} {x y : α} (h : xs[i]? = some x) :
    (xs.set i y).countP q + (q x).toNat = xs.countP q + (q y).toNat := by
  obtain ⟨hi, rfl⟩ := List.getElem?_eq_some_iff.mp h
  have hpos : q xs[i] = true → 0 < xs.countP q := fun hx =>
    List.countP_pos_iff.mpr ⟨_, List.getElem_mem hi, hx⟩
  rw [List.countP_set hi]
  cases hx : q xs[i] <;> cases hy : q y <;> simp_all

namespace Core

/-- A computation that is reached through stages that watch was asked for while the server ran. -/
theorem admits_of_computing {c : Core σ} (hw : ∀ s ∈ c.stages, s.Watches) {context : Context}
    {request : Request} {chunk : Chunk}
    (h : (c.service context request).reached = .computing chunk) : c.admits request = true := by
  have hwraps : (c.service context request).Wraps (dispatch c.state c.health context request) :=
    compose_wraps hw _ context request
  rw [hwraps.reached] at h
  rcases dispatch_cases c context request with ⟨-, o, hdispatch, -⟩ | ⟨hadmits, -⟩
  · rw [hdispatch] at h
    cases h
  · exact hadmits

/-- The race that a call enters for the chunk that it asks a computation for. -/
theorem entered?_computing {c : Core σ} {context : Context} {request : Request} {chunk : Chunk}
    (h : (c.service context request).reached = .computing chunk) (hc : c.cancel.ready = false) :
    c.entered? context request = some (c.awaited (c.service context request) chunk).race := by
  rw [awaited_race]
  simp only [entered?, asked?, h, hc, Bool.false_eq_true, if_false, Option.map_some]

theorem entered?_answered {c : Core σ} {context : Context} {request : Request} {o : Outcome}
    (h : (c.service context request).reached = .answered o) : c.entered? context request = none := by
  simp only [entered?, asked?, h, Option.map_none]

/-- **The record of a call that arrives agrees with what becomes of it**: it has returned, and the gauges
tell its outcome, or it is in flight. -/
theorem attendee_cases (c : Core σ) (hw : ∀ s ∈ c.stages, s.Watches) (context : Context)
    (request : Request) :
    (c.attendee context request).Kept ∧
      ((∃ o, (c.attendee context request).standing = .returned c.now o ∧
          (c.take context request).1.gauges = c.gauges.settle o) ∨
        ((c.attendee context request).inFlight = true ∧
          (c.attendee context request).saysCancelled = false ∧
          (c.take context request).1.gauges = c.gauges.enlist)) := by
  rcases take_counted c hw context request with ⟨c', after, o, htake, -, hg⟩ |
    ⟨c', p, htake, -, -, hg, hp⟩
  · have hstanding : (c.attendee context request).standing = .returned c.now o := by
      simp only [attendee, htake, Progress.standing]
    refine ⟨?_, Or.inl ⟨o, hstanding, by rw [htake]; exact hg⟩⟩
    intro p hp
    rw [hstanding] at hp
    cases hp
  · rcases take_cases c context request with ⟨_, _, _, hdone, -⟩ | ⟨chunk, -, hreached, hc, hwaits⟩
    · rw [htake] at hdone
      cases hdone
    · have hadmitted := admits_of_computing hw hreached
      have hstanding : (c.attendee context request).standing = .waiting p := by
        simp only [attendee, htake, Progress.standing]
      obtain rfl : p = c.awaited (c.service context request) chunk := by
        rw [htake] at hwaits
        cases hwaits
        rfl
      refine ⟨?_, Or.inr ⟨?_, ?_, by rw [htake]; exact hg⟩⟩
      · intro q hq
        rw [hstanding] at hq
        cases hq
        exact ⟨hadmitted, entered?_computing hreached hc, hp⟩
      · simp only [Attendee.inFlight, Attendee.isOpen, hstanding]
        exact (Bool.and_true _).trans hadmitted
      · simp only [Attendee.saysCancelled, hstanding]

end Core

/-! ### The books

The records of the calls are the books.  A call that arrives adds one, a look or the loss of a caller
closes one, and every time the gauges have moved by what the record says.
-/

namespace Attendance

/-- The gauges show, on top of what they showed at first, the calls in flight and the cancelled ones. -/
structure Accounts (base : Gauges) (s : Attendance σ) : Prop where
  watches : ∀ stage ∈ s.core.stages, stage.Watches
  kept : ∀ k ∈ s.calls, k.Kept
  gauges : s.core.gauges = base.plus s.inFlight s.cancelled

theorem accounts_new (c : Core σ) (hw : ∀ s ∈ c.stages, s.Watches) : (new c).Accounts c.gauges where
  watches := hw
  kept := fun _ h => nomatch h
  gauges := (Gauges.plus_zero _).symm

private theorem inFlight_call (s : Attendance σ) (context : Context) (request : Request) :
    (s.call context request).inFlight =
      s.inFlight + (s.core.attendee context request).inFlight.toNat := by
  simp only [inFlight, call, List.countP_append, List.countP_singleton]
  cases (s.core.attendee context request).inFlight <;> rfl

private theorem cancelled_call (s : Attendance σ) (context : Context) (request : Request) :
    (s.call context request).cancelled =
      s.cancelled + (s.core.attendee context request).saysCancelled.toNat := by
  simp only [cancelled, call, List.countP_append, List.countP_singleton]
  cases (s.core.attendee context request).saysCancelled <;> rfl

theorem Accounts.call {base : Gauges} {s : Attendance σ} (h : s.Accounts base) (context : Context)
    (request : Request) : (s.call context request).Accounts base := by
  obtain ⟨hkept, hcase⟩ := Core.attendee_cases s.core h.watches context request
  refine ⟨?_, ?_, ?_⟩
  · exact (Core.same_take s.core context request).stages ▸ h.watches
  · intro k hk
    rcases List.mem_append.mp hk with hk | hk
    · exact h.kept k hk
    · rw [List.mem_singleton.mp hk]
      exact hkept
  · rw [inFlight_call, cancelled_call]
    show (s.core.take context request).1.gauges = _
    rcases hcase with ⟨o, hstanding, hg⟩ | ⟨hin, hcalm, hg⟩
    · rw [hg, h.gauges, Gauges.settle_plus]
      simp [Attendee.inFlight, Attendee.isOpen, Attendee.saysCancelled, hstanding]
    · rw [hg, h.gauges, Gauges.enlist_plus, hin, hcalm]
      rfl

/-- The record of a call that waited, once it is closed: one call less is in flight. -/
theorem counts_close {s : Attendance σ} {id : Nat} {k : Attendee σ} {p : Pending σ}
    (hk : s.calls[id]? = some k) (hkept : k.Kept) (hp : k.standing = .waiting p) (c' : Core σ)
    (k' : Attendee σ) (hclosed : k'.isOpen = false) :
    inFlight ⟨c', s.calls.set id k'⟩ + 1 = s.inFlight ∧
      cancelled ⟨c', s.calls.set id k'⟩ = s.cancelled + k'.saysCancelled.toNat := by
  obtain ⟨hadmitted, -⟩ := hkept p hp
  have hin := countP_set (q := Attendee.inFlight) (y := k') hk
  have hsaid := countP_set (q := Attendee.saysCancelled) (y := k') hk
  have hbefore : k.inFlight = true := by
    simp only [Attendee.inFlight, Attendee.isOpen, hadmitted, hp, Bool.and_true]
  have hafter : k'.inFlight = false := by
    rw [Attendee.inFlight, hclosed, Bool.and_false]
  have hcalm : k.saysCancelled = false := by
    simp only [Attendee.saysCancelled, hp]
  rw [hbefore, hafter] at hin
  rw [hcalm] at hsaid
  exact ⟨hin, hsaid⟩

/-- What a look does: nothing, or a call that waited returns with the answer of its race. -/
theorem look_cases {base : Gauges} {s : Attendance σ} (h : s.Accounts base) (id : Nat) :
    s.look id = s ∨
      ∃ k p w c', s.calls[id]? = some k ∧ k.standing = .waiting p ∧
        p.race.winner? s.core.now s.core.cancel.ready = some w ∧ Core.Same s.core c' ∧
        s.look id = ⟨c', s.calls.set id
          { k with standing := .returned s.core.now (outcomeOf (p.race.answer s.core.handler w)) }⟩ ∧
        c'.gauges = (s.core.gauges.settle (outcomeOf (p.race.answer s.core.handler w))).dismiss := by
  cases hk : s.calls[id]? with
  | none => exact Or.inl (by simp only [look, hk])
  | some k =>
      cases hp : k.standing with
      | returned moment o => exact Or.inl (by simp only [look, hk, hp])
      | dropped => exact Or.inl (by simp only [look, hk, hp])
      | waiting p =>
          cases hw : p.race.winner? s.core.now s.core.cancel.ready with
          | none =>
              have hset : s.calls.set id { k with standing := .waiting p } = s.calls := by
                obtain ⟨hi, hget⟩ := List.getElem?_eq_some_iff.mp hk
                rw [← hp]
                show s.calls.set id k = s.calls
                rw [← hget]
                exact List.set_getElem_self hi
              refine Or.inl ?_
              simp only [look, hk, hp, Core.poll_none _ _ hw, Progress.standing, hset]
          | some w =>
              obtain ⟨-, -, hcounted⟩ := h.kept k (List.mem_of_getElem? hk) p hp
              obtain ⟨c', after, hpoll, hs, hg⟩ := Core.poll_counted s.core hcounted hw
              refine Or.inr ⟨k, p, w, c', rfl, hp, hw, hs, ?_, hg⟩
              simp only [look, hk, hp, hpoll, Progress.standing]

theorem drop_cases (s : Attendance σ) (id : Nat) :
    s.drop id = s ∨
      ∃ k p, s.calls[id]? = some k ∧ k.standing = .waiting p ∧
        s.drop id = ⟨s.core.abandon, s.calls.set id { k with standing := .dropped }⟩ := by
  cases hk : s.calls[id]? with
  | none => exact Or.inl (by simp only [drop, hk])
  | some k =>
      cases hp : k.standing with
      | returned moment o => exact Or.inl (by simp only [drop, hk, hp])
      | dropped => exact Or.inl (by simp only [drop, hk, hp])
      | waiting p => exact Or.inr ⟨k, p, rfl, hp, by simp only [drop, hk, hp]⟩

/-- The records with one of them closed. -/
theorem kept_set {calls : List (Attendee σ)} (h : ∀ k ∈ calls, k.Kept) {k' : Attendee σ}
    (hclosed : k'.isOpen = false) (id : Nat) : ∀ k ∈ calls.set id k', k.Kept := by
  intro k hk
  rcases List.mem_or_eq_of_mem_set hk with hk | rfl
  · exact h k hk
  · intro p hp
    rw [Attendee.isOpen, hp] at hclosed
    cases hclosed

theorem Accounts.look {base : Gauges} {s : Attendance σ} (h : s.Accounts base) (id : Nat) :
    (s.look id).Accounts base := by
  rcases look_cases h id with hlook | ⟨k, p, w, c', hk, hp, -, hs, hlook, hg⟩
  · rw [hlook]
    exact h
  · have hkept := h.kept k (List.mem_of_getElem? hk)
    obtain ⟨hin, hsaid⟩ := counts_close hk hkept hp c'
      { k with standing := .returned s.core.now (outcomeOf (p.race.answer s.core.handler w)) } rfl
    rw [hlook]
    refine ⟨hs.stages ▸ h.watches, kept_set h.kept rfl id, ?_⟩
    rw [hsaid]
    show c'.gauges = _
    rw [hg, h.gauges, ← hin, Gauges.settle_plus, Gauges.dismiss_plus]
    rfl

theorem Accounts.drop {base : Gauges} {s : Attendance σ} (h : s.Accounts base) (id : Nat) :
    (s.drop id).Accounts base := by
  rcases drop_cases s id with hdrop | ⟨k, p, hk, hp, hdrop⟩
  · rw [hdrop]
    exact h
  · have hkept := h.kept k (List.mem_of_getElem? hk)
    obtain ⟨hin, hsaid⟩ := counts_close hk hkept hp s.core.abandon { k with standing := .dropped } rfl
    rw [hdrop]
    refine ⟨h.watches, kept_set h.kept rfl id, ?_⟩
    rw [hsaid]
    show s.core.gauges.dismiss = _
    rw [h.gauges, ← hin, Gauges.dismiss_plus]
    rfl

theorem Accounts.step {base : Gauges} {s : Attendance σ} (h : s.Accounts base) (m : Move) :
    (s.step m).Accounts base := by
  cases m with
  | drop id => exact h.drop id
  | op o =>
      cases o with
      | call context request => exact h.call context request
      | look id => exact h.look id
      | pass time => exact ⟨h.watches, h.kept, h.gauges⟩
      | cancel => exact ⟨h.watches, h.kept, h.gauges⟩
      | advance state => exact ⟨h.watches, h.kept, h.gauges⟩
      | publish key status => exact ⟨h.watches, h.kept, h.gauges⟩

theorem Accounts.run {base : Gauges} {s : Attendance σ} (h : s.Accounts base) (moves : List Move) :
    (s.run moves).Accounts base := by
  induction moves generalizing s with
  | nil => exact h
  | cons m rest ih => exact ih (h.step m)

/-! ### The gauge of calls in flight -/

/-- The gauge of calls in flight is exact. -/
structure Exact (s : Attendance σ) : Prop where
  /-- It shows how many calls were admitted to a computation and have neither returned nor been dropped. -/
  shown : s.core.metrics.inFlight = s.inFlight.toUInt64
  /-- So it has not wrapped around, as long as it has room for that many. -/
  unwrapped : s.inFlight < UInt64.size → s.core.metrics.inFlight.toNat = s.inFlight
  /-- Without such a call it is zero. -/
  idle : (∀ k ∈ s.calls, k.inFlight = false) → s.core.metrics.inFlight = 0
  /-- A call that is not admitted does not move it, and is not in flight. -/
  unmoved : ∀ context request, s.core.admits request = false →
    (s.call context request).core.metrics.inFlight = s.core.metrics.inFlight ∧
      (s.core.attendee context request).inFlight = false

theorem Accounts.exact {base : Gauges} {s : Attendance σ} (h : s.Accounts base)
    (hbase : base.inFlight = 0) : s.Exact := by
  have shown : s.core.metrics.inFlight = s.inFlight.toUInt64 := by
    have hin : s.core.gauges.inFlight = base.inFlight + s.inFlight.toUInt64 := by
      rw [h.gauges]
      rfl
    rw [hbase, UInt64.zero_add] at hin
    exact hin
  refine ⟨shown, ?_, ?_, ?_⟩
  · intro hlt
    rw [shown]
    exact UInt64.toNat_ofNat_of_lt' hlt
  · intro hnone
    have hzero : s.inFlight = 0 := List.countP_eq_zero.mpr fun k hk => by simp [hnone k hk]
    rw [shown, hzero]
    rfl
  · intro context request hadmits
    have hout : (s.core.attendee context request).inFlight = false := by
      simp only [Attendee.inFlight, Core.attendee, hadmits, Bool.false_and]
    refine ⟨?_, hout⟩
    obtain ⟨-, ⟨o, -, hg⟩ | ⟨hin, -⟩⟩ := Core.attendee_cases s.core h.watches context request
    · exact congrArg Gauges.inFlight hg
    · rw [hout] at hin
      cases hin

/-- **The gauge of calls in flight is exact, whatever happens**: calls come and are looked at in any order,
callers go away, time passes, the server changes its state, and somebody cancels. -/
theorem in_flight_exact (c : Core σ) (hw : ∀ stage ∈ c.stages, stage.Watches)
    (hidle : c.metrics.inFlight = 0) (moves : List Move) : ((new c).run moves).Exact :=
  ((accounts_new c hw).run moves).exact hidle

/-- Four computations, of which one is given up, one runs out of time and one is cancelled, a question
about health, and a computation that comes too late. -/
theorem in_flight_exact_mixed :
    let core : Core Unit := .new [.logging, .metrics] ⟨.ofMillis 50, true⟩
      (Backend.stub [] (.ofMillis 60)) () .empty
    let predict : Move := .op (.call ⟨predictPath, []⟩ (.predict (.ofContent "x")))
    let check : Move := .op (.call ⟨checkPath, []⟩ (.check ⟨""⟩))
    let moves : List Move := [predict, predict, .drop 0, check, .op (.pass (.ofMillis 50)),
      .op (.look 1), predict, predict, .op .cancel, .op (.look 3), .op (.advance .stopping), predict]
    let s := (new core).run moves
    core.metrics.inFlight = 0 ∧ (∀ stage ∈ core.stages, stage.Watches) ∧
      s.inFlight = 1 ∧ s.calls.map Attendee.admitted = [true, true, false, true, true, false] ∧
      s.cancelled = 1 ∧ s.Exact := by
  intro core predict check moves s
  have hw : ∀ stage ∈ core.stages, stage.Watches := fun _ h =>
    watches_of_shipped (by simpa [core, Core.new] using h)
  exact ⟨rfl, hw, by decide +kernel, by decide +kernel, by decide +kernel,
    in_flight_exact core hw rfl moves⟩

end Attendance

end EmbedServer.Call
