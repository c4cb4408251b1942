/-
What a history of a cancellation comes to.

Whether a signal has fired is a matter of the history alone: it has if somebody asked for it while the owner
was there (`fires`).  Every answer follows from that and from what the names of a session stand for, so the
statements are proved of outlines, step by step and then for runs.
-/
import EmbedServer.Proofs.Cancellation.Outline

namespace EmbedServer.Cancellation

namespace Session

/-! ### Histories -/

def Op.fires : Op → Bool
  | .fire => true
  | .subscribe _ | .clone .. | .isFired | .notified _ | .begin .. | .poll _ | .release => false

def Op.releases : Op → Bool
  | .release => true
  | .subscribe _ | .clone .. | .fire | .isFired | .notified _ | .begin .. | .poll _ => false

/-- Whether it takes the owner to do this. -/
def Op.ofOwner : Op → Bool
  | .subscribe _ | .fire | .isFired | .release => true
  | .clone .. | .notified _ | .begin .. | .poll _ => false

def Op.polls (id : String) : Op → Bool
  | .poll i => i == id
  | .subscribe _ | .clone .. | .fire | .isFired | .notified _ | .begin .. | .release => false

/-- Whether operations fire the signal: they do if they ask for it while the owner is there. -/
def fires (ops : List Op) : Bool := (ops.takeWhile fun op => !op.releases).any Op.fires

/-- Whether the owner is still there after some operations. -/
def holds (ops : List Op) : Bool := ops.all fun op => !op.releases

/-- Who may be made or moved by an operation. -/
inductive Subject where
  | notifier (id : String)
  | wait (id : String)
  deriving DecidableEq

/-- Who is made or moved by an operation. -/
def Op.moves : Op → Option Subject
  | .subscribe id | .clone id _ => some (.notifier id)
  | .begin id _ | .poll id => some (.wait id)
  | .fire | .isFired | .notified _ | .release => none

/-- Whether an operation has to do with a subject. -/
def Op.concerns (x : Subject) : Op → Bool
  | .subscribe id | .notified id => x == .notifier id
  | .clone id source => x == .notifier id || x == .notifier source
  | .begin id notifier => x == .wait id || x == .notifier notifier
  | .poll id => x == .wait id
  | .fire | .isFired | .release => false

/-- What the polls under a name were answered. -/
def heard (id : String) (ops : List Op) (answers : List Answer) : List Answer :=
  ((ops.zip answers).filter fun e => e.1.polls id).map Prod.snd

private theorem fires_cons (op : Op) (ops : List Op) :
    fires (op :: ops) = (!op.releases && (op.fires || fires ops)) := by
  unfold fires
  rw [List.takeWhile_cons]
  cases op.releases <;> simp

theorem fires_append {ops : List Op} (h : fires ops = true) (more : List Op) :
    fires (ops ++ more) = true := by
  induction ops with
  | nil => cases h
  | cons op rest ih =>
      rw [fires_cons, Bool.and_eq_true, Bool.or_eq_true] at h
      rw [List.cons_append, fires_cons, Bool.and_eq_true, Bool.or_eq_true]
      exact ⟨h.1, h.2.imp_right ih⟩

private theorem holds_cons (op : Op) (ops : List Op) : holds (op :: ops) = (!op.releases && holds ops) :=
  List.all_cons

theorem heard_cons (id : String) (op : Op) (ops : List Op) (a : Answer) (answers : List Answer) :
    heard id (op :: ops) (a :: answers) =
      (if op.polls id then [a] else []) ++ heard id ops answers := by
  unfold heard
  rw [List.zip_cons_cons, List.filter_cons]
  split <;> rfl

end Session

/-! ### Outlines

The outline has no channel in it.  What it answers depends on the signal and on two lists of names, so a
run is followed by looking at one operation at a time.
-/

namespace Outline

open Session (Op Answer Subject)

variable {o o' : Outline}

private theorem add_signal (o : Outline) (id : String) : (o.add id).2.signal = o.signal := by
  unfold add
  split <;> rfl

private theorem add_waits (o : Outline) (id : String) : (o.add id).2.waits = o.waits := by
  unfold add
  split <;> rfl

private theorem mem_add (o : Outline) (id i : String) :
    i ∈ (o.add id).2.notifiers ↔ i = id ∨ i ∈ o.notifiers := by
  unfold add
  split
  · rename_i h
    constructor
    · exact Or.inr
    · rintro (rfl | hi)
      · exact h
      · exact hi
  · exact List.mem_cons

private theorem add_ne_fired (o : Outline) (id : String) : (o.add id).1 ≠ .fired := by
  unfold add
  split <;> exact fun h => nomatch h

/-- What is neither firing nor letting go leaves the signal as it is. -/
theorem signal_step {op : Op} (hfires : op.fires = false) (hreleases : op.releases = false) :
    (o.step op).2.signal = o.signal := by
  cases op with
  | fire => cases hfires
  | release => cases hreleases
  | subscribe id =>
      simp only [step]
      split
      · exact add_signal o id
      · rfl
  | clone id source =>
      simp only [step]
      split
      · exact add_signal o id
      · rfl
  | begin id notifier =>
      simp only [step]
      split <;> rfl
  | poll id =>
      simp only [step]
      split
      · split <;> rfl
      · rfl
  | _ => rfl

/-- The signal after some operations. -/
theorem signal_after (o : Outline) (ops : List Op) :
    (o.after ops).signal =
      ⟨o.signal.fired || (o.signal.held && Session.fires ops), o.signal.held && Session.holds ops⟩ := by
  induction ops generalizing o with
  | nil => simp [after, Session.fires, Session.holds]
  | cons op rest ih =>
      show ((o.step op).2.after rest).signal = _
      rw [ih, Session.fires_cons, Session.holds_cons]
      cases op with
      | fire =>
          cases hheld : o.signal.held <;> simp [step, hheld, Signal.fire, Op.fires, Op.releases]
      | release => simp [step, Signal.release, Op.releases]
      | _ =>
          rw [signal_step rfl rfl]
          simp [Op.fires, Op.releases]

/-- Who is a notifier stays one. -/
theorem mem_notifiers_step {id : String} (h : id ∈ o.notifiers) (op : Op) :
    id ∈ (o.step op).2.notifiers := by
  cases op with
  | subscribe i =>
      simp only [step]
      split
      · exact (mem_add o i id).mpr (.inr h)
      · exact h
  | clone i source =>
      simp only [step]
      split
      · exact (mem_add o i id).mpr (.inr h)
      · exact h
  | fire =>
      simp only [step]
      split <;> exact h
  | begin i notifier =>
      simp only [step]
      split <;> exact h
  | poll i =>
      simp only [step]
      split
      · split <;> exact h
      · exact h
  | _ => exact h

theorem mem_notifiers_after {id : String} (h : id ∈ o.notifiers) (ops : List Op) :
    id ∈ (o.after ops).notifiers := by
  induction ops generalizing o with
  | nil => exact h
  | cons op rest ih => exact ih (mem_notifiers_step h op)

private theorem mem_without {id i : String} : i ∈ o.without id ↔ i ∈ o.waits ∧ i ≠ id := by
  simp [without]

theorem step_poll {id : String} (h : id ∈ o.waits) :
    (o.step (.poll id)).1 = if o.signal.fired then .fired else .pending := by
  simp only [step, Signal.ready, if_pos h]
  exact apply_ite Prod.fst _ _ _

/-- A wait stays under way until a poll finds it ready. -/
theorem mem_waits_step {id : String} (h : id ∈ o.waits) {op : Op}
    (hop : op.polls id = true → (o.step op).1 ≠ .fired) : id ∈ (o.step op).2.waits := by
  cases op with
  | subscribe i =>
      simp only [step]
      split
      · rw [add_waits]
        exact h
      · exact h
  | clone i source =>
      simp only [step]
      split
      · rw [add_waits]
        exact h
      · exact h
  | fire =>
      simp only [step]
      split <;> exact h
  | begin i notifier =>
      simp only [step]
      split
      · by_cases hi : id = i
        · exact hi ▸ List.mem_cons_self
        · exact List.mem_cons_of_mem _ (mem_without.mpr ⟨h, hi⟩)
      · exact h
  | poll i =>
      by_cases hi : id = i
      · subst hi
        have hne := hop (beq_self_eq_true id)
        simp only [step, if_pos h] at hne ⊢
        split
        · rename_i hready
          rw [if_pos hready] at hne
          exact absurd rfl hne
        · exact List.mem_cons_self
      · simp only [step]
        split
        · split
          · exact mem_without.mpr ⟨h, hi⟩
          · exact List.mem_cons_of_mem _ (mem_without.mpr ⟨h, hi⟩)
        · exact h
  | _ => exact h

theorem mem_waits_after {id : String} (h : id ∈ o.waits) {ops : List Op}
    (hheard : .fired ∉ Session.heard id ops (o.run ops)) : id ∈ (o.after ops).waits := by
  induction ops generalizing o with
  | nil => exact h
  | cons op rest ih =>
      rw [run, Session.heard_cons, List.mem_append, not_or] at hheard
      refine ih (mem_waits_step h fun hpolls hfired => ?_) hheard.2
      rw [if_pos hpolls, hfired] at hheard
      exact hheard.1 List.mem_cons_self

/-- A signal that was let go without having fired is never told as fired. -/
theorem fired_not_mem_run (hfired : o.signal.fired = false) (hheld : o.signal.held = false)
    (ops : List Op) : .fired ∉ o.run ops := by
  induction ops generalizing o with
  | nil => exact List.not_mem_nil
  | cons op rest ih =>
      have hsignal := signal_after o [op]
      rw [hfired, hheld] at hsignal
      have hrest := ih (o := (o.step op).2) (congrArg Signal.fired hsignal)
        (congrArg Signal.held hsignal)
      rw [run, List.mem_cons, not_or]
      refine ⟨fun hanswer => ?_, hrest⟩
      cases op with
      | clone id source =>
          simp only [step] at hanswer
          split at hanswer
          · exact add_ne_fired o id hanswer.symm
          · cases hanswer
      | poll id =>
          simp only [step, Signal.ready, hfired] at hanswer
          split at hanswer <;> cases hanswer
      | _ => simp [step, hheld] at hanswer

/-! ### Outlines that differ in one name

To show that somebody else makes no difference, two runs are compared, one with an operation and one
without.  They agree on everything but what the operation makes or moves, and what comes later has nothing
to do with that.
-/

/-- Two outlines that agree on everything but perhaps one subject. -/
structure Alike (x : Subject) (o o' : Outline) : Prop where
  signal : o.signal = o'.signal
  notifiers : ∀ id, x ≠ .notifier id → (id ∈ o.notifiers ↔ id ∈ o'.notifiers)
  waits : ∀ id, x ≠ .wait id → (id ∈ o.waits ↔ id ∈ o'.waits)

namespace Alike

variable {x : Subject}

theorem refl (x : Subject) (o : Outline) : Alike x o o :=
  ⟨rfl, fun _ _ => Iff.rfl, fun _ _ => Iff.rfl⟩

theorem add (h : Alike x o o') {id : String} (hid : x ≠ .notifier id) :
    (o.add id).1 = (o'.add id).1 ∧ Alike x (o.add id).2 (o'.add id).2 := by
  refine ⟨?_, ?_, fun i hi => ?_, fun i hi => ?_⟩
  · simp only [Outline.add, h.notifiers id hid]
    split <;> rfl
  · rw [add_signal, add_signal, h.signal]
  · rw [mem_add, mem_add, h.notifiers i hi]
  · rw [add_waits, add_waits, h.waits i hi]

/-- Taking out a wait that both know, or neither. -/
theorem without (h : Alike x o o') (id : String) {i : String} (hi : x ≠ .wait i) :
    i ∈ o.without id ↔ i ∈ o'.without id := by
  rw [mem_without, mem_without, h.waits i hi]

/-- What does not concern the subject goes the same way. -/
theorem step (h : Alike x o o') {op : Op} (hop : op.concerns x = false) :
    (o.step op).1 = (o'.step op).1 ∧ Alike x (o.step op).2 (o'.step op).2 := by
  cases op with
  | subscribe id =>
      simp only [Outline.step, h.signal]
      split
      · exact h.add (beq_eq_false_iff_ne.mp hop)
      · exact ⟨rfl, h⟩
  | clone id source =>
      obtain ⟨hid, hsource⟩ := Bool.or_eq_false_iff.mp hop
      simp only [Outline.step, h.notifiers source (beq_eq_false_iff_ne.mp hsource)]
      split
      · exact h.add (beq_eq_false_iff_ne.mp hid)
      · exact ⟨rfl, h⟩
  | fire =>
      simp only [Outline.step, h.signal]
      split
      · exact ⟨rfl, rfl, h.notifiers, h.waits⟩
      · exact ⟨rfl, h⟩
  | isFired => exact ⟨by simp only [Outline.step, h.signal], h⟩
  | notified id => exact ⟨by simp only [Outline.step, h.signal], h⟩
  | begin id notifier =>
      obtain ⟨hid, hnotifier⟩ := Bool.or_eq_false_iff.mp hop
      refine ⟨rfl, ?_⟩
      simp only [Outline.step, h.notifiers notifier (beq_eq_false_iff_ne.mp hnotifier)]
      split
      · refine ⟨h.signal, h.notifiers, fun i hi => ?_⟩
        simp only [List.mem_cons, h.without id hi]
      · exact h
  | poll id =>
      simp only [Outline.step, h.waits id (beq_eq_false_iff_ne.mp hop), h.signal]
      split
      · split
        · exact ⟨rfl, rfl, h.notifiers, fun i hi => h.without id hi⟩
        · refine ⟨rfl, rfl, h.notifiers, fun i hi => ?_⟩
          simp only [List.mem_cons, h.without id hi]
      · exact ⟨rfl, h⟩
  | release =>
      refine ⟨by simp only [Outline.step, h.signal], ?_, h.notifiers, h.waits⟩
      simp only [Outline.step, h.signal]

theorem run (h : Alike x o o') {ops : List Op} (hops : ∀ op ∈ ops, op.concerns x = false) :
    o.run ops = o'.run ops := by
  induction ops generalizing o o' with
  | nil => rfl
  | cons op rest ih =>
      obtain ⟨hop, hrest⟩ := List.forall_mem_cons.mp hops
      obtain ⟨hanswer, hnext⟩ := h.step hop
      rw [Outline.run, Outline.run, hanswer, ih hnext hrest]

/-- An operation changes nothing but what it makes or moves. -/
theorem of_moves (o : Outline) {op : Op} (hop : op.moves = some x) : Alike x (o.step op).2 o := by
  have hadd : ∀ id, Alike (.notifier id) (o.add id).2 o := by
    intro id
    refine ⟨add_signal o id, fun i hi => ?_, fun i _ => by rw [add_waits]⟩
    rw [mem_add]
    constructor
    · rintro (rfl | hmem)
      · exact absurd rfl hi
      · exact hmem
    · exact Or.inr
  have hwithout : ∀ {id i : String}, Subject.wait id ≠ .wait i → (i ∈ o.without id ↔ i ∈ o.waits) := by
    intro id i hi
    rw [mem_without]
    exact ⟨And.left, fun hmem => ⟨hmem, fun heq => hi (heq ▸ rfl)⟩⟩
  have hagain : ∀ {id i : String}, Subject.wait id ≠ .wait i →
      (i ∈ id :: o.without id ↔ i ∈ o.waits) := by
    intro id i hi
    rw [List.mem_cons, hwithout hi]
    exact ⟨fun hmem => hmem.resolve_left fun heq => hi (heq ▸ rfl), Or.inr⟩
  cases op with
  | subscribe id =>
      cases hop
      simp only [Outline.step]
      split
      · exact hadd id
      · exact refl _ o
  | clone id source =>
      cases hop
      simp only [Outline.step]
      split
      · exact hadd id
      · exact refl _ o
  | begin id notifier =>
      cases hop
      simp only [Outline.step]
      split
      · exact ⟨rfl, fun _ _ => Iff.rfl, fun i hi => hagain hi⟩
      · exact refl _ o
  | poll id =>
      cases hop
      simp only [Outline.step]
      split
      · split
        · exact ⟨rfl, fun _ _ => Iff.rfl, fun i hi => hwithout hi⟩
        · exact ⟨rfl, fun _ _ => Iff.rfl, fun i hi => hagain hi⟩
      · exact refl _ o
  | _ => cases hop

end Alike

/-- What is neither firing nor letting go makes no difference to anybody but the one it makes or moves. -/
theorem run_step {op : Op} (hfires : op.fires = false) (hreleases : op.releases = false) {ops : List Op}
    (hops : ∀ x, op.moves = some x → ∀ later ∈ ops, later.concerns x = false) :
    (o.step op).2.run ops = o.run ops := by
  cases hmoves : op.moves with
  | some x => exact (Alike.of_moves o hmoves).run (hops x hmoves)
  | none =>
      cases op with
      | fire => cases hfires
      | release => cases hreleases
      | isFired => rfl
      | notified id => rfl
      | _ => cases hmoves

/-- The outline once the owner has let go. -/
def released (o : Outline) : Outline := { o with signal := o.signal.release }

/-- What does not take an owner can change places with the owner's letting go. -/
theorem step_released (o : Outline) {op : Op} (hop : op.ofOwner = false) :
    o.released.step op = ((o.step op).1, (o.step op).2.released) := by
  cases op with
  | clone id source =>
      have hadd : o.released.add id = ((o.add id).1, (o.add id).2.released) := by
        unfold add
        split
        · rename_i hid
          rw [if_pos (show id ∈ o.notifiers from hid)]
        · rename_i hid
          rw [if_neg (show id ∉ o.notifiers from hid)]
          rfl
      by_cases hsource : source ∈ o.notifiers
      · simp only [step, if_pos hsource, if_pos (show source ∈ o.released.notifiers from hsource), hadd]
      · simp only [step, if_neg hsource, if_neg (show source ∉ o.released.notifiers from hsource)]
  | notified id => rfl
  | begin id notifier =>
      by_cases hnotifier : notifier ∈ o.notifiers
      · simp only [step, if_pos hnotifier, if_pos (show notifier ∈ o.released.notifiers from hnotifier)]
        rfl
      · simp only [step, if_neg hnotifier, if_neg (show notifier ∉ o.released.notifiers from hnotifier)]
  | poll id =>
      by_cases hid : id ∈ o.waits
      · simp only [step, if_pos hid, if_pos (show id ∈ o.released.waits from hid)]
        cases hready : o.signal.ready with
        | true =>
            rw [if_pos (show o.released.signal.ready = true from hready), if_pos rfl]
            rfl
        | false =>
            rw [if_neg (show ¬o.released.signal.ready = true from Bool.eq_false_iff.mp hready),
              if_neg Bool.false_ne_true]
            rfl
      · simp only [step, if_neg hid, if_neg (show id ∉ o.released.waits from hid)]
  | _ => cases hop

/-- Letting go makes no difference to what does not take an owner. -/
theorem run_released (o : Outline) {ops : List Op} (hops : ∀ op ∈ ops, op.ofOwner = false) :
    o.released.run ops = o.run ops := by
  induction ops generalizing o with
  | nil => rfl
  | cons op rest ih =>
      obtain ⟨hop, hrest⟩ := List.forall_mem_cons.mp hops
      rw [run, run, step_released o hop, ih _ hrest]

end Outline

end EmbedServer.Cancellation
