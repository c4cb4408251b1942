/-
A session in outline.

Of a session over a channel that keeps its promises, all that can be told from outside is the `Signal`, which
names are notifiers' and which waits are under way: `Outline` is that much, with steps of its own, and
`Session.Sound.run` says that the answers are the same.

The invariant is about the waits (`Wait.Sound`): a search that is under way is one that the channel knows of,
and a wait sleeps only if the channel is closed with the signal not fired.  The second half is what a sleeping
wait needs to stay right: the channel closes only when the owner lets go, and without an owner nobody fires.
-/
import EmbedServer.Cancellation

namespace EmbedServer.Cancellation

/-! ### The channel that counts keeps its promises

A search remembers how many values had been sent when it last looked.  It takes a value only if that
number is another by now, and every value that is sent makes it another.
-/

namespace Counted

variable {α : Type}

/-- A search that has looked at the value there is did not want it, and has not looked at a later one. -/
def Seeks (s : Counted α) (w : Search α) (p : α → Bool) : Prop :=
  w.wanted = p ∧ ∀ n, w.seen = some n → n ≤ s.sends ∧ (n = s.sends → p s.value = false)

/-- The terms in which the channel that counts keeps its promises. -/
def terms (α : Type) : (counted α).Terms := ⟨Counted.closed, Seeks⟩

theorem poll_wanted {s : Counted α} {w : Search α} {p : α → Bool} (h : Seeks s w p)
    (hp : p s.value = true) : s.poll w = .value s.value := by
  obtain ⟨rfl, hseen⟩ := h
  have hne : w.seen ≠ some s.sends := by
    intro heq
    have hnot := (hseen _ heq).2 rfl
    rw [hp] at hnot
    cases hnot
  rw [poll, if_pos ⟨hne, hp⟩]

private theorem poll_unwanted {s : Counted α} {w : Search α} {p : α → Bool} (h : Seeks s w p)
    (hp : p s.value = false) :
    s.poll w = if s.closed then .closed else .pending { w with seen := some s.sends } := by
  obtain ⟨rfl, -⟩ := h
  rw [poll, if_neg (by simp [hp])]

/-- A new value is one that no search has looked at. -/
theorem Seeks.replace {s : Counted α} {w : Search α} {p : α → Bool} (h : Seeks s w p) (a : α) :
    Seeks { s with value := a, sends := s.sends + 1 } w p := by
  refine ⟨h.1, fun n hn => ?_⟩
  have hle := (h.2 n hn).1
  exact ⟨Nat.le_succ_of_le hle, fun heq => absurd heq (Nat.ne_of_lt (Nat.lt_succ_of_le hle))⟩

theorem lawful (α : Type) : (terms α).Lawful where
  new_latest _ := rfl
  new_closed _ := rfl
  read_eq _ _ := rfl
  replace_fst _ _ := rfl
  replace_latest _ _ := rfl
  replace_closed _ _ := rfl
  replace_seeks a h := h.replace a
  close_latest _ := rfl
  close_closed _ := rfl
  close_seeks h := h
  subscribe_quiet _ := ⟨rfl, rfl, id⟩
  clone_quiet _ _ := ⟨rfl, rfl, id⟩
  search_seeks _ _ _ := ⟨rfl, fun _ h => nomatch h⟩
  poll_quiet _ _ := ⟨rfl, rfl, id⟩
  poll_wanted h hp := poll_wanted h hp
  poll_closed h hp hclosed := (poll_unwanted h hp).trans (if_pos hclosed)
  poll_pending {s w p} h hp hclosed := by
    refine ⟨_, (poll_unwanted h hp).trans (if_neg (Bool.eq_false_iff.mp hclosed)), h.1, ?_⟩
    rintro n ⟨⟩
    exact ⟨Nat.le_refl _, fun _ => hp⟩

end Counted

theorem counted_lawful (α : Type) : (counted α).Lawful := ⟨Counted.terms α, Counted.lawful α⟩

/-! ### Waits

A wait that sleeps is never woken.  That is right only because the channel is closed when it falls asleep,
and a closed channel is sent nothing any more.
-/

variable {c : Channel Bool} {t : c.Terms}

theorem Channel.Terms.Quiet.trans {s₁ s₂ s₃ : c.Shared} (h : t.Quiet s₁ s₂) (h' : t.Quiet s₂ s₃) :
    t.Quiet s₁ s₃ :=
  ⟨h'.latest.trans h.latest, h'.closed.trans h.closed, fun hw => h'.seeks (h.seeks hw)⟩

namespace Wait

/-- A wait seeks the value that stands for fired, or sleeps with reason. -/
def Sound (t : c.Terms) (s : c.Shared) : Wait c → Prop
  | .begun _ => True
  | .seeking w => t.Seeks s w id
  | .asleep => t.closed s = true ∧ c.latest s = false

theorem Sound.quiet {s s' : c.Shared} {w : Wait c} (h : w.Sound t s) (hq : t.Quiet s s') :
    w.Sound t s' := by
  cases w with
  | begun r => trivial
  | seeking w => exact hq.seeks h
  | asleep => exact ⟨hq.closed.trans h.1, hq.latest.trans h.2⟩

theorem Sound.close (lawful : t.Lawful) {s : c.Shared} {w : Wait c} (h : w.Sound t s) :
    w.Sound t (c.close s) := by
  cases w with
  | begun r => trivial
  | seeking w => exact lawful.close_seeks h
  | asleep => exact ⟨lawful.close_closed s, (lawful.close_latest s).trans h.2⟩

/-- As long as the channel is open no wait sleeps, so a value that is sent passes none by. -/
theorem Sound.replace (lawful : t.Lawful) {s : c.Shared} {w : Wait c} (h : w.Sound t s)
    (hopen : t.closed s = false) (a : Bool) : w.Sound t (c.replace s a).2 := by
  cases w with
  | begun r => trivial
  | seeking w => exact lawful.replace_seeks a h
  | asleep =>
      have hclosed := h.1
      rw [hopen] at hclosed
      cases hclosed

/-- What a poll makes of a wait: it is over if the signal has fired, and else goes on. -/
structure Polled (t : c.Terms) (s : c.Shared) (r : Option (Wait c) × c.Shared) : Prop where
  quiet : t.Quiet s r.2
  fired : c.latest s = true → r.1 = none
  pending : c.latest s = false → ∃ w, r.1 = some w ∧ w.Sound t r.2

private theorem polled_seek (lawful : t.Lawful) {s : c.Shared} {w : c.Search} (h : t.Seeks s w id) :
    Polled t s (seek s w) := by
  have hquiet := lawful.poll_quiet s w
  cases hfired : c.latest s with
  | true =>
      have hfound := lawful.poll_wanted h hfired
      have hseek : seek s w = (none, (c.poll s w).2) := by
        rw [seek, ← Prod.eta (c.poll s w), hfound]
      rw [hseek]
      refine ⟨hquiet, fun _ => rfl, fun hnot => ?_⟩
      rw [hfired] at hnot
      cases hnot
  | false =>
      cases hclosed : t.closed s with
      | true =>
          have hfound := lawful.poll_closed h hfired hclosed
          have hseek : seek s w = (some .asleep, (c.poll s w).2) := by
            rw [seek, ← Prod.eta (c.poll s w), hfound]
          rw [hseek]
          refine ⟨hquiet, fun hnot => ?_, fun _ => ⟨.asleep, rfl, ?_⟩⟩
          · rw [hfired] at hnot
            cases hnot
          · exact ⟨hquiet.closed.trans hclosed, hquiet.latest.trans hfired⟩
      | false =>
          obtain ⟨w', hfound, hseeks⟩ := lawful.poll_pending h hfired hclosed
          have hseek : seek s w = (some (.seeking w'), (c.poll s w).2) := by
            rw [seek, ← Prod.eta (c.poll s w), hfound]
          rw [hseek]
          refine ⟨hquiet, fun hnot => ?_, fun _ => ⟨.seeking w', rfl, hseeks⟩⟩
          rw [hfired] at hnot
          cases hnot

private theorem polled_poll (lawful : t.Lawful) {s : c.Shared} {w : Wait c} (h : w.Sound t s) :
    Polled t s (w.poll s) := by
  cases w with
  | begun r =>
      have hclone := lawful.clone_quiet s r
      have hseek := polled_seek lawful (lawful.search_seeks (c.clone s r).2 (c.clone s r).1 id)
      refine ⟨hclone.trans hseek.quiet, fun hfired => ?_, fun hfired => ?_⟩
      · exact hseek.fired (hclone.latest.trans hfired)
      · exact hseek.pending (hclone.latest.trans hfired)
  | seeking w => exact polled_seek lawful h
  | asleep =>
      refine ⟨⟨rfl, rfl, id⟩, fun hfired => ?_, fun _ => ⟨.asleep, rfl, h⟩⟩
      rw [h.2] at hfired
      cases hfired

end Wait

/-! ### Sessions

An operation does to the outline what it does to the session, and answers the same.  The sessions of a run
are sound because the channel is closed by nobody but the owner.
-/

/-- What can be told of a session from outside. -/
structure Outline where
  signal : Signal
  notifiers : List String
  waits : List String
  deriving DecidableEq, Repr

namespace Outline

open Session (Op Answer)

def add (o : Outline) (id : String) : Answer × Outline :=
  if id ∈ o.notifiers then (.flag false, o)
  else (.flag true, { o with notifiers := id :: o.notifiers })

/-- The waits without the named one. -/
def without (o : Outline) (id : String) : List String := o.waits.filter (· != id)

def step (o : Outline) : Op → Answer × Outline
  | .subscribe id => if o.signal.held then o.add id else (.released, o)
  | .clone id source => if source ∈ o.notifiers then o.add id else (.flag false, o)
  | .fire =>
    if o.signal.held then (.flag o.signal.fire.1, { o with signal := o.signal.fire.2 })
    else (.released, o)
  | .isFired => (if o.signal.held then .flag o.signal.fired else .released, o)
  | .notified _ => (.flag o.signal.fired, o)
  | .begin id notifier =>
    (.done, if notifier ∈ o.notifiers then { o with waits := id :: o.without id } else o)
  | .poll id =>
    if id ∈ o.waits then
      if o.signal.ready then (.fired, { o with waits := o.without id })
      else (.pending, { o with waits := id :: o.without id })
    else (.pending, o)
  | .release => (.flag o.signal.held, { o with signal := o.signal.release })

def run (o : Outline) : List Op → List Answer
  | [] => []
  | op :: rest => (o.step op).1 :: (o.step op).2.run rest

/-- The outline after some operations. -/
def after (o : Outline) (ops : List Op) : Outline := ops.foldl (fun o op => (o.step op).2) o

end Outline

section Keys

variable {β : Type} {l : List (String × β)} {id : String}

private theorem mem_of_lookup {b : β} (h : l.lookup id = some b) : (id, b) ∈ l := by
  induction l with
  | nil => cases h
  | cons e rest ih =>
      rw [List.lookup_cons] at h
      by_cases hid : id = e.1
      · subst hid
        rw [beq_self_eq_true] at h
        cases h
        exact List.mem_cons_self
      · rw [beq_false_of_ne hid] at h
        exact List.mem_cons_of_mem _ (ih h)

private theorem mem_keys {b : β} (h : l.lookup id = some b) : id ∈ l.map Prod.fst :=
  List.mem_map_of_mem (mem_of_lookup h)

private theorem not_mem_keys (h : l.lookup id = none) : id ∉ l.map Prod.fst := by
  rw [List.lookup_eq_none_iff] at h
  intro hmem
  obtain ⟨e, he, rfl⟩ := List.mem_map.mp hmem
  have hne := h e he
  simp at hne

end Keys

namespace Session

variable {s : Session c}

def outline (s : Session c) : Outline :=
  ⟨⟨c.latest s.shared, s.held⟩, s.notifiers.map Prod.fst, s.waits.map Prod.fst⟩

/-- The channel is open as long as the owner is there, and the waits are sound. -/
structure Sound (t : c.Terms) (s : Session c) : Prop where
  closed : t.closed s.shared = !s.held
  waits : ∀ e ∈ s.waits, e.2.Sound t s.shared

theorem sound_start (lawful : t.Lawful) : (start c).Sound t :=
  ⟨lawful.new_closed false, fun _ h => nomatch h⟩

theorem outline_start (lawful : t.Lawful) : (start c).outline = ⟨Signal.new, [], []⟩ := by
  rw [outline, start, lawful.new_latest]
  rfl

private theorem names_without (s : Session c) (id : String) :
    (s.without id).map Prod.fst = s.outline.without id := by
  rw [without, Outline.without, outline, List.filter_map]
  rfl

theorem mem_notifiers {id : String} {r : c.Receiver} (h : s.notifiers.lookup id = some r) :
    id ∈ s.outline.notifiers := mem_keys h

theorem not_mem_notifiers {id : String} (h : s.notifiers.lookup id = none) :
    id ∉ s.outline.notifiers := not_mem_keys h

private theorem mem_waits {id : String} {w : Wait c} (h : s.waits.lookup id = some w) :
    id ∈ s.outline.waits := mem_keys h

private theorem not_mem_waits {id : String} (h : s.waits.lookup id = none) : id ∉ s.outline.waits :=
  not_mem_keys h

/-- A step does what the outline does, and keeps the session sound. -/
structure Goes (t : c.Terms) (r : Answer × Session c) (r' : Answer × Outline) :
    Prop where
  answer : r.1 = r'.1
  outline : r.2.outline = r'.2
  sound : r.2.Sound t

theorem Sound.stays (h : s.Sound t) (a : Answer) : Goes t (a, s) (a, s.outline) := ⟨rfl, rfl, h⟩

/-- What is done quietly to the channel leaves the waits as they are. -/
theorem Sound.quiet (h : s.Sound t) {shared : c.Shared} (hq : t.Quiet s.shared shared)
    (notifiers : List (String × c.Receiver)) :
    Sound t { s with shared := shared, notifiers := notifiers } :=
  ⟨hq.closed.trans h.closed, fun e he => (h.waits e he).quiet hq⟩

theorem Sound.add (h : s.Sound t) (id : String) {made : c.Receiver × c.Shared}
    (hq : t.Quiet s.shared made.2) : Goes t (s.add id made) (s.outline.add id) := by
  cases hlookup : s.notifiers.lookup id with
  | some r =>
      rw [Session.add, Outline.add, if_pos (mem_notifiers hlookup), hlookup]
      exact h.stays _
  | none =>
      rw [Session.add, Outline.add, if_neg (not_mem_notifiers hlookup), hlookup]
      refine ⟨rfl, ?_, h.quiet hq _⟩
      show outline { s with shared := made.2, notifiers := (id, made.1) :: s.notifiers } = _
      simp only [outline, hq.latest, List.map_cons]

private theorem step_poll_over {id : String} {w : Wait c} (h : s.waits.lookup id = some w)
    (hpoll : (w.poll s.shared).1 = none) :
    s.step (.poll id) =
      (.fired, { s with shared := (w.poll s.shared).2, waits := s.without id }) := by
  rcases hr : w.poll s.shared with ⟨r, shared⟩
  rw [hr] at hpoll
  cases hpoll
  simp only [step, h, hr]

private theorem step_poll_pending {id : String} {w w' : Wait c} (h : s.waits.lookup id = some w)
    (hpoll : (w.poll s.shared).1 = some w') :
    s.step (.poll id) = (.pending,
      { s with shared := (w.poll s.shared).2, waits := (id, w') :: s.without id }) := by
  rcases hr : w.poll s.shared with ⟨r, shared⟩
  rw [hr] at hpoll
  cases hpoll
  simp only [step, h, hr]

theorem Sound.poll (lawful : t.Lawful) (h : s.Sound t) (id : String) :
    Goes t (s.step (.poll id)) (s.outline.step (.poll id)) := by
  simp only [Outline.step]
  cases hw : s.waits.lookup id with
  | none =>
      rw [if_neg (not_mem_waits hw)]
      simp only [Session.step, hw]
      exact h.stays _
  | some w =>
      rw [if_pos (mem_waits hw)]
      have hpolled := Wait.polled_poll lawful (h.waits _ (mem_of_lookup hw))
      have hclosed := hpolled.quiet.closed.trans h.closed
      have hrest : ∀ e ∈ s.without id, e.2.Sound t (w.poll s.shared).2 := by
        intro e he
        exact (h.waits e (List.mem_filter.mp he).1).quiet hpolled.quiet
      cases hfired : c.latest s.shared with
      | true =>
          rw [step_poll_over hw (hpolled.fired hfired),
            if_pos (show s.outline.signal.ready = true from hfired)]
          refine ⟨rfl, ?_, hclosed, hrest⟩
          rw [← names_without]
          simp only [outline, hpolled.quiet.latest]
      | false =>
          obtain ⟨w', hsome, hsound⟩ := hpolled.pending hfired
          rw [step_poll_pending hw hsome,
            if_neg (show ¬s.outline.signal.ready = true from Bool.eq_false_iff.mp hfired)]
          refine ⟨rfl, ?_, hclosed, List.forall_mem_cons.mpr ⟨hsound, hrest⟩⟩
          rw [← names_without]
          simp only [outline, hpolled.quiet.latest, List.map_cons]

theorem Sound.step (lawful : t.Lawful) (h : s.Sound t) (op : Op) :
    Goes t (s.step op) (s.outline.step op) := by
  cases op with
  | subscribe id =>
      simp only [Session.step, Outline.step]
      rw [show s.outline.signal.held = s.held from rfl]
      split
      · exact h.add id (lawful.subscribe_quiet _)
      · exact h.stays _
  | clone id source =>
      simp only [Session.step, Outline.step]
      cases hsource : s.notifiers.lookup source with
      | some r =>
          rw [if_pos (mem_notifiers hsource)]
          exact h.add id (lawful.clone_quiet _ r)
      | none =>
          rw [if_neg (not_mem_notifiers hsource)]
          exact h.stays _
  | fire =>
      simp only [Session.step, Outline.step]
      rw [show s.outline.signal.held = s.held from rfl]
      split
      · rename_i hheld
        -- The owner is there, so the channel is open and no wait sleeps.
        have hopen : t.closed s.shared = false := by rw [h.closed, hheld]; rfl
        refine ⟨?_, ?_, ?_, fun e he => (h.waits e he).replace lawful hopen true⟩
        · rw [lawful.replace_fst]
          rfl
        · simp only [outline, lawful.replace_latest]
          rfl
        · exact (lawful.replace_closed s.shared true).trans h.closed
      · exact h.stays _
  | isFired => exact h.stays _
  | notified id =>
      simp only [Session.step, Outline.step]
      split
      · rw [lawful.read_eq]
        exact h.stays _
      · exact h.stays _
  | begin id notifier =>
      simp only [Session.step, Outline.step]
      cases hnotifier : s.notifiers.lookup notifier with
      | some r =>
          rw [if_pos (mem_notifiers hnotifier)]
          refine ⟨rfl, ?_, h.closed, List.forall_mem_cons.mpr ⟨trivial, ?_⟩⟩
          · rw [← names_without]
            simp only [outline, List.map_cons]
          · exact fun e he => h.waits e (List.mem_filter.mp he).1
      | none =>
          rw [if_neg (not_mem_notifiers hnotifier)]
          exact h.stays _
  | poll id => exact h.poll lawful id
  | release =>
      simp only [Session.step, Outline.step]
      rw [show s.outline.signal.held = s.held from rfl]
      split
      · rename_i hheld
        refine ⟨by rw [hheld], ?_, lawful.close_closed s.shared,
          fun e he => (h.waits e he).close lawful⟩
        simp only [outline, lawful.close_latest]
        rfl
      · rename_i hheld
        have hheld : s.held = false := Bool.eq_false_iff.mpr hheld
        refine ⟨by rw [hheld], ?_, h⟩
        simp only [outline, Signal.release, hheld]

/-- The session after some operations. -/
def after (s : Session c) (ops : List Op) : Session c := ops.foldl (fun s op => (s.step op).2) s

theorem Sound.after (lawful : t.Lawful) (h : s.Sound t) (ops : List Op) :
    (s.after ops).Sound t ∧ (s.after ops).outline = s.outline.after ops := by
  induction ops generalizing s with
  | nil => exact ⟨h, rfl⟩
  | cons op rest ih =>
      have hstep := h.step lawful op
      have hrest := ih hstep.sound
      rw [hstep.outline] at hrest
      exact hrest

/-- **A session answers as its outline does**, whatever the channel does behind its promises. -/
theorem Sound.run (lawful : t.Lawful) (h : s.Sound t) (ops : List Op) :
    s.run ops = s.outline.run ops := by
  induction ops generalizing s with
  | nil => rfl
  | cons op rest ih =>
      have hstep := h.step lawful op
      show (s.step op).1 :: (s.step op).2.run rest = _
      rw [ih hstep.sound, hstep.answer, hstep.outline]
      rfl

end Session

end EmbedServer.Cancellation
