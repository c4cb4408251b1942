/-
What a follower hears.

The count of the writes to a key goes up with every write, and a follower keeps the count it has seen.
So the one thing to know about a follower is whether it has something due: at the start it has, a
write makes it due, a poll settles it, and nothing else makes a difference.  `Follows` says that much
of a session, `Follows.step` and `Follows.poll` are the two kinds of step, and `Follows.run` puts them
together for a run in which the polls had nothing to yield.

Once the registry is gone, or if the key has never been there, a follower has at most one status left:
`Ending` is that state, and no operation brings it back.

A follower is none of the business of another one: two sessions that agree on the registry and on one
follower agree on them ever after.
-/
import EmbedServer.Proofs.Health.History

namespace EmbedServer.Health.Session

/-! ### What is heard, step by step -/

private theorem heard_nil (id : String) (s : Session) : heard id s [] = [] := rfl

theorem heard_cons (id : String) (s : Session) (op : Op) (rest : List Op) :
    heard id s (op :: rest) =
      (if op.polls id then [(s.step op).1] else []) ++ heard id (s.step op).2 rest := by
  show ((List.filter _ ((op, (s.step op).1) :: _)).map Prod.snd) = _
  rw [List.filter_cons]
  split <;> rfl

/-! ### The followers of a session -/

private theorem lookup_without (s : Session) (id i : String) :
    (s.without i).lookup id = if id = i then none else s.watches.lookup id := by
  rw [without]
  induction s.watches with
  | nil => simp
  | cons entry rest ih =>
      obtain ⟨j, w⟩ := entry
      by_cases hj : j = i
      · rw [List.filter_cons_of_neg (by simp [hj]), ih, hj]
        by_cases hid : id = i
        · rw [if_pos hid, if_pos hid]
        · rw [if_neg hid, if_neg hid, List.lookup_cons, beq_false_of_ne hid]
      · rw [List.filter_cons_of_pos (by simp [hj]), List.lookup_cons, List.lookup_cons, ih]
        by_cases hid : id = i
        · rw [if_pos hid, if_pos hid, hid, beq_false_of_ne (Ne.symm hj)]
        · rw [if_neg hid, if_neg hid]

/-- A follower that is put in the place of another. -/
theorem lookup_put (s : Session) (id i : String) (w : Watch) :
    ((i, w) :: s.without i).lookup id = if id = i then some w else s.watches.lookup id := by
  rw [List.lookup_cons, lookup_without]
  by_cases hid : id = i
  · simp [hid]
  · rw [beq_false_of_ne hid, if_neg hid, if_neg hid]

private theorem lookup_release (r : Registry) (watches : List (String × Watch)) (id : String) :
    (watches.map fun (i, w) => (i, w.release r)).lookup id =
      (watches.lookup id).map (Watch.release r) := by
  induction watches with
  | nil => rfl
  | cons entry rest ih =>
      rw [List.map_cons, List.lookup_cons, List.lookup_cons, ih]
      cases id == entry.1 <;> rfl

theorem step_poll {s : Session} {id : String} {w : Watch} (h : s.watches.lookup id = some w) :
    s.step (.poll id) = (.poll (w.poll s.registry).1,
      { s with watches := (id, (w.poll s.registry).2) :: s.without id }) := by
  simp only [step, h]

/-- What is not about a follower leaves it as it is, as long as the registry stays. -/
theorem lookup_step {s : Session} {op : Op} {id : String} (hop : op.concerns id = false)
    (hreset : op ≠ .reset) : (s.step op).2.watches.lookup id = s.watches.lookup id := by
  have hne : ∀ i : String, (i == id) = false → id ≠ i := by
    intro i hi heq
    rw [heq, beq_self_eq_true] at hi
    cases hi
  cases op with
  | «open» i key => exact (lookup_put s id i _).trans (if_neg (hne i hop))
  | close i => exact (lookup_without s id i).trans (if_neg (hne i hop))
  | poll i =>
      cases hw : s.watches.lookup i with
      | none => simp only [step, hw]
      | some w =>
          rw [step_poll hw]
          exact (lookup_put s id i _).trans (if_neg (hne i hop))
  | reset => exact absurd rfl hreset
  | _ => rfl

/-! ### What is written to a key -/

/-- An operation writes to a key that is there, and counts up, or leaves its entry alone. -/
theorem find?_step {s : Session} (h : s.registry.Sorted) {op : Op} (hreset : op ≠ .reset)
    {key : String} {e : Entry} (he : s.registry.find? key = some e) :
    ∃ e', (s.step op).2.registry.find? key = some e' ∧
      if op.writes s.registry key then e'.version = e.version + 1 else e' = e := by
  have hkey : key ∈ s.registry.keys := Registry.mem_keys_iff.mpr ⟨e, he⟩
  cases op with
  | set k status =>
      show ∃ e', (s.registry.set k status).find? key = some e' ∧ _
      cases hfrozen : s.registry.frozen with
      | true =>
          rw [Registry.set_of_frozen hfrozen]
          exact ⟨e, he, by simp [Op.writes, hfrozen]⟩
      | false =>
          have hset : s.registry.set k status = s.registry.store k status := by
            rw [Registry.set, hfrozen]
            rfl
          rw [hset]
          by_cases hk : key = k
          · subst hk
            exact ⟨_, Registry.lookup_write_self h he status, by simp [Op.writes, hfrozen]⟩
          · refine ⟨e, (Registry.lookup_write_ne hk status _).trans he, ?_⟩
            simp [Op.writes, Ne.symm hk]
  | setAll status =>
      show ∃ e', (s.registry.setAll status).find? key = some e' ∧ _
      cases hfrozen : s.registry.frozen with
      | true =>
          rw [Registry.setAll_of_frozen hfrozen]
          exact ⟨e, he, by simp [Op.writes, hfrozen]⟩
      | false =>
          rw [Registry.find?_setAll hfrozen, he]
          exact ⟨_, rfl, by simp [Op.writes, hfrozen, hkey]⟩
  | freeze =>
      show ∃ e', s.registry.freeze.find? key = some e' ∧ _
      rw [Registry.find?_freeze, he]
      exact ⟨_, rfl, by simp [Op.writes, hkey]⟩
  | reset => exact absurd rfl hreset
  | _ =>
      rw [registry_step rfl]
      exact ⟨e, he, by simp [Op.writes]⟩

/-! ### A follower of a key that is there

Whether something is due is all that is left of the count that a follower keeps.  What a poll answers and
what it leaves due both go by it.
-/

/-- A follower of a key that is there, and whether something is due. -/
def Follows (s : Session) (id key : String) (due : Bool) : Prop :=
  s.registry.Sorted ∧ ∃ seen e, s.watches.lookup id = some (.following key seen) ∧
    s.registry.find? key = some e ∧ (∀ v, seen = some v → v ≤ e.version) ∧
    (due = true ↔ seen ≠ some e.version)

private theorem follows_open {s : Session} (h : s.registry.Sorted) (id : String) {key : String}
    (hkey : key ∈ s.registry.keys) : Follows (s.step (.open id key)).2 id key true := by
  obtain ⟨e, he⟩ := Registry.mem_keys_iff.mp hkey
  refine ⟨h, none, e, ?_, he, fun v hv => (by cases hv), by simp⟩
  refine (lookup_put s id id _).trans ?_
  rw [if_pos rfl, Watch.start, he]

/-- A write makes a status due, and what is not about the follower changes nothing else. -/
theorem Follows.step {s : Session} {id key : String} {due : Bool} (h : Follows s id key due)
    {op : Op} (hop : op.concerns id = false) (hreset : op ≠ .reset) :
    Follows (s.step op).2 id key (due || op.writes s.registry key) := by
  obtain ⟨hsorted, seen, e, hlookup, he, hle, hdue⟩ := h
  obtain ⟨e', he', hwrites⟩ := find?_step hsorted hreset he
  refine ⟨sorted_step hsorted op, seen, e', (lookup_step hop hreset).trans hlookup, he', ?_⟩
  cases hw : op.writes s.registry key with
  | true =>
      rw [hw, if_pos rfl] at hwrites
      refine ⟨fun v hv => ?_, ?_⟩
      · have hv' := hle v hv
        omega
      · rw [Bool.or_true, eq_self, true_iff]
        intro hseen
        have hv' := hle _ hseen
        omega
  | false =>
      rw [hw, if_neg Bool.false_ne_true] at hwrites
      rw [hwrites, Bool.or_false]
      exact ⟨hle, hdue⟩

theorem Follows.get_unwritten {s : Session} {id key : String} {due : Bool}
    (h : Follows s id key due) {op : Op} (hreset : op ≠ .reset)
    (hw : op.writes s.registry key = false) :
    (s.step op).2.registry.get key = s.registry.get key := by
  obtain ⟨hsorted, _, e, -, he, -⟩ := h
  obtain ⟨e', he', hwrites⟩ := find?_step hsorted hreset he
  rw [hw, if_neg Bool.false_ne_true] at hwrites
  rw [Registry.get_of_find? he', hwrites, Registry.get_of_find? he]

/-- A poll yields the present status if something is due, and settles it. -/
theorem Follows.poll {s : Session} {id key : String} {due : Bool} (h : Follows s id key due) :
    (s.step (.poll id)).1 =
        .poll (if due then .yields (s.registry.get key) else .pending) ∧
      Follows (s.step (.poll id)).2 id key false := by
  obtain ⟨hsorted, seen, e, hlookup, he, hle, hdue⟩ := h
  rw [step_poll hlookup, Registry.get_of_find? he]
  simp only [Watch.poll, he]
  cases due with
  | true =>
      have hne : seen ≠ some e.version := hdue.mp rfl
      rw [if_neg hne, if_pos rfl]
      refine ⟨rfl, hsorted, some e.version, e, ?_, he, ?_, by simp⟩
      · exact (lookup_put s id id _).trans (if_pos rfl)
      · intro v hv
        cases hv
        exact Nat.le_refl _
  | false =>
      have heq : seen = some e.version := Decidable.not_not.mp fun hc => Bool.false_ne_true (hdue.mpr hc)
      rw [if_pos heq, if_neg Bool.false_ne_true]
      refine ⟨rfl, hsorted, seen, e, ?_, he, hle, by simp [heq]⟩
      exact (lookup_put s id id _).trans (if_pos rfl)

private theorem eq_poll {op : Op} {id : String} (h : op.polls id = true) : op = .poll id := by
  cases op with
  | poll i => exact congrArg Op.poll (beq_iff_eq.mp h)
  | _ => cases h

private theorem concerns_of_leaves {op : Op} {id : String} (h : op.leaves id = true)
    (hpolls : op.polls id = false) : op.concerns id = false := by
  cases op with
  | poll i => exact hpolls
  | «open» i key => simpa [Op.leaves, Op.concerns] using h
  | close i => simpa [Op.leaves, Op.concerns] using h
  | _ => rfl

/-- If the polls of a run had nothing to yield, a status is due at its end exactly if one was due
before or the key has been written. -/
theorem Follows.run {s : Session} {id key : String} {due : Bool} (h : Follows s id key due)
    {ops : List Op} (hops : ∀ op ∈ ops, op.leaves id = true ∧ op ≠ .reset)
    (hheard : ∀ a ∈ heard id s ops, a = .poll .pending) :
    Follows (s.run ops).2 id key (due || written key s ops) := by
  induction ops generalizing s due with
  | nil =>
      rw [written, Bool.or_false]
      exact h
  | cons op rest ih =>
      obtain ⟨⟨hleaves, hreset⟩, hrest⟩ := List.forall_mem_cons.mp hops
      rw [heard_cons] at hheard
      have hheard' : ∀ a ∈ heard id (s.step op).2 rest, a = .poll .pending :=
        fun a ha => hheard a (List.mem_append_right _ ha)
      rw [run_cons, written, ← Bool.or_assoc]
      cases hpolls : op.polls id with
      | true =>
          cases eq_poll hpolls
          obtain ⟨hanswer, hnext⟩ := h.poll
          have hpending : (s.step (.poll id)).1 = .poll .pending := hheard _ (by simp [hpolls])
          -- Something due would have been yielded.
          have hdue : due = false := by
            rw [hanswer] at hpending
            cases due with
            | true => cases hpending
            | false => rfl
          rw [hdue]
          exact ih hnext hrest hheard'
      | false => exact ih (h.step (concerns_of_leaves hleaves hpolls) hreset) hrest hheard'

/-- What is heard ends with a status, and polls that had nothing to yield after it. -/
def EndsWith (answers : List Answer) (status : Status) : Prop :=
  ∃ front n, answers = front ++ .poll (.yields status) :: List.replicate n (.poll .pending)

theorem EndsWith.pending {answers : List Answer} {status : Status} (h : EndsWith answers status) :
    EndsWith (answers ++ [.poll .pending]) status := by
  obtain ⟨front, n, rfl⟩ := h
  exact ⟨front, n + 1, by rw [List.append_assoc, List.cons_append, ← List.replicate_succ']⟩

/-- As long as nothing is due, the present status is the one that was heard last. -/
theorem Follows.caught {s : Session} {id key : String} {due : Bool} (h : Follows s id key due)
    (before : List Answer) (hbefore : due = false → EndsWith before (s.registry.get key))
    {ops : List Op} (hops : ∀ op ∈ ops, op.leaves id = true ∧ op ≠ .reset) :
    ∃ due, Follows (s.run ops).2 id key due ∧
      (due = false → EndsWith (before ++ heard id s ops) ((s.run ops).2.registry.get key)) := by
  induction ops generalizing s due before with
  | nil =>
      rw [heard_nil, List.append_nil]
      exact ⟨due, h, hbefore⟩
  | cons op rest ih =>
      obtain ⟨⟨hleaves, hreset⟩, hrest⟩ := List.forall_mem_cons.mp hops
      rw [run_cons, heard_cons, ← List.append_assoc]
      cases hpolls : op.polls id with
      | true =>
          cases eq_poll hpolls
          obtain ⟨hanswer, hnext⟩ := h.poll
          refine ih hnext _ (fun _ => ?_) hrest
          rw [if_pos rfl, hanswer, registry_step rfl]
          cases due with
          | true => exact ⟨before, 0, rfl⟩
          | false => exact (hbefore rfl).pending
      | false =>
          refine ih (h.step (concerns_of_leaves hleaves hpolls) hreset) _ (fun hdue => ?_) hrest
          obtain ⟨hdue, hw⟩ := Bool.or_eq_false_iff.mp hdue
          rw [if_neg Bool.false_ne_true, List.append_nil, h.get_unwritten hreset hw]
          exact hbefore hdue

/-! ### A follower with at most one status left

A follower comes here when the registry goes, or starts here if its key was never set.  There is no way
back, whatever is written later.
-/

/-- A follower that has at most one status left to yield. -/
def Ending (s : Session) (id : String) (last : Option Status) : Prop :=
  s.watches.lookup id = some (.ending last)

private theorem ending_open {s : Session} (id : String) {key : String} (hkey : key ∉ s.registry.keys) :
    Ending (s.step (.open id key)).2 id (some .unknown) := by
  refine (lookup_put s id id _).trans ?_
  rw [if_pos rfl, Watch.start, Registry.find?_of_not_mem hkey]

theorem Follows.reset {s : Session} {id key : String} {due : Bool} (h : Follows s id key due) :
    Ending (s.step .reset).2 id (if due then some (s.registry.get key) else none) := by
  obtain ⟨-, seen, e, hlookup, he, -, hdue⟩ := h
  refine (lookup_release s.registry s.watches id).trans ?_
  rw [hlookup, Registry.get_of_find? he, Option.map_some]
  simp only [Watch.release, he]
  cases due with
  | true => rw [if_neg (hdue.mp rfl), if_pos rfl]
  | false =>
      have heq : seen = some e.version := Decidable.not_not.mp fun hc => Bool.false_ne_true (hdue.mpr hc)
      rw [if_pos heq, if_neg Bool.false_ne_true]

theorem Ending.step {s : Session} {id : String} {last : Option Status} (h : Ending s id last)
    {op : Op} (hop : op.concerns id = false) : Ending (s.step op).2 id last := by
  by_cases hreset : op = .reset
  · subst hreset
    refine (lookup_release s.registry s.watches id).trans ?_
    rw [h]
    rfl
  · exact (lookup_step hop hreset).trans h

private theorem onceThenEnd_none (n : Nat) : onceThenEnd none n = List.replicate n (.poll .ended) := by
  simp [onceThenEnd]

private theorem onceThenEnd_some (status : Status) (n : Nat) :
    onceThenEnd (some status) (n + 1) =
      .poll (.yields status) :: List.replicate n (.poll .ended) := by
  simp [onceThenEnd, List.take_replicate]

/-- Such a follower yields the status once, if there is one, and then ends for good. -/
theorem Ending.run {s : Session} {id : String} {last : Option Status} (h : Ending s id last)
    {ops : List Op} (hops : ∀ op ∈ ops, op.leaves id = true) :
    heard id s ops = onceThenEnd last (ops.countP (Op.polls id)) := by
  induction ops generalizing s last with
  | nil => rfl
  | cons op rest ih =>
      obtain ⟨hleaves, hrest⟩ := List.forall_mem_cons.mp hops
      rw [heard_cons, List.countP_cons]
      cases hpolls : op.polls id with
      | true =>
          cases eq_poll hpolls
          have hnext : Ending (s.step (.poll id)).2 id none := by
            rw [step_poll h]
            refine (lookup_put s id id _).trans ((if_pos rfl).trans ?_)
            cases last <;> rfl
          rw [ih hnext hrest, step_poll h]
          cases last with
          | none => rfl
          | some status => 
              rw [onceThenEnd_none, if_pos rfl, if_pos rfl, onceThenEnd_some]
              rfl
      | false => exact ih (h.step (concerns_of_leaves hleaves hpolls)) hrest

/-! ### Followers among themselves

A session may have any number of followers, while the statements above are about one.  So the sessions
compared are the same but for the other followers.
-/

/-- Two sessions agree on the registry and on one follower. -/
def Agree (id : String) (s t : Session) : Prop :=
  s.registry = t.registry ∧ s.watches.lookup id = t.watches.lookup id

/-- What is not about a follower makes no difference to it, and none to the registry if it is about
another one. -/
theorem agree_step {op : Op} {i id : String} (hop : op.concerns i = true) (hne : i ≠ id)
    (s : Session) : Agree id (s.step op).2 s := by
  have hid : op.concerns id = false := by
    cases op <;> simp_all [Op.concerns]
  have hlooks : op.looks = true := by
    cases op with
    | set _ _ => cases hop
    | setAll _ => cases hop
    | freeze => cases hop
    | reset => cases hop
    | _ => rfl
  have hreset : op ≠ .reset := fun heq => by cases heq; cases hop
  exact ⟨registry_step hlooks, lookup_step hid hreset⟩

private theorem registry_congr {s t : Session} (h : s.registry = t.registry) (op : Op) :
    (s.step op).2.registry = (t.step op).2.registry := by
  cases op with
  | set key status => exact congrArg (·.set key status) h
  | setAll status => exact congrArg (·.setAll status) h
  | freeze => exact congrArg Registry.freeze h
  | reset => rfl
  | _ => rw [registry_step rfl, registry_step rfl, h]

theorem Agree.step {id : String} {s t : Session} (h : Agree id s t) (op : Op) :
    Agree id (s.step op).2 (t.step op).2 ∧
      (op.polls id = true → (s.step op).1 = (t.step op).1) := by
  obtain ⟨hregistry, hlookup⟩ := h
  have hregistry' := registry_congr hregistry op
  cases hop : op.concerns id with
  | false =>
      have hpolls : ¬op.polls id = true := by
        intro hpolls
        rw [eq_poll hpolls, Op.concerns, beq_self_eq_true] at hop
        cases hop
      refine ⟨⟨hregistry', ?_⟩, fun hc => absurd hc hpolls⟩
      by_cases hreset : op = .reset
      · subst hreset
        refine (lookup_release s.registry s.watches id).trans ?_
        rw [hregistry, hlookup]
        exact (lookup_release t.registry t.watches id).symm
      · rw [lookup_step hop hreset, lookup_step hop hreset, hlookup]
  | true =>
      cases op with
      | «open» i key =>
          cases beq_iff_eq.mp hop
          refine ⟨⟨hregistry', ?_⟩, fun hc => by cases hc⟩
          refine (lookup_put s id id _).trans (Eq.trans ?_ (lookup_put t id id _).symm)
          rw [if_pos rfl, if_pos rfl, hregistry]
      | close i =>
          cases beq_iff_eq.mp hop
          refine ⟨⟨hregistry', ?_⟩, fun hc => by cases hc⟩
          refine (lookup_without s id id).trans (Eq.trans ?_ (lookup_without t id id).symm)
          rw [if_pos rfl, if_pos rfl]
      | poll i =>
          cases beq_iff_eq.mp hop
          cases hw : s.watches.lookup id with
          | none =>
              have hw' : t.watches.lookup id = none := hlookup ▸ hw
              simp only [Session.step, hw, hw']
              exact ⟨⟨hregistry, hlookup⟩, fun _ => trivial⟩
          | some w =>
              have hw' : t.watches.lookup id = some w := hlookup ▸ hw
              rw [step_poll hw, step_poll hw', hregistry]
              refine ⟨⟨rfl, ?_⟩, fun _ => rfl⟩
              refine (lookup_put s id id _).trans (Eq.trans ?_ (lookup_put t id id _).symm)
              rw [if_pos rfl, if_pos rfl]
      | _ => cases hop

/-- They agree on what that follower hears. -/
theorem Agree.heard {id : String} {s t : Session} (h : Agree id s t) (ops : List Op) :
    heard id s ops = heard id t ops := by
  induction ops generalizing s t with
  | nil => rfl
  | cons op rest ih =>
      obtain ⟨hnext, hanswer⟩ := h.step op
      rw [heard_cons, heard_cons, ih hnext]
      by_cases hpolls : op.polls id
      · rw [if_pos hpolls, if_pos hpolls, hanswer hpolls]
      · rw [if_neg hpolls, if_neg hpolls]

/-! ### What a follower hears -/

theorem sorted_run {s : Session} (h : s.registry.Sorted) (ops : List Op) :
    (s.run ops).2.registry.Sorted := by
  induction ops generalizing s with
  | nil => exact h
  | cons op rest ih => exact ih (sorted_step h op)

/-- What is heard by a follower that is opened in a session on a key. -/
structure Hears (s : Session) (id key : String) : Prop where
  /-- The first poll yields the status that the key has then. -/
  first : key ∈ s.registry.keys → ∀ ops, (∀ op ∈ ops, op.leaves id = true ∧ op ≠ .reset) →
    let opened := (s.step (.open id key)).2
    let t := (opened.run ops).2
    heard id opened ops = [] →
    (t.step (.poll id)).1 = .poll (.yields (t.registry.get key))
  /-- A poll later on yields the status that the key has then, if the key has been written since the
  follower yielded last, and has nothing to yield otherwise. -/
  later : key ∈ s.registry.keys → ∀ past ops status,
    (∀ op ∈ past ++ ops, op.leaves id = true ∧ op ≠ .reset) →
    let t := ((s.step (.open id key)).2.run past).2
    let u := (t.step (.poll id)).2
    let v := (u.run ops).2
    (t.step (.poll id)).1 = .poll (.yields status) →
    (∀ a ∈ heard id u ops, a = .poll .pending) →
    (v.step (.poll id)).1 =
      .poll (if written key u ops then .yields (v.registry.get key) else .pending)
  /-- Where there is nothing to yield, the status yielded last is the one that the key has. -/
  caught : key ∈ s.registry.keys → ∀ ops, (∀ op ∈ ops, op.leaves id = true ∧ op ≠ .reset) →
    let opened := (s.step (.open id key)).2
    let t := (opened.run ops).2
    (t.step (.poll id)).1 = .poll .pending →
    EndsWith (heard id opened ops) (t.registry.get key)
  /-- Once the registry is gone, what a poll would have yielded just then is yielded once, before the
  end. -/
  dropped : key ∈ s.registry.keys → ∀ past ops,
    (∀ op ∈ past, op.leaves id = true ∧ op ≠ .reset) → (∀ op ∈ ops, op.leaves id = true) →
    let t := ((s.step (.open id key)).2.run past).2
    ∃ last, (t.step (.poll id)).1 = .poll ((last.map .yields).getD .pending) ∧
      (∀ status ∈ last, status = t.registry.get key) ∧
      heard id (t.step .reset).2 ops = onceThenEnd last (ops.countP (Op.polls id))
  /-- A key that is not there is unknown once, whatever is written later. -/
  absent : key ∉ s.registry.keys → ∀ ops, (∀ op ∈ ops, op.leaves id = true) →
    heard id (s.step (.open id key)).2 ops = onceThenEnd (some .unknown) (ops.countP (Op.polls id))
  /-- Nothing that is done with one follower makes a difference to the registry or to another. -/
  apart : ∀ op i, op.concerns i = true → i ≠ id → ∀ past,
    let t := ((s.step (.open id key)).2.run past).2
    (t.step op).2.registry = t.registry ∧ ∀ ops, heard id (t.step op).2 ops = heard id t ops

/-- **A follower may miss statuses, but never the last one.** -/
theorem follower_hears (before : List Op) (id key : String) :
    Hears (empty.run before).2 id key := by
  have hnew : empty.registry.Sorted := List.Pairwise.nil
  have hsorted : (empty.run before).2.registry.Sorted := sorted_run hnew before
  generalize (empty.run before).2 = s at hsorted
  refine ⟨?_, ?_, ?_, ?_, ?_, ?_⟩
  · intro hkey ops hops opened t hheard
    have ht := (follows_open hsorted id hkey).run hops (by simp [opened, hheard])
    exact ht.poll.1
  · intro hkey past ops status hops t u v hyields hheard
    obtain ⟨hpast, hrest⟩ := List.forall_mem_append.mp hops
    obtain ⟨due, ht, -⟩ := (follows_open hsorted id hkey).caught []
      (fun hc => by cases hc) hpast
    have hv := ht.poll.2.run hrest hheard
    rw [Bool.false_or] at hv
    exact hv.poll.1
  · intro hkey ops hops opened t hpending
    obtain ⟨due, ht, hends⟩ := (follows_open hsorted id hkey).caught []
      (fun hc => by cases hc) hops
    refine hends ?_
    rw [ht.poll.1] at hpending
    cases due with
    | true => cases hpending
    | false => rfl
  · intro hkey past ops hpast hops t
    obtain ⟨due, ht, -⟩ := (follows_open hsorted id hkey).caught []
      (fun hc => by cases hc) hpast
    refine ⟨if due then some (t.registry.get key) else none, ?_, ?_, ht.reset.run hops⟩
    · rw [ht.poll.1]
      cases due <;> rfl
    · intro status hstatus
      cases due with
      | true => exact (Option.some.inj hstatus).symm
      | false => cases hstatus
  · intro hkey ops hops
    exact (ending_open id hkey).run hops
  · intro op i hop hne past t
    have hagree := agree_step hop hne t
    exact ⟨hagree.1, hagree.heard⟩

/-- Two statuses are written between two polls, and the second poll yields the last one. -/
def between : List Op := [.set "a" .unknown, .open "x" "a", .poll "x", .set "a" .notServing]

theorem follower_hears_between :
    let s := (empty.run [.set "a" .serving]).2
    let t := (s.step (.open "w" "a")).2
    let u := (t.step (.poll "w")).2
    "a" ∈ s.registry.keys ∧ (∀ op ∈ [] ++ between, op.leaves "w" = true ∧ op ≠ .reset) ∧
      (t.step (.poll "w")).1 = .poll (.yields .serving) ∧ heard "w" u between = [] ∧
      (((u.run between).2).step (.poll "w")).1 = .poll (.yields .notServing) := by
  have hkey : "a" ∈ (empty.run [.set "a" .serving]).2.registry.keys := by decide
  have hops : ∀ op ∈ [] ++ between, op.leaves "w" = true ∧ op ≠ .reset := by
    simp [between, Op.leaves]
  refine ⟨hkey, hops, rfl, rfl, ?_⟩
  exact (follower_hears [.set "a" .serving] "w" "a").later hkey [] between .serving hops rfl
    (fun _ ha => by cases ha)

end EmbedServer.Health.Session
