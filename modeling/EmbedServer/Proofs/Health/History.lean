/-
The registry as a function of its history.

Two facts about a history are all that is needed to say what a registry says.

  * Before the first freeze the last word on a key is with the operation that gave it a status last,
    and a key that is set for the first time knows nothing of what was set for all keys before.
  * From the first freeze on no key comes and none changes, whatever is done.

`Recalls` puts them together as what every operation keeps.  Sortedness goes along with it, and makes
the snapshot a list in which each key stands once, in the order of the bytes.
-/
import EmbedServer.Health.History
import EmbedServer.Proofs.Health.Registry
import EmbedServer.Proofs.Text.Utf8
import Mathlib.Data.List.TakeWhile

namespace EmbedServer.Health.Session

/-! ### Operations and runs -/

/-- Looking changes nothing about the registry. -/
theorem registry_step {s : Session} {op : Op} (h : op.looks = true) :
    (s.step op).2.registry = s.registry := by
  cases op with
  | poll id =>
      simp only [step]
      split <;> rfl
  | set key status => cases h
  | setAll status => cases h
  | freeze => cases h
  | reset => cases h
  | _ => rfl

/-- Nothing but a freeze, and a new registry, changes anything about a registry that is frozen. -/
theorem registry_step_of_frozen {s : Session} (h : s.registry.frozen = true) {op : Op}
    (hfreeze : op.isFreeze = false) (hreset : op ≠ .reset) :
    (s.step op).2.registry = s.registry := by
  cases op with
  | set key status => exact Registry.set_of_frozen h key status
  | setAll status => exact Registry.setAll_of_frozen h status
  | freeze => cases hfreeze
  | reset => exact absurd rfl hreset
  | _ => exact registry_step rfl

theorem run_cons (s : Session) (op : Op) (rest : List Op) :
    (s.run (op :: rest)).2 = ((s.step op).2.run rest).2 := rfl

theorem run_append (s : Session) (xs ys : List Op) :
    (s.run (xs ++ ys)).2 = ((s.run xs).2.run ys).2 := by
  induction xs generalizing s with
  | nil => rfl
  | cons op rest ih => exact ih (s.step op).2

/-! ### What one more operation adds to a history

A history grows at its end, and the invariant needs to know what the growth adds.  A freeze is the border:
what stands behind it is no part of the live history any more.
-/

private theorem live_of_frozen {past : List Op} (h : past.any Op.isFreeze = true) (more : List Op) :
    live (past ++ more) = live past := by
  induction past with
  | nil => cases h
  | cons op rest ih =>
      cases hop : op.isFreeze with
      | true => simp [live, hop]
      | false =>
          have hrest : rest.any Op.isFreeze = true := by simpa [hop] using h
          have hlive : ∀ ops, live (op :: ops) = op :: live ops := fun ops => by simp [live, hop]
          rw [List.cons_append, hlive, hlive, ih hrest]

private theorem live_of_calm {past : List Op} (h : past.any Op.isFreeze = false) (more : List Op) :
    live (past ++ more) = past ++ live more := by
  refine List.takeWhile_append_of_pos ?_
  intro op hop
  simp only [List.any_eq_false, Bool.not_eq_true] at h
  simp [h op hop]

/-- From the first freeze on, and at a freeze, no key is added. -/
theorem adds_snoc_late {past : List Op} {op : Op}
    (h : (past.any Op.isFreeze || op.isFreeze) = true) (key : String) :
    adds (past ++ [op]) key = adds past key := by
  cases hpast : past.any Op.isFreeze with
  | true => rw [adds, live_of_frozen hpast, adds]
  | false =>
      have hop : op.isFreeze = true := by simpa [hpast] using h
      have hlive : live past = past := by simpa [live] using live_of_calm hpast []
      rw [adds, live_of_calm hpast, adds, hlive]
      simp [live, hop]

private theorem adds_snoc {past : List Op} {op : Op} (h : (past.any Op.isFreeze || op.isFreeze) = false)
    (key : String) : adds (past ++ [op]) key = (adds past key || op.sets key) := by
  obtain ⟨hpast, hop⟩ := Bool.or_eq_false_iff.mp h
  have hlive : live past = past := by simpa [live] using live_of_calm hpast []
  rw [adds, live_of_calm hpast, adds, hlive]
  simp [live, hop]

/-- A key that has been set is given what one more operation gives it, if that gives it anything. -/
theorem lastGiven?_snoc (past : List Op) (op : Op) (key : String) :
    lastGiven? (past ++ [op]) key =
      (if past.any (Op.sets key) || op.sets key then op.gives? key else none).or
        (lastGiven? past key) := by
  rw [lastGiven?, lastGiven?, List.dropWhile_append]
  cases hadds : past.any (Op.sets key) with
  | true =>
      obtain ⟨first, hmem, hsets⟩ := List.any_eq_true.mp hadds
      have hne : (past.dropWhile (!Op.sets key ·)).isEmpty = false := by
        rw [Bool.eq_false_iff, Ne, List.isEmpty_iff, List.dropWhile_eq_nil_iff]
        intro hnone
        have hfirst := hnone first hmem
        simp [hsets] at hfirst
      rw [hne, if_neg Bool.false_ne_true, List.filterMap_append, List.getLast?_append]
      cases hgives : op.gives? key <;> simp only [List.filterMap_cons, hgives] <;> rfl
  | false =>
      have hnil : past.dropWhile (!Op.sets key ·) = [] := by
        rw [List.dropWhile_eq_nil_iff]
        intro first hmem
        simp only [List.any_eq_false, Bool.not_eq_true] at hadds
        simp [hadds first hmem]
      rw [hnil]
      cases hsets : op.sets key with
      | true => cases hgives : op.gives? key <;> simp [hsets, hgives]
      | false => simp [hsets]

/-! ### What one operation does to a registry that is not frozen -/

theorem mem_keys_step {s : Session} (h : s.registry.frozen = false) {op : Op}
    (hop : op.isFreeze = false) (hreset : op ≠ .reset) (key : String) :
    key ∈ (s.step op).2.registry.keys ↔ key ∈ s.registry.keys ∨ op.sets key = true := by
  cases op with
  | set k status =>
      have hset : (s.step (.set k status)).2.registry = s.registry.store k status := by
        rw [step, Registry.set, h]
        rfl
      rw [hset, Registry.mem_keys_store, Op.sets, beq_iff_eq, eq_comm]
      exact Or.comm
  | setAll status =>
      have hkeys : (s.step (.setAll status)).2.registry.keys = s.registry.keys :=
        Registry.keys_setAll s.registry status
      simp [hkeys, Op.sets]
  | freeze => cases hop
  | reset => exact absurd rfl hreset
  | _ =>
      rw [registry_step rfl]
      simp [Op.sets]

theorem get_step {s : Session} (h : s.registry.frozen = false) {op : Op}
    (hop : op.isFreeze = false) (hreset : op ≠ .reset) {key : String}
    (hkey : key ∈ (s.step op).2.registry.keys) :
    (s.step op).2.registry.get key = (op.gives? key).getD (s.registry.get key) := by
  cases op with
  | set k status =>
      have hset : (s.step (.set k status)).2.registry = s.registry.store k status := by
        rw [step, Registry.set, h]
        rfl
      rw [hset, Registry.get_store, Op.gives?]
      by_cases hk : key = k
      · rw [if_pos hk, if_pos hk.symm, Option.getD_some]
      · rw [if_neg hk, if_neg (Ne.symm hk), Option.getD_none]
  | setAll status =>
      have hthere : key ∈ s.registry.keys := by
        rw [← Registry.keys_setAll s.registry status]
        exact hkey
      obtain ⟨e, he⟩ := Registry.mem_keys_iff.mp hthere
      refine Registry.get_of_find? (e := ⟨status, e.version + 1⟩) ?_
      show (s.registry.setAll status).find? key = _
      rw [Registry.find?_setAll h, he]
      rfl
  | freeze => cases hop
  | reset => exact absurd rfl hreset
  | _ =>
      rw [registry_step rfl]
      rfl

/-! ### What every operation keeps

The invariant compares a registry with the operations so far.  Freezes are a case of their own, because a
registry that is frozen and one that is not change in different ways, and a freeze leads from the one to
the other.
-/

/-- A registry is as its history has it. -/
structure Recalls (past : List Op) (r : Registry) : Prop where
  frozen : r.frozen = past.any Op.isFreeze
  sorted : r.Sorted
  keys : ∀ key, key ∈ r.keys ↔ adds past key = true
  given : r.frozen = false → ∀ key ∈ r.keys, lastGiven? past key = some (r.get key)
  out : r.frozen = true → r.AllOut

private theorem recalls_empty : Recalls [] .empty where
  frozen := rfl
  sorted := List.Pairwise.nil
  keys := fun key => by simp [Registry.keys, Registry.empty, adds, live]
  given := fun _ key hkey => absurd hkey List.not_mem_nil
  out := fun h => Bool.noConfusion h

theorem Recalls.freeze {past : List Op} {s : Session} (h : Recalls past s.registry) :
    Recalls (past ++ [.freeze]) (s.step .freeze).2.registry := by
  have hlate : (past.any Op.isFreeze || Op.isFreeze .freeze) = true := by simp [Op.isFreeze]
  refine ⟨by simp [Op.isFreeze, Session.step, Registry.freeze], Registry.sorted_freeze h.sorted, ?_,
    fun hcalm => Bool.noConfusion hcalm, fun _ => Registry.allOut_freeze s.registry⟩
  intro key
  show key ∈ s.registry.freeze.keys ↔ _
  rw [Registry.keys_freeze, adds_snoc_late hlate]
  exact h.keys key

/-- Once frozen, the registry and what its history says of it stay as they are. -/
theorem Recalls.step_frozen {past : List Op} {s : Session} (h : Recalls past s.registry)
    (hfrozen : s.registry.frozen = true) {op : Op} (hop : op.isFreeze = false) (hreset : op ≠ .reset) :
    Recalls (past ++ [op]) (s.step op).2.registry := by
  rw [registry_step_of_frozen hfrozen hop hreset]
  have hlate : (past.any Op.isFreeze || op.isFreeze) = true := by rw [← h.frozen, hfrozen]; rfl
  refine ⟨by simp [h.frozen, hop], h.sorted, ?_, ?_, h.out⟩
  · intro key
    rw [adds_snoc_late hlate]
    exact h.keys key
  · intro hcalm
    rw [hfrozen] at hcalm
    cases hcalm

theorem frozen_step {s : Session} {op : Op} (hop : op.isFreeze = false) (hreset : op ≠ .reset) :
    (s.step op).2.registry.frozen = s.registry.frozen := by
  cases op with
  | set key status =>
      show (s.registry.set key status).frozen = _
      rw [Registry.set]
      split <;> rfl
  | setAll status =>
      show (s.registry.setAll status).frozen = _
      rw [Registry.setAll]
      split <;> rfl
  | freeze => cases hop
  | reset => exact absurd rfl hreset
  | _ => rw [registry_step rfl]

theorem sorted_step {s : Session} (h : s.registry.Sorted) (op : Op) :
    (s.step op).2.registry.Sorted := by
  cases op with
  | set key status => exact Registry.sorted_set h key status
  | setAll status => exact Registry.sorted_setAll h status
  | freeze => exact Registry.sorted_freeze h
  | reset => exact List.Pairwise.nil
  | _ => rwa [registry_step rfl]

/-- Before the first freeze a key that has been set has the status given to it last. -/
theorem Recalls.step_calm {past : List Op} {s : Session} (h : Recalls past s.registry)
    (hcalm : s.registry.frozen = false) {op : Op} (hop : op.isFreeze = false) (hreset : op ≠ .reset) :
    Recalls (past ++ [op]) (s.step op).2.registry := by
  have hpast : past.any Op.isFreeze = false := h.frozen ▸ hcalm
  have hnone : (past.any Op.isFreeze || op.isFreeze) = false := by rw [hpast, hop]; rfl
  have hkeys : ∀ key, key ∈ (s.step op).2.registry.keys ↔ adds (past ++ [op]) key = true := by
    intro key
    rw [mem_keys_step hcalm hop hreset, adds_snoc hnone, Bool.or_eq_true, h.keys]
  refine ⟨by simp [frozen_step hop hreset, h.frozen, hop], sorted_step h.sorted op, hkeys, ?_, ?_⟩
  · intro _ key hkey
    have hlive : adds past key = past.any (Op.sets key) := by
      rw [adds, show live past = past by simpa [live] using live_of_calm hpast []]
    have hset : (past.any (Op.sets key) || op.sets key) = true := by
      rw [← hlive, ← adds_snoc hnone]
      exact (hkeys key).mp hkey
    rw [lastGiven?_snoc, if_pos hset, get_step hcalm hop hreset hkey]
    cases hgives : op.gives? key with
    | some status => rfl
    | none =>
        have hsets : op.sets key = false := by
          cases op <;> simp_all [Op.sets, Op.gives?]
        have hthere : key ∈ s.registry.keys :=
          ((mem_keys_step hcalm hop hreset key).mp hkey).resolve_right (by simp [hsets])
        exact h.given hcalm key hthere
  · intro hfrozen
    rw [frozen_step hop hreset, hcalm] at hfrozen
    cases hfrozen

theorem Recalls.step {past : List Op} {s : Session} (h : Recalls past s.registry) {op : Op}
    (hreset : op ≠ .reset) : Recalls (past ++ [op]) (s.step op).2.registry := by
  cases hop : op.isFreeze with
  | true =>
      cases op with
      | freeze => exact h.freeze
      | _ => cases hop
  | false =>
      cases hfrozen : s.registry.frozen with
      | true => exact h.step_frozen hfrozen hop hreset
      | false => exact h.step_calm hfrozen hop hreset

theorem recalls_run (past : List Op) {s : Session} (h : Recalls past s.registry) {ops : List Op}
    (hops : .reset ∉ ops) : Recalls (past ++ ops) (s.run ops).2.registry := by
  induction ops generalizing past s with
  | nil =>
      rw [List.append_nil]
      exact h
  | cons op rest ih =>
      obtain ⟨hop, hrest⟩ := not_or.mp fun hmem => hops (List.mem_cons.mpr hmem)
      rw [run_cons, List.append_cons]
      exact ih _ (h.step (Ne.symm hop)) hrest

/-! ### What a registry says -/

private theorem any_isFreeze {ops : List Op} : ops.any Op.isFreeze = true ↔ .freeze ∈ ops := by
  rw [List.any_eq_true]
  constructor
  · rintro ⟨op, hmem, hop⟩
    cases op with
    | freeze => exact hmem
    | _ => cases hop
  · intro hmem
    exact ⟨.freeze, hmem, rfl⟩

theorem adds_iff {ops : List Op} {key : String} :
    adds ops key = true ↔ ∃ status, .set key status ∈ live ops := by
  rw [adds, List.any_eq_true]
  constructor
  · rintro ⟨op, hmem, hop⟩
    cases op with
    | set k status =>
        have hk : k = key := by simpa [Op.sets] using hop
        exact ⟨status, hk ▸ hmem⟩
    | _ => cases hop
  · rintro ⟨status, hmem⟩
    exact ⟨_, hmem, by simp [Op.sets]⟩

/-- What a session answers and does after a history of operations on a new registry. -/
structure Tells (ops : List Op) (s : Session) : Prop where
  /-- A key is there if and only if it has been set before the first freeze. -/
  there : ∀ key, key ∈ s.registry.keys ↔ ∃ status, .set key status ∈ live ops
  /-- Of a key that is not there nothing is known. -/
  unknown : ∀ key, key ∉ s.registry.keys → (s.step (.get key)).1 = .status .unknown
  /-- Once there has been a freeze, every key there is not serving. -/
  out : .freeze ∈ ops → ∀ key ∈ s.registry.keys, (s.step (.get key)).1 = .status .notServing
  /-- As long as there has been none, every key there has the status given to it last. -/
  last : .freeze ∉ ops → ∀ key ∈ s.registry.keys,
    ∃ status, lastGiven? ops key = some status ∧ (s.step (.get key)).1 = .status status
  /-- A snapshot lists each key once, in the order of the bytes, with the status it is read with. -/
  listed : ∃ entries, (s.step .snapshot).1 = .snapshot entries ∧
    (entries.map Prod.fst).Pairwise (Utf8.encode · < Utf8.encode ·) ∧
    ∀ key status, (key, status) ∈ entries ↔
      key ∈ s.registry.keys ∧ (s.step (.get key)).1 = .status status
  /-- Once there has been a freeze, nothing that is set makes a difference. -/
  heldSet : .freeze ∈ ops → ∀ key status, (s.step (.set key status)).2 = s
  heldSetAll : .freeze ∈ ops → ∀ status, (s.step (.setAll status)).2 = s
  /-- One more freeze changes no key and no status. -/
  again : .freeze ∈ ops → (s.step .freeze).2.registry.snapshot = s.registry.snapshot
  /-- Looking changes nothing about the registry. -/
  looking : ∀ op : Op, op.looks = true → (s.step op).2.registry = s.registry

/-- **What a registry says of a key is what its history says of it.** -/
theorem history_tells (watches : List (String × Watch)) (ops : List Op) (hops : .reset ∉ ops) :
    Tells ops (run ⟨.empty, watches⟩ ops).2 := by
  have h : Recalls ops (run ⟨.empty, watches⟩ ops).2.registry :=
    recalls_run [] recalls_empty hops
  generalize (run ⟨.empty, watches⟩ ops).2 = s at h
  have hfrozen : .freeze ∈ ops → s.registry.frozen = true := by
    rw [h.frozen]
    exact any_isFreeze.mpr
  refine ⟨fun key => (h.keys key).trans adds_iff, ?_, ?_, ?_, ?_, ?_, ?_, ?_,
    fun op => registry_step⟩
  · intro key hkey
    exact congrArg Answer.status (Registry.get_of_not_mem hkey)
  · intro hfreeze key hkey
    exact congrArg Answer.status (h.out (hfrozen hfreeze) key hkey)
  · intro hfreeze key hkey
    have hcalm : s.registry.frozen = false := by
      rw [h.frozen, Bool.eq_false_iff]
      exact fun hc => hfreeze (any_isFreeze.mp hc)
    exact ⟨_, h.given hcalm key hkey, rfl⟩
  · refine ⟨_, rfl, ?_, ?_⟩
    · rw [Registry.keys_snapshot]
      exact h.sorted.imp Utf8.encode_lt
    · intro key status
      rw [Registry.mem_snapshot_iff h.sorted]
      exact and_congr_right fun _ => ⟨congrArg Answer.status, fun heq => by cases heq; rfl⟩
  · intro hfreeze key status
    show (⟨_, _⟩ : Session) = s
    rw [Registry.set_of_frozen (hfrozen hfreeze)]
  · intro hfreeze status
    show (⟨_, _⟩ : Session) = s
    rw [Registry.setAll_of_frozen (hfrozen hfreeze)]
  · intro hfreeze
    exact Registry.snapshot_freeze h.sorted (h.out (hfrozen hfreeze))

/-- A key misses what is set for all keys before it is there, and everything after the freeze. -/
def mixed : List Op :=
  [.set "b" .serving, .setAll .notServing, .open "w" "a", .set "a" .serving, .poll "w", .freeze,
    .set "c" .serving, .setAll .serving]

theorem history_tells_mixed :
    .reset ∉ mixed ∧ (run empty mixed).2.registry.keys = ["a", "b"] ∧
      Tells mixed (run empty mixed).2 :=
  ⟨by simp [mixed], by decide, history_tells [] mixed (by simp [mixed])⟩

end EmbedServer.Health.Session
