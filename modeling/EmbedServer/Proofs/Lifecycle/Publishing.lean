/-
Health is published before a server runs.

A start is a list of acts, and whoever looks at the server meanwhile sees it after some of them.  What is
read of a key after a number of writes is what the last write of that key says; `publishing` writes
the keys without overrides first and the overrides in order after them, so the last write of a key that has
overrides is the last of these, and none of them is ever preceded by a word that the key serves.

The one act that makes the server run comes after all of this, and a start that finds no address to run at
writes nothing.
-/
import EmbedServer.Proofs.Lifecycle.Health
import Mathlib.Data.List.Destutter

namespace EmbedServer.Lifecycle

variable {σ : Type}

namespace Act

/-! ### Acts that leave something alone -/

/-- Whether an act writes the registry. -/
def writesHealth : Act → Bool
  | .publish _ _ | .freeze => true
  | _ => false

/-- Whether an act goes on to another state. -/
def advances : Act → Bool
  | .advance _ => true
  | _ => false

private theorem health_apply {s : Http.Server σ} {a : Act} (h : a.writesHealth = false) :
    (apply s a).core.health = s.core.health := by
  cases a with
  | publish key status => cases h
  | freeze => cases h
  | advance next =>
      simp only [apply, applyCore, advanceCore]
      split <;> rfl
  | _ => rfl

/-- What each of some acts keeps, all of them keep. -/
theorem applyAll_keeps {P : Http.Server σ → Prop} {acts : List Act} {s : Http.Server σ}
    (hstep : ∀ a ∈ acts, ∀ s, P s → P (apply s a)) (h : P s) : P (applyAll s acts) := by
  induction acts generalizing s with
  | nil => exact h
  | cons a rest ih =>
      rw [applyAll_cons]
      refine ih (fun a' ha' => hstep a' (List.mem_cons_of_mem _ ha')) ?_
      exact hstep a List.mem_cons_self s h

private theorem health_applyAll {s : Http.Server σ} {acts : List Act}
    (h : ∀ a ∈ acts, a.writesHealth = false) : (applyAll s acts).core.health = s.core.health :=
  applyAll_keeps (P := fun s' => s'.core.health = s.core.health)
    (fun a ha _ hs => (health_apply (h a ha)).trans hs) rfl

private theorem state_applyAll {s : Http.Server σ} {acts : List Act} (h : ∀ a ∈ acts, a.advances = false) :
    (applyAll s acts).core.state = s.core.state := by
  refine applyAll_keeps (P := fun s' => s'.core.state = s.core.state) (fun a ha s' hs => ?_) rfl
  rw [state_apply]
  cases a with
  | advance next => cases h _ ha
  | _ => exact hs

/-- A server runs only by the act that makes it run. -/
theorem state_ne_running {s : Http.Server σ} {acts : List Act}
    (h : ∀ a ∈ acts, a ≠ .advance .running) (hs : s.core.state ≠ .running) :
    (applyAll s acts).core.state ≠ .running := by
  refine applyAll_keeps (P := fun s => s.core.state ≠ .running) (fun a ha s hs => ?_) hs
  rw [state_apply]
  cases a with
  | advance next =>
      simp only [stateAfter, State.advance]
      split
      · exact fun hnext => h _ ha (congrArg _ hnext)
      · exact hs
  | _ => exact hs

/-- A key serves only by the act that says so. -/
theorem get_ne_serving {s : Http.Server σ} {acts : List Act} {key : String}
    (h : ∀ a ∈ acts, a ≠ .publish key .serving) (hs : s.core.health.get key ≠ .serving) :
    (applyAll s acts).core.health.get key ≠ .serving := by
  refine applyAll_keeps (P := fun s => s.core.health.get key ≠ .serving) (fun a ha s hs => ?_) hs
  cases hwrites : a.writesHealth with
  | false => rwa [health_apply hwrites]
  | true =>
      cases a with
      | freeze => exact IsOut.not_serving (isOut_freeze s.core.health) key
      | publish key' status =>
          show (s.core.health.set key' status).get key ≠ .serving
          unfold Health.Registry.set
          split
          · exact hs
          · rw [Health.Registry.get_store]
            split
            · rename_i heq
              rintro rfl
              exact h _ ha (by rw [heq])
            · exact hs
      | _ => cases hwrites

/-! ### What is read after writes

A reader finds what the last write of a key has put there, so a start is described by one list of writes,
the overrides after the other keys.
-/

/-- Of several writes of a key the last one counts. -/
theorem get_publishAll {s : Http.Server σ} (hs : s.core.health.frozen = false)
    (writes : List (String × Health.Status)) (key : String) :
    (applyAll s (writes.map fun w => .publish w.1 w.2)).core.health.get key =
      (writes.reverse.lookup key).getD (s.core.health.get key) := by
  induction writes generalizing s with
  | nil => rfl
  | cons w rest ih =>
      obtain ⟨key', status⟩ := w
      have hwrite : (apply s (.publish key' status)).core.health = s.core.health.store key' status := by
        show s.core.health.set key' status = _
        rw [Health.Registry.set, if_neg (by rw [hs]; exact Bool.false_ne_true)]
      rw [List.map_cons, applyAll_cons, ih (by rw [hwrite]; exact hs), hwrite,
        Health.Registry.get_store, List.reverse_cons, List.lookup_append, Option.getD_or]
      refine congrArg _ ?_
      by_cases heq : key = key'
      · simp [heq]
      · simp [List.lookup_cons, heq, beq_false_of_ne heq]

private theorem lookup_map_const (keys : List String) (status : Health.Status) (key : String) :
    (keys.map fun k => (k, status)).lookup key = if key ∈ keys then some status else none := by
  induction keys with
  | nil => rfl
  | cons k rest ih =>
      by_cases heq : key = k
      · simp [heq]
      · simp [List.lookup_cons, heq, beq_false_of_ne heq, ih]

/-- After health is published, a key without overrides serves if it is meant to, and any other reads its
last override. -/
theorem get_publishing {s : Http.Server σ} (hs : s.core.health.frozen = false) (keys : List String)
    (overrides : List (String × Health.Status)) (key : String) :
    (applyAll s (publishing keys overrides)).core.health.get key =
      (overrides.reverse.lookup key).getD
        (if key ∈ keys then .serving else s.core.health.get key) := by
  have hacts : publishing keys overrides =
      (((keys.filter fun k => !(overrides.map Prod.fst).contains k).map
        fun k => (k, Health.Status.serving)) ++ overrides).map
          fun w : String × Health.Status => .publish w.1 w.2 := by
    rw [publishing, List.map_append, List.map_map]
    rfl
  rw [hacts, get_publishAll hs, List.reverse_append, List.lookup_append, Option.getD_or]
  cases hover : overrides.reverse.lookup key with
  | some status => rfl
  | none =>
      have hfree : key ∉ overrides.map Prod.fst := by
        rw [List.lookup_eq_none_iff] at hover
        rw [List.mem_map]
        rintro ⟨w, hw, rfl⟩
        have hne := hover w (List.mem_reverse.mpr hw)
        rw [bne_self_eq_false] at hne
        cases hne
      have hkeys : key ∈ (keys.filter fun k => !(overrides.map Prod.fst).contains k).reverse ↔
          key ∈ keys := by
        rw [List.mem_reverse, List.mem_filter, Bool.not_eq_true', ← Bool.not_eq_true,
          List.contains_iff_mem, and_iff_left hfree]
      rw [← List.map_reverse, lookup_map_const, Option.getD_none, Option.getD_none]
      simp only [hkeys]
      by_cases hkey : key ∈ keys
      · rw [if_pos hkey, if_pos hkey, Option.getD_some]
      · rw [if_neg hkey, if_neg hkey, Option.getD_none]

end Act

/-! ### The acts of a start

Whoever looks meanwhile finds the server after some number of the acts, so what is said of a start is said
for every such number.
-/

namespace Blueprint

/-- What a start does, given what becomes of its address. -/
def acts (b : Blueprint σ) (binding : Binding) : List Act :=
  startActs b.core.stages b.healthKeys b.overrides binding

/-- The server after so many acts of its start. -/
def after (b : Blueprint σ) (binding : Binding) (i : Nat) : Http.Server σ :=
  Act.applyAll b.fresh ((b.acts binding).take i)

/-- The states of a start, one after the other. -/
def path (b : Blueprint σ) (binding : Binding) : List State :=
  (List.range ((b.acts binding).length + 1)).map fun i => (b.after binding i).core.state

/-- What a key is meant to read when the server runs: its last override, if it has one. -/
def published (b : Blueprint σ) (key : String) : Health.Status :=
  (b.overrides.reverse.lookup key).getD
    (if key ∈ b.healthKeys then .serving else b.core.health.get key)

/-- What a start does before the server runs. -/
def preparing (b : Blueprint σ) : List Act :=
  [.advance .starting, .tell .info ("Interceptors: " ++ Text.quotedList (b.core.stages.map Call.Stage.name))]
    ++ publishing b.healthKeys b.overrides

variable {b : Blueprint σ}

private theorem acts_bound (a : Net.SocketAddress) :
    b.acts (.bound a) =
      b.preparing ++ [.advance .running, .tell .info ("Serving on " ++ a.text)] := rfl

private theorem after_length (binding : Binding) :
    b.after binding (b.acts binding).length = b.started binding := by
  rw [after, List.take_length]
  rfl

/-- Nothing that is prepared makes the server run. -/
theorem ne_running_of_preparing {act : Act} (h : act ∈ b.preparing) : act ≠ .advance .running := by
  rcases List.mem_append.mp h with h | h
  · simp only [List.mem_cons, List.not_mem_nil, or_false] at h
    rcases h with rfl | rfl <;> simp [Act.tell]
  · obtain ⟨key, status, rfl⟩ := publishing_calm h
    simp

/-- A key with overrides is not said to serve unless one of them says so. -/
theorem publish_serving_of_mem {binding : Binding} {key : String}
    (h : .publish key .serving ∈ b.acts binding) :
    key ∉ b.overrides.map Prod.fst ∨ (key, .serving) ∈ b.overrides := by
  cases binding with
  | failed e => simp [acts, startActs, Act.tell] at h
  | nameless e => simp [acts, startActs] at h
  | bound a =>
      have hpublishing : .publish key .serving ∈ publishing b.healthKeys b.overrides := by
        simpa [acts, startActs, Act.tell] using h
      rcases List.mem_append.mp hpublishing with hkey | hover
      · obtain ⟨k, hk, heq⟩ := List.mem_map.mp hkey
        obtain ⟨rfl, -⟩ := Act.publish.inj heq
        left
        simpa using (List.mem_filter.mp hk).2
      · obtain ⟨⟨k, status⟩, hw, heq⟩ := List.mem_map.mp hover
        obtain ⟨rfl, rfl⟩ := Act.publish.inj heq
        exact Or.inr hw

private theorem get_started (h : b.core.health.frozen = false) (a : Net.SocketAddress) (key : String) :
    (b.started (.bound a)).core.health.get key = b.published key := by
  have hopening : (Act.applyAll b.fresh [.advance .starting, .tell .info
      ("Interceptors: " ++ Text.quotedList (b.core.stages.map Call.Stage.name))]).core.health =
      b.core.health := Act.health_applyAll (by simp [Act.tell, Act.writesHealth])
  rw [← after_length, after, List.take_length, acts_bound, Act.applyAll_append, preparing,
    Act.applyAll_append, Act.health_applyAll (by simp [Act.tell, Act.writesHealth]),
    Act.get_publishing (by rw [hopening]; exact h), hopening, published]

/-- Once the server runs, nothing more is done to it than to tell of it. -/
theorem after_running (a : Net.SocketAddress) {i : Nat} (hi : b.preparing.length < i) :
    (b.after (.bound a) i).core.state = .running ∧
      (b.after (.bound a) i).core.health = (b.started (.bound a)).core.health := by
  have hrest : ∀ act ∈ (b.acts (.bound a)).drop i, act = .tell .info ("Serving on " ++ a.text) := by
    intro act hact
    have hdrop := List.drop_subset_drop_left _ hi hact
    rw [acts_bound, List.drop_append, List.drop_eq_nil_of_le (Nat.le_succ _)] at hdrop
    simpa using hdrop
  have hwhole : b.started (.bound a) =
      Act.applyAll (b.after (.bound a) i) ((b.acts (.bound a)).drop i) := by
    rw [after, ← Act.applyAll_append, List.take_append_drop]
    rfl
  have hstate : (b.started (.bound a)).core.state = .running := state_running b a
  constructor
  · rw [← hstate, hwhole, Act.state_applyAll]
    intro act hact
    rw [hrest act hact]
    rfl
  · rw [hwhole, Act.health_applyAll]
    intro act hact
    rw [hrest act hact]
    rfl

/-- A start whose address comes to nothing neither writes health nor makes the server run. -/
theorem acts_failed {binding : Binding} (h : ∀ a, binding ≠ .bound a) {act : Act}
    (hact : act ∈ b.acts binding) : act.writesHealth = false ∧ act ≠ .advance .running := by
  cases binding with
  | bound a => exact absurd rfl (h a)
  | failed e =>
      simp only [acts, startActs, List.mem_cons, List.not_mem_nil, or_false] at hact
      rcases hact with rfl | rfl | rfl <;> simp [Act.tell, Act.writesHealth]
  | nameless e =>
      simp only [acts, startActs, List.mem_cons, List.not_mem_nil, or_false] at hact
      rcases hact with rfl | rfl <;> simp [Act.writesHealth]

/-- How a server looks to those who look at it while it starts. -/
structure Publishes (b : Blueprint σ) (binding : Binding) : Prop where
  /-- In the end it is the server that has been started. -/
  whole : b.after binding (b.acts binding).length = b.started binding
  /-- From the first moment at which it runs, every key reads what it is meant to. -/
  runs : ∀ a, binding = .bound a → ∃ i ≤ (b.acts binding).length,
    (∀ j < i, (b.after binding j).core.state ≠ .running) ∧
      ∀ j ≥ i, (b.after binding j).core.state = .running ∧
        ∀ key, (b.after binding j).core.health.get key = b.published key
  /-- A key that no override lets serve, and that has some, does not serve in between. -/
  withheld : ∀ key ∈ b.overrides.map Prod.fst, (key, .serving) ∉ b.overrides →
    b.core.health.get key ≠ .serving →
      ∀ i, (b.after binding i).core.health.get key ≠ .serving
  /-- Without an address nothing is published, and the server never runs. -/
  fails : (∀ a, binding ≠ .bound a) →
    (∀ i, (b.after binding i).core.health = b.core.health) ∧
      (∀ i, (b.after binding i).core.state ≠ .running) ∧
      (b.path binding).destutter (· ≠ ·) = [.created, .starting, .stopped]

/-- **Health is published before a server runs, and as it is meant to be.**  Whoever looks after any of the
acts of a start sees no key serve that is held back, and sees the server run only with all its keys
published; a start without an address shows nothing but the states it goes through. -/
theorem start_publishes (b : Blueprint σ) (h : b.core.health.frozen = false) (binding : Binding) :
    b.Publishes binding := by
  constructor
  case whole => exact after_length binding
  case runs =>
    rintro a rfl
    refine ⟨b.preparing.length + 1, by rw [acts_bound]; simp, fun j hj => ?_, fun j hj => ?_⟩
    · rw [after, acts_bound, List.take_append_of_le_length (Nat.le_of_lt_succ hj)]
      refine Act.state_ne_running (fun act hact => ?_) (by simp [fresh, Http.Server.new])
      exact ne_running_of_preparing (List.mem_of_mem_take hact)
    · obtain ⟨hstate, hhealth⟩ := after_running a hj
      exact ⟨hstate, fun key => by rw [hhealth]; exact get_started h a key⟩
  case withheld =>
    intro key hkey hover hget i
    refine Act.get_ne_serving (fun act hact => ?_) hget
    rintro rfl
    rcases publish_serving_of_mem (List.mem_of_mem_take hact) with hfree | hserving
    · exact hfree hkey
    · exact hover hserving
  case fails =>
    intro hbinding
    refine ⟨fun i => Act.health_applyAll ?_, fun i => Act.state_ne_running ?_ ?_, ?_⟩
    · exact fun act hact => (acts_failed hbinding (List.mem_of_mem_take hact)).1
    · exact fun act hact => (acts_failed hbinding (List.mem_of_mem_take hact)).2
    · simp [fresh, Http.Server.new]
    · cases binding with
      | bound a => exact absurd rfl (hbinding a)
      | failed e => rfl
      | nameless e => rfl

/-- A model that is held back, twice a key that serves, and one that was known before. -/
theorem start_publishes_held_back :
    let b : Blueprint Unit :=
      { trial [] .zero .zero with
        healthKeys := ["", "model", "", "later"]
        overrides := [("model", .notServing), ("later", .notServing), ("later", .serving)] }
    b.core.health.frozen = false ∧ b.Publishes (.bound home) ∧
      b.published "" = .serving ∧ b.published "model" = .notServing ∧
      b.published "later" = .serving ∧ b.published "other" = .unknown := by
  intro b
  exact ⟨rfl, start_publishes b rfl (.bound home), by decide, by decide, by decide, by decide⟩

end Blueprint

end EmbedServer.Lifecycle
