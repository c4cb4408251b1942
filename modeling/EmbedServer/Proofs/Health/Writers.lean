/-
What a freeze is worth when others write at the same time.

A call that nobody comes in between does what it does at once.  With others in between, a call that
has found the flag down writes even though the flag has gone up since, so a freeze is overtaken by
whoever has looked and not yet written: the shortest run of that kind begins with `late`.

Apart from such calls a freeze holds.  From the moment the flag goes up, whatever is written is
written by a freeze or was owed at that moment, and a key that a freeze no longer has to write reads
what has been written last.  So once a freeze has returned, every key reads "not serving" or what a
call still owed it when the flag went up.  `freeze_holds_iff` says when that is "not serving" for
certain: if and only if nothing else was owed.
-/
import EmbedServer.Health.Writers
import EmbedServer.Proofs.Health.Registry

namespace EmbedServer.Health.Writing

/-! ### Turns and runs

A turn makes a call, lets one of them look at the flag, or lets one write to a key.  What it can do is
said once, and everything that is kept is shown for these cases.
-/

private theorem run_nil (s : Writing) : s.run [] = s := rfl

theorem run_cons (s : Writing) (u : Turn) (rest : List Turn) :
    s.run (u :: rest) = (s.step u).run rest := rfl

theorem run_append (s : Writing) (xs ys : List Turn) : s.run (xs ++ ys) = (s.run xs).run ys :=
  List.foldl_append ..

/-- What every turn keeps, every run keeps. -/
theorem run_keeps {P : Writing → Prop} (h : ∀ s u, P s → P (s.step u)) {s : Writing} (hs : P s)
    (turns : List Turn) : P (s.run turns) :=
  List.foldlRecOn turns step hs fun s hs u _ => h s u hs

private theorem step_look {s : Writing} {i : Nat} {w : Write} (h : s.writers[i]? = some ⟨w, none⟩) :
    s.step (.look i) = ⟨w.look s.registry, s.writers.set i ⟨w, some (w.finds s.registry)⟩⟩ := by
  simp only [step, h]

private theorem step_store {s : Writing} {i : Nat} {w : Write} {keys : List String} {key : String}
    (h : s.writers[i]? = some ⟨w, some keys⟩) (hkey : key ∈ keys) :
    s.step (.store i key) =
      ⟨s.registry.store key w.status, s.writers.set i ⟨w, some (keys.erase key)⟩⟩ := by
  simp only [step, h, if_pos hkey]

/-- What a turn can do: nothing, make a call, look for one, or write for one. -/
theorem step_cases (s : Writing) (u : Turn) :
    s.step u = s ∨
      (∃ w, s.step u = ⟨s.registry, s.writers ++ [⟨w, none⟩]⟩) ∨
      (∃ i w, s.writers[i]? = some ⟨w, none⟩ ∧
        s.step u = ⟨w.look s.registry, s.writers.set i ⟨w, some (w.finds s.registry)⟩⟩) ∨
      ∃ i w keys key, s.writers[i]? = some ⟨w, some keys⟩ ∧ key ∈ keys ∧
        s.step u = ⟨s.registry.store key w.status, s.writers.set i ⟨w, some (keys.erase key)⟩⟩ := by
  cases u with
  | begin w => exact Or.inr (Or.inl ⟨w, rfl⟩)
  | look i =>
      cases h : s.writers[i]? with
      | none => exact Or.inl (by simp only [step, h])
      | some writer =>
          obtain ⟨w, pending⟩ := writer
          cases pending with
          | none => exact Or.inr (Or.inr (Or.inl ⟨i, w, h, step_look h⟩))
          | some keys => exact Or.inl (by simp only [step, h])
  | store i key =>
      cases h : s.writers[i]? with
      | none => exact Or.inl (by simp only [step, h])
      | some writer =>
          obtain ⟨w, pending⟩ := writer
          cases pending with
          | none => exact Or.inl (by simp only [step, h])
          | some keys =>
              by_cases hkey : key ∈ keys
              · exact Or.inr (Or.inr (Or.inr ⟨i, w, keys, key, h, hkey, step_store h hkey⟩))
              · exact Or.inl (by simp only [step, h, if_neg hkey])

/-! ### Calls that nobody comes in between -/

/-- A call writes all that it has to write. -/
theorem run_stores {s : Writing} {i : Nat} {w : Write} {keys : List String}
    (h : s.writers[i]? = some ⟨w, some keys⟩) :
    s.run (keys.map (.store i)) =
      ⟨keys.foldl (fun r key => r.store key w.status) s.registry,
        s.writers.set i ⟨w, some []⟩⟩ := by
  induction keys generalizing s with
  | nil =>
      obtain ⟨hi, heq⟩ := List.getElem?_eq_some_iff.mp h
      show s = ⟨s.registry, s.writers.set i ⟨w, some []⟩⟩
      rw [← heq, List.set_getElem_self]
  | cons key rest ih =>
      obtain ⟨hi, -⟩ := List.getElem?_eq_some_iff.mp h
      rw [List.map_cons, run_cons, step_store h (by simp), List.erase_cons_head,
        ih (List.getElem?_set_self hi), List.set_set]
      rfl

theorem sorted_step {s : Writing} (h : s.registry.Sorted) (u : Turn) : (s.step u).registry.Sorted := by
  rcases step_cases s u with heq | ⟨w, heq⟩ | ⟨i, w, -, heq⟩ | ⟨i, w, keys, key, -, -, heq⟩ <;>
    rw [heq]
  · exact h
  · exact h
  · cases w <;> exact h
  · exact Registry.sorted_store h key w.status

private theorem foldl_finds {r : Registry} (h : r.Sorted) (w : Write) :
    (w.finds r).foldl (fun r key => r.store key w.status) (w.look r) = w.atOnce r := by
  cases w with
  | set key status =>
      simp only [Write.finds, Write.look, Write.atOnce, Registry.set]
      split <;> rfl
  | setAll status =>
      simp only [Write.finds, Write.look, Write.atOnce, Registry.setAll]
      split
      · rfl
      · exact Registry.foldl_store_keys h status
  | freeze => exact Registry.foldl_store_keys (r := { r with frozen := true }) h .notServing

/-- **A call that nobody comes in between does what it does at once.** -/
theorem run_alone {r : Registry} (hr : r.Sorted) (before : List Turn) (w : Write) :
    let s := run ⟨r, []⟩ before
    let i := s.writers.length
    s.run (.begin w :: .look i :: (w.finds s.registry).map (.store i)) =
      ⟨w.atOnce s.registry, s.writers ++ [⟨w, some []⟩]⟩ := by
  intro s i
  have hsorted : s.registry.Sorted :=
    run_keeps (P := fun s => s.registry.Sorted) (fun _ u h => sorted_step h u) hr before
  have hset : ∀ writer writer' : Writer,
      (s.writers ++ [writer]).set i writer' = s.writers ++ [writer'] := by
    intro writer writer'
    rw [List.set_append_right i _ (Nat.le_refl _), Nat.sub_self]
    rfl
  have hlook : (s.step (.begin w)).step (.look i) =
      ⟨w.look s.registry, s.writers ++ [⟨w, some (w.finds s.registry)⟩]⟩ := by
    rw [step_look (w := w) List.getElem?_concat_length]
    exact congrArg (Writing.mk _) (hset _ _)
  rw [run_cons, run_cons, hlook, run_stores (w := w) List.getElem?_concat_length]
  show (⟨_, _⟩ : Writing) = _
  rw [foldl_finds hsorted, hset]

/-! ### What is kept from the moment the flag goes up

When the flag goes up, the calls that have found it down still owe their writes.  From then on nobody
but a freeze comes to owe anything, so what may be written is known from this moment on, and every turn
keeps to it.
-/

private theorem mem_owed {s : Writing} {key : String} {status : Status} :
    (key, status) ∈ s.owed ↔
      ∃ w keys, ⟨w, some keys⟩ ∈ s.writers ∧ key ∈ keys ∧ w.status = status := by
  simp only [owed, List.mem_flatMap, List.mem_map, Prod.mk.injEq]
  constructor
  · rintro ⟨⟨w, pending⟩, hw, k, hk, rfl, hstatus⟩
    cases pending with
    | none => simp at hk
    | some keys => exact ⟨w, keys, hw, hk, hstatus⟩
  · rintro ⟨w, keys, hw, hk, hstatus⟩
    exact ⟨⟨w, some keys⟩, hw, key, hk, rfl, hstatus⟩

/-- What may be written to a key after the flag has gone up in a state. -/
def Meant (s : Writing) (key : String) (status : Status) : Prop :=
  status = .notServing ∨ (key, status) ∈ s.owed

/-- How a state stands to the one in which the flag has gone up: only what is meant is written, and
keys that a freeze no longer has to write read what is meant. -/
structure Kept (s t : Writing) : Prop where
  frozen : t.registry.frozen = true
  pending : ∀ w keys, ⟨w, some keys⟩ ∈ t.writers → ∀ key ∈ keys, Meant s key w.status
  settled : ∀ keys, ⟨.freeze, some keys⟩ ∈ t.writers → ∀ key ∈ t.registry.keys, key ∉ keys →
    Meant s key (t.registry.get key)

private theorem finds_of_frozen {r : Registry} (h : r.frozen = true) {w : Write} {key : String}
    (hkey : key ∈ w.finds r) : w = .freeze := by
  cases w with
  | set k status => simp [Write.finds, h] at hkey
  | setAll status => simp [Write.finds, h] at hkey
  | freeze => rfl

theorem Kept.step {s t : Writing} (h : Kept s t) (u : Turn) : Kept s (t.step u) := by
  rcases step_cases t u with heq | ⟨w, heq⟩ | ⟨i, w, hi, heq⟩ | ⟨i, w, keys, key, hi, hkey, heq⟩ <;>
    rw [heq]
  · exact h
  · have hold : ∀ w' keys, ⟨w', some keys⟩ ∈ t.writers ++ [⟨w, none⟩] →
        ⟨w', some keys⟩ ∈ t.writers := by
      intro w' keys hmem
      rcases List.mem_append.mp hmem with hmem | hmem
      · exact hmem
      · simp at hmem
    exact ⟨h.frozen, fun w' keys hmem => h.pending w' keys (hold w' keys hmem),
      fun keys hmem => h.settled keys (hold _ keys hmem)⟩
  · have hlook : w.look t.registry = t.registry := by
      cases w with
      | freeze => rw [Write.look, ← h.frozen]
      | _ => rfl
    rw [hlook]
    refine ⟨h.frozen, ?_, ?_⟩
    · intro w' keys hmem k hk
      rcases List.mem_or_eq_of_mem_set hmem with hold | hnew
      · exact h.pending w' keys hold k hk
      · cases hnew
        rw [finds_of_frozen h.frozen hk]
        exact Or.inl rfl
    · intro keys hmem k hk hnot
      rcases List.mem_or_eq_of_mem_set hmem with hold | hnew
      · exact h.settled keys hold k hk hnot
      · cases hnew
        exact absurd hk hnot
  · have hi' : ⟨w, some keys⟩ ∈ t.writers := List.mem_of_getElem? hi
    have hmeant : Meant s key w.status := h.pending w keys hi' key hkey
    refine ⟨h.frozen, ?_, ?_⟩
    · intro w' keys' hmem k hk
      rcases List.mem_or_eq_of_mem_set hmem with hold | hnew
      · exact h.pending w' keys' hold k hk
      · cases hnew
        exact h.pending w keys hi' k (List.mem_of_mem_erase hk)
    · intro keys' hmem k hk hnot
      rw [Registry.get_store]
      split
      · rename_i heq
        rw [heq]
        exact hmeant
      · rename_i hne
        have hthere : k ∈ t.registry.keys :=
          (Registry.mem_keys_store.mp hk).resolve_left hne
        rcases List.mem_or_eq_of_mem_set hmem with hold | hnew
        · exact h.settled keys' hold k hthere hnot
        · cases hnew
          exact h.settled keys hi' k hthere fun hc => hnot ((List.mem_erase_of_ne hne).mpr hc)

/-- As long as the flag is down, no freeze has looked. -/
theorem none_of_down (r : Registry) (before : List Turn)
    (h : (run ⟨r, []⟩ before).registry.frozen = false) (keys : List String) :
    ⟨.freeze, some keys⟩ ∉ (run ⟨r, []⟩ before).writers := by
  refine run_keeps (P := fun s => s.registry.frozen = false → ∀ keys,
    ⟨.freeze, some keys⟩ ∉ s.writers) ?_ (fun _ _ hmem => by cases hmem) before h keys
  intro s u ih hdown keys hmem
  rcases step_cases s u with heq | ⟨w, heq⟩ | ⟨i, w, hi, heq⟩ | ⟨i, w, keys', key, hi, hkey, heq⟩ <;>
    rw [heq] at hdown hmem
  · exact ih hdown keys hmem
  · rcases List.mem_append.mp hmem with hmem | hmem
    · exact ih hdown keys hmem
    · simp at hmem
  · rcases List.mem_or_eq_of_mem_set hmem with hold | hnew
    · cases w with
      | freeze => simp [Write.look] at hdown
      | _ => exact ih hdown keys hold
    · cases hnew
      simp [Write.look] at hdown
  · rcases List.mem_or_eq_of_mem_set hmem with hold | hnew
    · exact ih hdown keys hold
    · cases hnew
      exact ih hdown keys' (List.mem_of_getElem? hi)

/-- The flag goes up. -/
theorem kept_look {s : Writing} {i : Nat} (hi : s.writers[i]? = some ⟨.freeze, none⟩)
    (hnone : ∀ keys, ⟨.freeze, some keys⟩ ∉ s.writers) : Kept s (s.step (.look i)) := by
  rw [step_look hi]
  refine ⟨rfl, ?_, ?_⟩
  · intro w keys hmem key hkey
    rcases List.mem_or_eq_of_mem_set hmem with hold | hnew
    · exact Or.inr (mem_owed.mpr ⟨w, keys, hold, hkey, rfl⟩)
    · cases hnew
      exact Or.inl rfl
  · intro keys hmem key hkey hnot
    rcases List.mem_or_eq_of_mem_set hmem with hold | hnew
    · exact absurd hold (hnone keys)
    · cases hnew
      exact absurd hkey hnot

theorem kept_run {s t : Writing} (h : Kept s t) (turns : List Turn) : Kept s (t.run turns) :=
  run_keeps (fun _ u h => h.step u) h turns

/-- A freeze that has returned leaves no key with anything but what is meant. -/
theorem Kept.returned {s t : Writing} (h : Kept s t) (hr : t.Returned) {key : String}
    (hkey : key ∈ t.registry.keys) : Meant s key (t.registry.get key) :=
  h.settled [] hr key hkey (by simp)

/-! ### Who overtakes a freeze

The other direction needs a run: let the freeze write all that it has to write, and the call that owes a
status write last.
-/

/-- Whatever is owed when the flag goes up can still be written once the freeze has returned. -/
theorem owed_overtakes {s : Writing} {i : Nat} (hi : s.writers[i]? = some ⟨.freeze, none⟩)
    {key : String} {status : Status} (h : (key, status) ∈ s.owed) :
    ∃ after, (s.run (.look i :: after)).Returned ∧
      key ∈ (s.run (.look i :: after)).registry.keys ∧
      (s.run (.look i :: after)).registry.get key = status := by
  obtain ⟨w, keys, hw, hkey, hstatus⟩ := mem_owed.mp h
  obtain ⟨j, hj⟩ := List.getElem?_of_mem hw
  obtain ⟨hlt, -⟩ := List.getElem?_eq_some_iff.mp hi
  have hne : i ≠ j := by
    intro heq
    rw [heq, hj] at hi
    cases hi
  -- The freeze writes all its keys, and then the other call writes the one it owes.
  refine ⟨s.registry.keys.map (.store i) ++ [.store j key], ?_⟩
  have hfreeze : ((s.step (.look i)).run (s.registry.keys.map (.store i))).writers =
      s.writers.set i ⟨.freeze, some []⟩ := by
    have hi' : (s.step (.look i)).writers[i]? = some ⟨.freeze, some s.registry.keys⟩ := by
      rw [step_look hi]
      exact List.getElem?_set_self hlt
    rw [run_stores hi', step_look hi]
    exact List.set_set ..
  have hj' : ((s.step (.look i)).run (s.registry.keys.map (.store i))).writers[j]? =
      some ⟨w, some keys⟩ := by
    rw [hfreeze, List.getElem?_set_ne hne, hj]
  rw [run_cons, run_append, run_cons, step_store hj' hkey, run_nil]
  refine ⟨?_, ?_, ?_⟩
  · refine List.mem_of_getElem? (i := i) ?_
    rw [List.getElem?_set_ne (Ne.symm hne), hfreeze]
    exact List.getElem?_set_self hlt
  · exact Registry.mem_keys_store.mpr (Or.inl rfl)
  · show (Registry.store _ key w.status).get key = status
    rw [Registry.get_store, if_pos rfl, hstatus]

/-- **A freeze holds for certain exactly if no call owes another status when the flag goes up, and in
any case no key reads anything but "not serving" or what it was owed then.** -/
theorem freeze_holds_iff (r : Registry) (before : List Turn) (i : Nat)
    (hi : (run ⟨r, []⟩ before).writers[i]? = some ⟨.freeze, none⟩)
    (hdown : (run ⟨r, []⟩ before).registry.frozen = false) :
    let s := run ⟨r, []⟩ before
    ((∀ after, (s.run (.look i :: after)).Returned → (s.run (.look i :: after)).registry.AllOut) ↔
        ∀ key status, (key, status) ∈ s.owed → status = .notServing) ∧
      ∀ after, (s.run (.look i :: after)).Returned →
        ∀ key ∈ (s.run (.look i :: after)).registry.keys,
          Meant s key ((s.run (.look i :: after)).registry.get key) := by
  intro s
  have hkept : ∀ after, Kept s (s.run (.look i :: after)) :=
    kept_run (kept_look hi (none_of_down r before hdown))
  refine ⟨⟨?_, ?_⟩, fun after hr key hkey => (hkept after).returned hr hkey⟩
  · intro hall key status howed
    obtain ⟨after, hr, hkey, hget⟩ := owed_overtakes hi howed
    rw [← hget]
    exact hall after hr key hkey
  · intro howed after hr key hkey
    rcases (hkept after).returned hr hkey with h | h
    · exact h
    · exact howed key _ h

/-- A call has found the flag down, and a freeze is about to put it up. -/
def late : List Turn := [.begin (.set "a" .serving), .look 0, .begin .freeze]

theorem freeze_holds_iff_late :
    (run ⟨.empty, []⟩ late).writers[1]? = some ⟨.freeze, none⟩ ∧
      (run ⟨.empty, []⟩ late).registry.frozen = false ∧
      ¬∀ after, ((run ⟨.empty, []⟩ late).run (.look 1 :: after)).Returned →
        ((run ⟨.empty, []⟩ late).run (.look 1 :: after)).registry.AllOut := by
  refine ⟨rfl, rfl, ?_⟩
  intro hall
  have howed := (freeze_holds_iff .empty late 1 rfl rfl).1.mp hall "a" .serving (by decide)
  cases howed

/-- A freeze has returned, and a key reads "serving". -/
theorem freeze_overtaken :
    ¬∀ r turns, (run ⟨r, []⟩ turns).Returned → (run ⟨r, []⟩ turns).registry.AllOut := by
  intro hall
  have hout := hall .empty (late ++ [.look 1, .store 0 "a"]) (by decide)
  exact absurd hout (by decide)

end EmbedServer.Health.Writing
