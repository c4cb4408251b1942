/-
What a registry says after it has been written.

A write changes what is said of one key and of no other, and adds that key at most.  Freezing and
setting all keys are such writes, one for each key, which is all that is said of them here: in sorted
entries a write goes past the keys before its own, so writing one key after the other is writing
them all.

What has been frozen stays: `IsOut` is the state in which every key is not serving and no write that
asks the flag gets through.
-/
import EmbedServer.Health.Session

namespace EmbedServer.Health.Registry

/-! ### One key

Entries are a list, but nobody looks at more of it than a lookup and its keys.  What is said here of a
write is all that is known of it later on.
-/

private theorem lookup_cons_eq (key' k : String) (e : Entry) (rest : List (String × Entry)) :
    ((k, e) :: rest).lookup key' = if key' = k then some e else rest.lookup key' := by
  by_cases hk : key' = k
  · subst hk
    simp
  · simp [List.lookup_cons, beq_false_of_ne hk, hk]

private theorem lookup_write (key key' : String) (status : Status) (entries : List (String × Entry)) :
    ((write key status entries).lookup key').map Entry.status =
      if key' = key then some status else (entries.lookup key').map Entry.status := by
  induction entries with
  | nil =>
      rw [write, lookup_cons_eq]
      split <;> rfl
  | cons entry rest ih =>
      obtain ⟨k, e⟩ := entry
      rw [write, lookup_cons_eq]
      split
      · rename_i heq
        rw [lookup_cons_eq, ← heq]
        split <;> rfl
      · rename_i hne
        split
        · rw [lookup_cons_eq, lookup_cons_eq]
          split <;> rfl
        · rw [lookup_cons_eq]
          by_cases hk : key' = k
          · rw [if_pos hk, if_pos hk, if_neg fun h => hne (h.symm.trans hk)]
          · rw [if_neg hk, if_neg hk]
            exact ih

theorem get_store (r : Registry) (key key' : String) (status : Status) :
    (r.store key status).get key' = if key' = key then status else r.get key' := by
  simp only [get, find?, store, lookup_write]
  split <;> rfl

private theorem mem_keys_write {key key' : String} {status : Status} {entries : List (String × Entry)} :
    key' ∈ (write key status entries).map Prod.fst ↔
      key' = key ∨ key' ∈ entries.map Prod.fst := by
  induction entries with
  | nil => simp [write]
  | cons entry rest ih =>
      obtain ⟨k, e⟩ := entry
      simp only [write]
      split
      · rename_i heq
        simp [heq]
      · split
        · simp
        · simp only [List.map_cons, List.mem_cons, ih]
          exact or_left_comm

theorem mem_keys_store {r : Registry} {key key' : String} {status : Status} :
    key' ∈ (r.store key status).keys ↔ key' = key ∨ key' ∈ r.keys := mem_keys_write

/-- Every key there is reads "not serving". -/
def AllOut (r : Registry) : Prop := ∀ key ∈ r.keys, r.get key = .notServing

instance (r : Registry) : Decidable r.AllOut :=
  inferInstanceAs (Decidable (∀ key ∈ r.keys, r.get key = .notServing))

private theorem lookup_of_mem {key : String} {entries : List (String × Entry)}
    (h : key ∈ entries.map Prod.fst) : ∃ e, entries.lookup key = some e ∧ (key, e) ∈ entries := by
  induction entries with
  | nil => cases h
  | cons entry rest ih =>
      obtain ⟨k, e⟩ := entry
      rw [lookup_cons_eq]
      by_cases hk : key = k
      · exact ⟨e, if_pos hk, by rw [hk]; exact List.mem_cons_self⟩
      · obtain ⟨e', hlookup, hmem⟩ := ih ((List.mem_cons.mp h).resolve_left hk)
        exact ⟨e', by rw [if_neg hk, hlookup], List.mem_cons_of_mem _ hmem⟩

/-- A key that there is reads what the snapshot says of it. -/
theorem mem_snapshot_get {r : Registry} {key : String} (h : key ∈ r.keys) :
    (key, r.get key) ∈ r.snapshot := by
  obtain ⟨e, hlookup, hmem⟩ := lookup_of_mem h
  refine List.mem_map.mpr ⟨(key, e), hmem, ?_⟩
  rw [get, find?, hlookup]
  rfl

theorem set_of_frozen {r : Registry} (h : r.frozen = true) (key : String) (status : Status) :
    r.set key status = r := by
  rw [set, if_pos h]

theorem setAll_of_frozen {r : Registry} (h : r.frozen = true) (status : Status) :
    r.setAll status = r := by
  rw [setAll, if_pos h]

theorem find?_of_not_mem {r : Registry} {key : String} (h : key ∉ r.keys) : r.find? key = none := by
  refine List.lookup_eq_none_iff.mpr ?_
  intro entry hentry
  have hne : key ≠ entry.1 := fun heq => h (heq ▸ List.mem_map_of_mem hentry)
  simpa using hne

theorem get_of_not_mem {r : Registry} {key : String} (h : key ∉ r.keys) : r.get key = .unknown := by
  rw [get, find?_of_not_mem h]
  rfl

theorem mem_keys_iff {r : Registry} {key : String} : key ∈ r.keys ↔ ∃ e, r.find? key = some e := by
  refine ⟨fun h => (lookup_of_mem h).imp fun e he => he.1, ?_⟩
  rintro ⟨e, he⟩
  refine Decidable.byContradiction ?_
  intro hkey
  have hget := find?_of_not_mem hkey
  rw [he] at hget
  cases hget

theorem get_of_find? {r : Registry} {key : String} {e : Entry} (h : r.find? key = some e) :
    r.get key = e.status := by
  rw [get, h]
  rfl

/-! ### All keys

A freeze writes to all keys at once, while a call that others may come in between writes to one key after
the other.  That the two come to the same needs the order of the entries: a write to a key goes past the
ones before it.
-/

private theorem lookup_writeAll (status : Status) (entries : List (String × Entry)) (key : String) :
    (writeAll status entries).lookup key =
      (entries.lookup key).map fun e => ⟨status, e.version + 1⟩ := by
  induction entries with
  | nil => rfl
  | cons entry rest ih =>
      obtain ⟨k, e⟩ := entry
      rw [writeAll, List.map_cons, lookup_cons_eq, lookup_cons_eq]
      split
      · rfl
      · exact ih

private theorem keys_writeAll (status : Status) (entries : List (String × Entry)) :
    (writeAll status entries).map Prod.fst = entries.map Prod.fst := by
  rw [writeAll, List.map_map]
  rfl

/-- The keys after a write of all of them are the keys before. -/
theorem keys_freeze (r : Registry) : r.freeze.keys = r.keys := keys_writeAll _ _

theorem keys_setAll (r : Registry) (status : Status) : (r.setAll status).keys = r.keys := by
  rw [setAll]
  split
  · rfl
  · exact keys_writeAll _ _

theorem find?_freeze (r : Registry) (key : String) :
    r.freeze.find? key = (r.find? key).map fun e => ⟨.notServing, e.version + 1⟩ :=
  lookup_writeAll _ _ _

theorem find?_setAll {r : Registry} (h : r.frozen = false) (status : Status) (key : String) :
    (r.setAll status).find? key = (r.find? key).map fun e => ⟨status, e.version + 1⟩ := by
  rw [setAll, h]
  exact lookup_writeAll _ _ _

/-- After a freeze every key there is reads "not serving". -/
theorem allOut_freeze (r : Registry) : r.freeze.AllOut := by
  intro key hkey
  rw [keys_freeze] at hkey
  obtain ⟨e, he⟩ := mem_keys_iff.mp hkey
  exact get_of_find? (by rw [find?_freeze, he]; rfl)

/-- The keys in increasing order, each of them once. -/
def Sorted (r : Registry) : Prop := r.keys.Pairwise (· < ·)

/-- In sorted entries a key is found with the entry it stands with. -/
theorem lookup_of_mem_sorted {entries : List (String × Entry)} {key : String} {e : Entry}
    (h : (entries.map Prod.fst).Pairwise (· < ·)) (hmem : (key, e) ∈ entries) :
    entries.lookup key = some e := by
  induction entries with
  | nil => cases hmem
  | cons entry rest ih =>
      obtain ⟨k, e'⟩ := entry
      obtain ⟨hfirst, hrest⟩ := List.pairwise_cons.mp h
      rw [lookup_cons_eq]
      rcases List.mem_cons.mp hmem with heq | hin
      · cases heq
        exact if_pos rfl
      · have hlt : k < key := hfirst key (List.mem_map_of_mem hin)
        have hne : key ≠ k := fun heq => String.lt_irrefl k (heq ▸ hlt)
        rw [if_neg hne]
        exact ih hrest hin

theorem keys_snapshot (r : Registry) : r.snapshot.map Prod.fst = r.keys := by
  rw [snapshot, List.map_map]
  rfl

/-- A snapshot says of each key there what is read of it. -/
theorem mem_snapshot_iff {r : Registry} (h : r.Sorted) {key : String} {status : Status} :
    (key, status) ∈ r.snapshot ↔ key ∈ r.keys ∧ r.get key = status := by
  constructor
  · intro hmem
    obtain ⟨⟨k, e⟩, hentry, heq⟩ := List.mem_map.mp hmem
    cases heq
    exact ⟨List.mem_map_of_mem hentry, get_of_find? (lookup_of_mem_sorted h hentry)⟩
  · rintro ⟨hkey, rfl⟩
    exact mem_snapshot_get hkey

/-- Where nothing is serving, one more freeze makes no difference to what is read. -/
theorem snapshot_freeze {r : Registry} (h : r.Sorted) (hout : r.AllOut) :
    r.freeze.snapshot = r.snapshot := by
  rw [snapshot, snapshot, freeze, writeAll, List.map_map]
  refine List.map_congr_left ?_
  rintro ⟨k, e⟩ hentry
  have hget : r.get k = e.status := get_of_find? (lookup_of_mem_sorted h hentry)
  have hk : r.get k = .notServing := hout k (List.mem_map_of_mem hentry)
  exact congrArg (Prod.mk k) (hk.symm.trans hget)

private theorem write_head (key : String) (status : Status) (e : Entry) (rest : List (String × Entry)) :
    write key status ((key, e) :: rest) = (key, ⟨status, e.version + 1⟩) :: rest := by
  simp [write]

/-- A write goes past the keys before its own. -/
theorem write_past {k key : String} (h : k < key) (status : Status) (e : Entry)
    (rest : List (String × Entry)) :
    write key status ((k, e) :: rest) = (k, e) :: write key status rest := by
  have hne : key ≠ k := fun heq => String.lt_irrefl k (heq ▸ h)
  rw [write, if_neg hne, if_neg (String.lt_asymm h)]

private theorem foldl_write_past {k : String} (status : Status) (e : Entry) (keys : List String)
    (h : ∀ key ∈ keys, k < key) (rest : List (String × Entry)) :
    keys.foldl (fun es key => write key status es) ((k, e) :: rest) =
      (k, e) :: keys.foldl (fun es key => write key status es) rest := by
  induction keys generalizing rest with
  | nil => rfl
  | cons key keys ih =>
      rw [List.foldl_cons, List.foldl_cons, write_past (h key (by simp)),
        ih (fun k' hk' => h k' (by simp [hk']))]

/-- Writing one key after the other is writing them all. -/
theorem foldl_write {entries : List (String × Entry)} (h : (entries.map Prod.fst).Pairwise (· < ·))
    (status : Status) :
    (entries.map Prod.fst).foldl (fun es key => write key status es) entries =
      writeAll status entries := by
  induction entries with
  | nil => rfl
  | cons entry rest ih =>
      obtain ⟨k, e⟩ := entry
      obtain ⟨hfirst, hrest⟩ := List.pairwise_cons.mp h
      rw [List.map_cons, List.foldl_cons, write_head, foldl_write_past _ _ _ hfirst, ih hrest]
      rfl

private theorem foldl_store (r : Registry) (status : Status) (keys : List String) :
    keys.foldl (fun r key => store r key status) r =
      { r with entries := keys.foldl (fun es key => write key status es) r.entries } := by
  induction keys generalizing r with
  | nil => rfl
  | cons key keys ih => exact ih (r.store key status)

theorem foldl_store_keys {r : Registry} (h : r.Sorted) (status : Status) :
    r.keys.foldl (fun r key => store r key status) r =
      { r with entries := writeAll status r.entries } := by
  rw [foldl_store, keys, foldl_write h]

private theorem sorted_write {entries : List (String × Entry)} {key : String} {status : Status}
    (h : (entries.map Prod.fst).Pairwise (· < ·)) :
    ((write key status entries).map Prod.fst).Pairwise (· < ·) := by
  induction entries with
  | nil => simp [write]
  | cons entry rest ih =>
      obtain ⟨k, e⟩ := entry
      obtain ⟨hfirst, hrest⟩ := List.pairwise_cons.mp h
      simp only [write]
      split
      · rename_i heq
        simpa [heq] using h
      · rename_i hne
        split
        · rename_i hlt
          refine List.pairwise_cons.mpr ⟨?_, h⟩
          intro k' hk'
          rcases List.mem_cons.mp hk' with rfl | hin
          · exact hlt
          · exact String.lt_trans hlt (hfirst k' hin)
        · rename_i hge
          refine List.pairwise_cons.mpr ⟨?_, ih hrest⟩
          intro k' hk'
          rcases mem_keys_write.mp hk' with rfl | hin
          · exact Std.lt_of_le_of_ne (String.not_lt.mp hge) (Ne.symm hne)
          · exact hfirst k' hin

/-- A write to a key that is there counts. -/
theorem lookup_write_self {entries : List (String × Entry)} {key : String} {e : Entry}
    (h : (entries.map Prod.fst).Pairwise (· < ·)) (he : entries.lookup key = some e)
    (status : Status) :
    (write key status entries).lookup key = some ⟨status, e.version + 1⟩ := by
  induction entries with
  | nil => cases he
  | cons entry rest ih =>
      obtain ⟨k, e'⟩ := entry
      obtain ⟨hfirst, hrest⟩ := List.pairwise_cons.mp h
      rw [lookup_cons_eq] at he
      by_cases hk : key = k
      · rw [if_pos hk] at he
        cases he
        rw [hk, write_head, lookup_cons_eq, if_pos rfl]
      · rw [if_neg hk] at he
        have hmem : key ∈ rest.map Prod.fst := by
          refine Decidable.byContradiction fun hnot => ?_
          have hnone := find?_of_not_mem (r := ⟨rest, false⟩) hnot
          rw [find?, he] at hnone
          cases hnone
        rw [write_past (hfirst key hmem), lookup_cons_eq, if_neg hk]
        exact ih hrest he

/-- A write leaves the other keys as they are. -/
theorem lookup_write_ne {key key' : String} (h : key' ≠ key) (status : Status)
    (entries : List (String × Entry)) :
    (write key status entries).lookup key' = entries.lookup key' := by
  induction entries with
  | nil =>
      rw [write, lookup_cons_eq, if_neg h]
  | cons entry rest ih =>
      obtain ⟨k, e⟩ := entry
      rw [write]
      split
      · rename_i heq
        rw [lookup_cons_eq, lookup_cons_eq, if_neg (heq ▸ h), if_neg (heq ▸ h)]
      · split
        · rw [lookup_cons_eq, if_neg h]
        · rw [lookup_cons_eq, lookup_cons_eq, ih]

theorem sorted_store {r : Registry} (h : r.Sorted) (key : String) (status : Status) :
    (r.store key status).Sorted := by
  have hentries : (r.entries.map Prod.fst).Pairwise (· < ·) := h
  exact sorted_write hentries

theorem sorted_set {r : Registry} (h : r.Sorted) (key : String) (status : Status) :
    (r.set key status).Sorted := by
  rw [set]
  split
  · exact h
  · exact sorted_store h key status

theorem sorted_setAll {r : Registry} (h : r.Sorted) (status : Status) : (r.setAll status).Sorted := by
  rw [Sorted, keys_setAll]
  exact h

theorem sorted_freeze {r : Registry} (h : r.Sorted) : r.freeze.Sorted := by
  rw [Sorted, keys_freeze]
  exact h

end EmbedServer.Health.Registry
