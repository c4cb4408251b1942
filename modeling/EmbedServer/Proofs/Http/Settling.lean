/-
A look at every request.

Every request is looked at once, in whatever order.  A look at a stream depends on the registry, the
clock and the signal that no more calls are taken, and looks change none of these; so what becomes of
an exchange in which no call waits does not depend on the other exchanges.  Once it has been looked at,
one more look at the same moment finds nothing new.
-/
import EmbedServer.Proofs.Http.Exchanges

namespace EmbedServer.Http

variable {σ : Type}

/-! ### Streams that have been looked at

A look polls a stream until it has nothing more to tell.  That this comes to an end has to be shown case
by case, because a stream may change its kind on the way.
-/

namespace Follow

open Health.Watch (Poll)

theorem pollAll_yields {r : Health.Registry} {draining : Bool} {f f' : Follow} {s : Health.Status}
    (h : f.poll r draining = (.yields s, f')) (fuel : Nat) :
    f.pollAll r draining (fuel + 1) =
      (s :: (f'.pollAll r draining fuel).1, (f'.pollAll r draining fuel).2) := by
  rw [pollAll, h]

theorem pollAll_silent {r : Health.Registry} {draining : Bool} {f f' : Follow} {p : Poll}
    (h : f.poll r draining = (p, f')) (hp : ∀ s, p ≠ .yields s) (fuel : Nat) :
    f.pollAll r draining (fuel + 1) = ([], f') := by
  rw [pollAll, h]
  split
  · rename_i s f'' heq
    cases heq
    exact absurd rfl (hp s)
  · rename_i heq
    cases heq
    rfl

/-- A stream has nothing to tell that goes on at this moment. -/
def Silent (r : Health.Registry) (draining : Bool) (f : Follow) : Prop :=
  f.poll r draining = (.pending, f)

private theorem take_silent {r : Health.Registry} {draining : Bool} {f : Follow} (h : f.Silent r draining) :
    f.take r draining = ([], f) :=
  pollAll_silent h (by intro s hs; cases hs) 2

theorem poll_over (r : Health.Registry) (draining : Bool) (key : String) :
    poll r draining ⟨key, none⟩ = (.ended, ⟨key, none⟩) := rfl

theorem poll_draining (r : Health.Registry) (key : String) (w : Health.Watch) :
    poll r true ⟨key, some w⟩ = (.yields (r.get key), ⟨key, none⟩) := rfl

theorem poll_ended (r : Health.Registry) (draining : Bool) (key : String) :
    poll r draining ⟨key, some (.ending none)⟩ = (.yields (r.get key), ⟨key, none⟩) := by
  cases draining <;> rfl

theorem poll_ending (r : Health.Registry) (key : String) (s : Health.Status) :
    poll r false ⟨key, some (.ending (some s))⟩ = (.yields s, ⟨key, some (.ending none)⟩) := rfl

/-- A stream that follows a key tells a status that it has not told, or nothing. -/
theorem poll_following (r : Health.Registry) (key k : String) (seen : Option Nat) :
    (⟨key, some (.following k seen)⟩ : Follow).Silent r false ∨
      ∃ s seen', poll r false ⟨key, some (.following k seen)⟩ =
          (.yields s, ⟨key, some (.following k seen')⟩) ∧
        (⟨key, some (.following k seen')⟩ : Follow).Silent r false := by
  unfold Silent
  cases hfind : r.find? k with
  | none => exact Or.inl (by simp [poll, Health.Watch.poll, hfind])
  | some e =>
      by_cases hseen : seen = some e.version
      · exact Or.inl (by simp [poll, Health.Watch.poll, hfind, hseen])
      · exact Or.inr ⟨e.status, some e.version, by simp [poll, Health.Watch.poll, hfind, hseen],
          by simp [poll, Health.Watch.poll, hfind]⟩

/-- What is left of a stream after a look is over, or has nothing more to tell. -/
theorem take_rests (r : Health.Registry) (draining : Bool) (f : Follow) :
    (f.take r draining).2.isOver = true ∨ (f.take r draining).2.Silent r draining := by
  obtain ⟨key, watch⟩ := f
  have hover : ∀ fuel, pollAll r draining fuel ⟨key, none⟩ = ([], ⟨key, none⟩) := by
    intro fuel
    cases fuel with
    | zero => rfl
    | succ fuel => exact pollAll_silent (poll_over r draining key) (by intro s hs; cases hs) fuel
  have hlast : ∀ fuel, (pollAll r draining (fuel + 1) ⟨key, some (.ending none)⟩).2 =
      ⟨key, none⟩ := by
    intro fuel
    rw [pollAll_yields (poll_ended r draining key) fuel, hover]
  unfold take
  cases watch with
  | none =>
      rw [hover]
      exact Or.inl rfl
  | some w =>
      cases draining with
      | true =>
          rw [pollAll_yields (poll_draining r key w), hover]
          exact Or.inl rfl
      | false =>
          cases w with
          | ending last =>
              cases last with
              | none =>
                  rw [hlast]
                  exact Or.inl rfl
              | some s =>
                  rw [pollAll_yields (poll_ending r key s), hlast]
                  exact Or.inl rfl
          | following k seen =>
              rcases poll_following r key k seen with h | ⟨s, seen', h, hnext⟩
              · rw [pollAll_silent h (by intro s hs; cases hs)]
                exact Or.inr h
              · rw [pollAll_yields h, pollAll_silent hnext (by intro s hs; cases hs)]
                exact Or.inr hnext

end Follow

namespace Server

/-! ### Exchanges without a waiting call -/

/-- What a look makes of an exchange in which no call waits. -/
def refreshed (s : Server σ) (e : Exchange σ) : Exchange σ :=
  match e.phase with
  | .following f heard => s.followUp e f heard
  | .waiting .. | .complete | .dropped => e

/-- Nothing new is found by looking at an exchange. -/
def Rests (s : Server σ) (e : Exchange σ) : Prop := s.refreshed e = e

theorem pending?_refreshed (s : Server σ) {e : Exchange σ} (h : e.pending? = none) :
    (s.refreshed e).pending? = none := by
  unfold refreshed
  split
  · exact pending?_followUp s _ _ _
  · exact h
  · exact h
  · exact h

/-- A stream that has been looked at rests. -/
theorem rests_followUp (s : Server σ) (e : Exchange σ) (f : Follow) (heard : Nat) :
    s.Rests (s.followUp e f heard) := by
  have htake := Follow.take_rests s.core.health s.draining.ready f
  have hsilence : 0 < Follow.silence.nanos := by decide
  unfold Rests
  simp only [followUp]
  split
  · rfl
  · rename_i hopen
    have hsilent := htake.resolve_left hopen
    have hagain := Follow.take_silent hsilent
    have hlate : ¬ s.core.now + Follow.silence.nanos ≤ s.core.now := by omega
    split
    · simp [refreshed, followUp, hagain, hopen, hlate, String.join]
    · split
      · simp [refreshed, followUp, hagain, hopen, hlate, String.join]
      · rename_i hquiet
        simp [refreshed, followUp, hagain, hopen, hquiet, String.join]

theorem rests_refreshed (s : Server σ) (e : Exchange σ) : s.Rests (s.refreshed e) := by
  cases hphase : e.phase with
  | following f heard =>
      have h : s.refreshed e = s.followUp e f heard := by simp [refreshed, hphase]
      rw [h]
      exact rests_followUp s e f heard
  | waiting request p => simp [Rests, refreshed, hphase]
  | complete => simp [Rests, refreshed, hphase]
  | dropped => simp [Rests, refreshed, hphase]

/-! ### Servers that say the same of health -/

/-- Two servers with the same registry, clock and signal that no more calls are taken. -/
structure Level (s s' : Server σ) : Prop where
  health : s'.core.health = s.core.health
  now : s'.core.now = s.core.now
  draining : s'.draining = s.draining

theorem Level.trans {a b c : Server σ} (h₁ : Level a b) (h₂ : Level b c) : Level a c :=
  ⟨h₂.health.trans h₁.health, h₂.now.trans h₁.now, h₂.draining.trans h₁.draining⟩

theorem Level.symm {s s' : Server σ} (h : Level s s') : Level s' s :=
  ⟨h.health.symm, h.now.symm, h.draining.symm⟩

theorem Same.level {s s' : Server σ} (h : Same s s') : Level s s' :=
  ⟨h.core.health, h.core.now, h.draining⟩

theorem Level.followUp {s s' : Server σ} (h : Level s s') (e : Exchange σ) (f : Follow)
    (heard : Nat) : s'.followUp e f heard = s.followUp e f heard := by
  simp only [Server.followUp, h.health, h.now, h.draining]

theorem Level.refreshed {s s' : Server σ} (h : Level s s') (e : Exchange σ) :
    s'.refreshed e = s.refreshed e := by
  simp only [Server.refreshed, h.followUp]

theorem Level.respond {s s' : Server σ} (h : Level s s') (e : Exchange σ) (r : Response) :
    s'.respond e r = s.respond e r := by
  simp only [Server.respond, h.followUp, h.health, h.now]

/-! ### The order of looks

The calls that are due come first, by the moments at which they were, and then all other requests.  All
that is used of the order is that it has every request once.
-/

private theorem due_sublist (s : Server σ) :
    (s.due.map Prod.snd).Sublist (List.range s.exchanges.length) := by
  have hsub : ∀ (xs : List (Exchange σ × Nat)) (g : Exchange σ × Nat → Option (Nat × Nat)),
      (∀ x y, g x = some y → y.2 = x.2) →
        ((xs.filterMap g).map Prod.snd).Sublist (xs.map Prod.snd) := by
    intro xs g hg
    induction xs with
    | nil => exact List.Sublist.slnil
    | cons x rest ih =>
        cases h : g x with
        | none =>
            rw [List.filterMap_cons_none h, List.map_cons]
            exact ih.cons _
        | some y =>
            rw [List.filterMap_cons_some h, List.map_cons, List.map_cons, hg x y h]
            exact ih.cons_cons _
  have hindex := List.zipIdx_map_snd 0 s.exchanges
  rw [← List.range_eq_range'] at hindex
  rw [← hindex]
  refine hsub _ _ ?_
  rintro ⟨e, i⟩ y h
  dsimp only at h
  split at h
  · split at h
    · rw [← Option.some.inj h]
    · cases h
  · cases h

/-- Every request is looked at once. -/
theorem order_perm (s : Server σ) : s.order.Perm (List.range s.exchanges.length) := by
  have hdue : ((s.due.mergeSort fun a b => a.1 ≤ b.1).map Prod.snd).Perm (s.due.map Prod.snd) :=
    (List.mergeSort_perm _ _).map _
  have hsub := due_sublist s
  refine (List.perm_ext_iff_of_nodup ?_ List.nodup_range).mpr ?_
  · refine List.nodup_append.mpr ⟨?_, List.nodup_range.filter _, ?_⟩
    · exact hdue.nodup_iff.mpr (List.nodup_range.sublist hsub)
    · intro i hi j hj heq
      subst heq
      simp only [List.mem_filter, Bool.not_eq_true', List.contains_eq_mem, decide_eq_false_iff_not] at hj
      exact hj.2 hi
  · intro i
    simp only [order, List.mem_append, List.mem_filter, Bool.not_eq_true', List.contains_eq_mem,
      decide_eq_false_iff_not]
    constructor
    · rintro (hi | ⟨hi, -⟩)
      · exact hsub.subset (hdue.subset hi)
      · exact hi
    · intro hi
      by_cases hd : i ∈ (s.due.mergeSort fun a b => a.1 ≤ b.1).map Prod.snd
      · exact Or.inl hd
      · exact Or.inr ⟨hi, hd⟩

/-! ### Looks -/

theorem Same.trans {a b c : Server σ} (h₁ : Same a b) (h₂ : Same b c) : Same a c :=
  ⟨h₂.limit.trans h₁.limit, h₂.draining.trans h₁.draining, h₁.core.trans h₂.core⟩

private theorem same_looks (s : Server σ) (ids : List Nat) : Same s (ids.foldl look s) := by
  induction ids generalizing s with
  | nil => exact Same.refl s
  | cons i rest ih => exact (same_look s i).trans (ih (s.look i))

theorem same_settle (s : Server σ) : Same s s.settle := same_looks s s.order

theorem length_settle (s : Server σ) : s.settle.exchanges.length = s.exchanges.length := by
  unfold settle
  generalize s.order = ids
  induction ids generalizing s with
  | nil => rfl
  | cons i rest ih => exact (ih (s.look i)).trans (s.length_look i)

/-- A look at another exchange leaves this one as it is. -/
theorem getElem?_look_ne (s : Server σ) {i j : Nat} (h : i ≠ j) :
    (s.look i).exchanges[j]? = s.exchanges[j]? := by
  rcases look_cases s i with ⟨hlook, -⟩ | ⟨e, f, heard, -, -, hlook, -⟩ |
    ⟨e, request, p, w, c', after, o, -, -, -, -, -, hlook, -⟩ <;> rw [hlook]
  · simp [put, List.getElem?_set_ne h]
  · simp [put, List.getElem?_set_ne h]

theorem getElem?_look_idle {s : Server σ} {j : Nat} {e : Exchange σ} (he : s.exchanges[j]? = some e)
    (hidle : e.pending? = none) : (s.look j).exchanges[j]? = some (s.refreshed e) := by
  have hj := (List.getElem?_eq_some_iff.mp he).1
  cases hphase : e.phase with
  | waiting request p => simp [Exchange.pending?, hphase] at hidle
  | following f heard =>
      simp only [look, he, hphase, put, refreshed]
      exact List.getElem?_set_self hj
  | complete => simp only [look, he, hphase, refreshed]
  | dropped => simp only [look, he, hphase, refreshed]

private theorem getElem?_looks_idle {ids : List Nat} (hnodup : ids.Nodup) {s : Server σ} {j : Nat}
    {e : Exchange σ} (he : s.exchanges[j]? = some e) (hidle : e.pending? = none) :
    (ids.foldl look s).exchanges[j]? = some (if j ∈ ids then s.refreshed e else e) := by
  induction ids generalizing s e with
  | nil => simpa using he
  | cons i rest ih =>
      obtain ⟨hi, hrest⟩ := List.nodup_cons.mp hnodup
      rw [List.foldl_cons]
      by_cases hij : i = j
      · subst hij
        rw [ih hrest (getElem?_look_idle he hidle) (pending?_refreshed s hidle), if_neg hi,
          if_pos List.mem_cons_self]
      · rw [ih hrest ((getElem?_look_ne s hij).trans he) hidle, (same_look s i).level.refreshed]
        simp [Ne.symm hij]

/-- **What becomes of an exchange in which no call waits does not depend on the others.** -/
theorem getElem?_settle_idle {s : Server σ} {j : Nat} {e : Exchange σ}
    (he : s.exchanges[j]? = some e) (hidle : e.pending? = none) :
    s.settle.exchanges[j]? = some (s.refreshed e) := by
  have horder := order_perm s
  have hmem : j ∈ s.order :=
    horder.mem_iff.mpr (List.mem_range.mpr (List.getElem?_eq_some_iff.mp he).1)
  rw [settle, getElem?_looks_idle (horder.nodup_iff.mpr List.nodup_range) he hidle, if_pos hmem]

end Server

end EmbedServer.Http
