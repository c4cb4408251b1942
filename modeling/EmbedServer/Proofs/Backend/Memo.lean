/-
What a cache remembers.

A cache is compared with the history of its own calls.  As long as the texts have different digests, a
text is found exactly if a vector for it has come since the last close, and what is found is the first
such vector.  `Remembers` says so of one state, and whose state the backend behind is in: that of the calls
that were passed on to it.  A call keeps it, and from it everything is read off.
-/
import EmbedServer.Backend.Calls
import EmbedServer.Backend.Simple
import Mathlib.Data.List.Induction
import Mathlib.Data.Set.Function

namespace EmbedServer

/-! ### The key -/

namespace Sha256

private theorem digitChar_injective {m n : Nat} (hm : m < 16) (hn : n < 16)
    (h : Nat.digitChar m = Nat.digitChar n) : m = n := by
  have hall : ∀ m n : Fin 16, Nat.digitChar m = Nat.digitChar n → m = n := by decide
  exact congrArg Fin.val (hall ⟨m, hm⟩ ⟨n, hn⟩ h)

private theorem hexByte_injective {b c : UInt8} (h : hexByte b = hexByte c) : b = c := by
  obtain ⟨hhigh, hlow⟩ := List.cons.inj h
  have hb := b.toNat_lt
  have hc := c.toNat_lt
  have hdiv := digitChar_injective (by omega) (by omega) hhigh
  have hmod := digitChar_injective (by omega) (by omega) (List.cons.inj hlow).1
  exact UInt8.toNat_inj.mp (by omega)

private theorem hexBytes_injective {bs cs : List UInt8} (h : bs.flatMap hexByte = cs.flatMap hexByte) :
    bs = cs := by
  induction bs generalizing cs with
  | nil =>
      cases cs with
      | nil => rfl
      | cons c cs => cases h
  | cons b bs ih =>
      cases cs with
      | nil => cases h
      | cons c cs =>
          obtain ⟨hfirst, hrest⟩ := List.append_inj h rfl
          rw [hexByte_injective hfirst, ih hrest]

end Sha256

namespace Backend

private theorem digest_of_cacheKey {text text' : String} (h : cacheKey text = cacheKey text') :
    Sha256.digest (Utf8.encode text) = Sha256.digest (Utf8.encode text') := by
  have hhex := String.ofList_inj.mp ((String.append_right_inj _).mp h)
  exact Sha256.hexBytes_injective hhex

/-! ### What a history says

The history is the only thing that a cache may go by: what has been asked since the last close, and what
came of it.  The same is worked out from the list of calls alone, without a cache.
-/

section History

variable {history : List Done} {text text' : String}

private theorem sinceClose_closed : sinceClose (history ++ [.closed]) = [] := by
  simp [sinceClose, Done.isClosed]

private theorem sinceClose_computed {a : Answer} :
    sinceClose (history ++ [.computed text a]) = sinceClose history ++ [.computed text a] := by
  simp [sinceClose, Done.isClosed]

private theorem recalled?_closed : recalled? (history ++ [.closed]) text = none := by
  rw [recalled?, sinceClose_closed, List.findSome?_nil]

private theorem recalled?_failed {e : Error} :
    recalled? (history ++ [.computed text' (.error e)]) text = recalled? history text := by
  simp [recalled?, sinceClose_computed, Done.vector?]

private theorem recalled?_other {a : Answer} (h : text' ≠ text) :
    recalled? (history ++ [.computed text' a]) text = recalled? history text := by
  cases a <;> simp [recalled?, sinceClose_computed, Done.vector?, h]

/-- The first vector stays. -/
theorem recalled?_same {v : List Float} :
    recalled? (history ++ [.computed text (.ok v)]) text = (recalled? history text).or (some v) := by
  simp [recalled?, sinceClose_computed, Done.vector?]

/-- A vector that is recalled has come. -/
theorem mem_of_recalled? {v : List Float} (h : recalled? history text = some v) :
    .computed text (.ok v) ∈ history := by
  obtain ⟨d, hd, hv⟩ := List.exists_of_findSome?_eq_some h
  have hmem : d ∈ history :=
    List.mem_reverse.mp (List.takeWhile_subset _ (List.mem_reverse.mp hd))
  cases d with
  | closed => cases hv
  | computed text' a =>
      cases a with
      | error e => cases hv
      | ok v' =>
          simp only [Done.vector?, Option.ite_none_right_eq_some, Option.some.injEq] at hv
          obtain ⟨rfl, rfl⟩ := hv
          exact hmem

end History

/-! ### Calls -/

section Calls

variable {σ τ : Type} {b : Backend σ}

private theorem performAll_append {s : σ} {calls more : List Call} :
    b.performAll s (calls ++ more) =
      ((b.performAll (b.performAll s calls).1 more).1,
        (b.performAll s calls).2 ++ (b.performAll (b.performAll s calls).1 more).2) := by
  induction calls generalizing s with
  | nil => rfl
  | cons call rest ih => simp only [List.cons_append, performAll, ih]

private theorem performAll_concat {s : σ} {calls : List Call} {call : Call} :
    b.performAll s (calls ++ [call]) =
      ((b.perform (b.performAll s calls).1 call).1,
        (b.performAll s calls).2 ++ [(b.perform (b.performAll s calls).1 call).2]) :=
  performAll_append

end Calls

/-! ### A cache and its history

`Remembers` is kept by every call.  A miss adds what has come of the call to both sides, a hit adds
nothing to either, and a close empties both.
-/

section Cache

variable {σ : Type} {inner : Backend σ} {s : σ} {st : CacheState (σ × List Call)} {text : String}

theorem perform_miss (h : st.known.lookup (cacheKey text) = none) :
    (cached inner.overheard).perform st (.compute text) =
      (⟨((inner.perform st.inner.1 (.compute text)).1, st.inner.2 ++ [.compute text]),
          remember (cacheKey text) (inner.compute st.inner.1 text).answer st.known⟩,
        .computed text (inner.compute st.inner.1 text).answer) := by
  simp only [perform, cached, h, overheard, Computation.finished]

theorem perform_hit {v : List Float} (h : st.known.lookup (cacheKey text) = some v) :
    (cached inner.overheard).perform st (.compute text) = (st, .computed text (.ok v)) := by
  simp only [perform, cached, h, Computation.finished, id_eq]

theorem perform_close :
    (cached inner.overheard).perform st .close =
      (⟨((inner.perform st.inner.1 .close).1, st.inner.2 ++ [.close]), []⟩, .closed) := rfl

/-- A cache knows of these texts what its history recalls, and the backend behind it has performed the
calls that were noted. -/
structure Remembers (inner : Backend σ) (s : σ) (texts : Set String)
    (st : CacheState (σ × List Call)) (history : List Done) : Prop where
  known : ∀ text ∈ texts, st.known.lookup (cacheKey text) = recalled? history text
  behind : st.inner.1 = (inner.performAll s st.inner.2).1

/-- What a call passes on is performed behind the cache. -/
theorem behind_concat {call : Call} {heard : List Call} {now : σ}
    (h : now = (inner.performAll s heard).1) :
    (inner.perform now call).1 = (inner.performAll s (heard ++ [call])).1 := by
  rw [performAll_concat, h]

variable {texts : Set String} {history : List Done}

/-- A vector that is remembered is found for its text, and for no other. -/
theorem lookup_remember {v : List Float} {text' : String} {known : List (String × List Float)}
    (hinj : texts.InjOn fun t => Sha256.digest (Utf8.encode t)) (htext : text ∈ texts)
    (htext' : text' ∈ texts) :
    (remember (cacheKey text) (.ok v) known).lookup (cacheKey text') =
      if text = text' then some v else known.lookup (cacheKey text') := by
  rw [remember, List.lookup_cons]
  by_cases heq : text = text'
  · rw [if_pos heq, heq, beq_self_eq_true]
  · have hkey : ¬cacheKey text' = cacheKey text :=
      fun hkey => heq (hinj htext htext' (digest_of_cacheKey hkey).symm)
    rw [if_neg heq, beq_false_of_ne hkey]

/-- A call is answered out of the history, which goes on being remembered. -/
theorem Remembers.perform (call : Call) (h : Remembers inner s texts st history)
    (hinj : texts.InjOn fun t => Sha256.digest (Utf8.encode t))
    (hcall : ∀ text, call = .compute text → text ∈ texts) :
    Memo inner history st ((cached inner.overheard).perform st call).1 call
        ((cached inner.overheard).perform st call).2 ∧
      Remembers inner s texts ((cached inner.overheard).perform st call).1
        (history ++ [((cached inner.overheard).perform st call).2]) := by
  cases call with
  | close =>
      rw [perform_close]
      refine ⟨.closed rfl rfl rfl, fun text _ => ?_, behind_concat h.behind⟩
      rw [recalled?_closed, List.lookup_nil]
  | compute text =>
      have htext := hcall text rfl
      cases hfound : st.known.lookup (cacheKey text) with
      | some v =>
          have hrecalled : recalled? history text = some v := (h.known text htext).symm.trans hfound
          rw [perform_hit hfound]
          refine ⟨.recalled hrecalled rfl, fun text' htext' => ?_, h.behind⟩
          rw [h.known text' htext']
          by_cases heq : text = text'
          · rw [← heq, recalled?_same, hrecalled, Option.some_or]
          · rw [recalled?_other heq]
      | none =>
          have hfresh : recalled? history text = none := (h.known text htext).symm.trans hfound
          rw [perform_miss hfound]
          generalize ha : (inner.compute st.inner.1 text).answer = a
          have hanswer : inner.perform st.inner.1 (.compute text) =
              ((inner.perform st.inner.1 (.compute text)).1, .computed text a) := by
            rw [← ha]
            rfl
          cases a with
          | error e =>
              refine ⟨.asked hfresh hanswer rfl fun _ _ => rfl, fun text' htext' => ?_,
                behind_concat h.behind⟩
              rw [recalled?_failed]
              exact h.known text' htext'
          | ok v =>
              refine ⟨.asked hfresh hanswer rfl nofun, fun text' htext' => ?_,
                behind_concat h.behind⟩
              rw [lookup_remember hinj htext htext', h.known text' htext']
              by_cases heq : text = text'
              · rw [if_pos heq, ← heq, recalled?_same, hfresh, Option.none_or]
              · rw [if_neg heq, recalled?_other heq]

/-- Nothing is known to begin with, and every call keeps what is remembered. -/
theorem remembers_performAll (inner : Backend σ) (s : σ) (calls : List Call)
    (hinj : texts.InjOn fun t => Sha256.digest (Utf8.encode t))
    (hcalls : ∀ text, .compute text ∈ calls → text ∈ texts) :
    Remembers inner s texts ((cached inner.overheard).performAll ⟨(s, []), []⟩ calls).1
      ((cached inner.overheard).performAll ⟨(s, []), []⟩ calls).2 := by
  induction calls using List.reverseRecOn with
  | nil => exact ⟨fun _ _ => rfl, rfl⟩
  | append_singleton calls call ih =>
      have hbefore := ih fun text h => hcalls text (List.mem_append_left _ h)
      rw [performAll_concat]
      refine (hbefore.perform call hinj fun text h => hcalls text ?_).2
      exact List.mem_append_right _ (List.mem_singleton.mpr h.symm)

/-! ### A cache and the backend behind it

What reaches the backend behind is seen by putting one in its place that notes its calls; the cache in
front of it goes the same way.  If the answers of that backend go by the text alone, nobody notices the
cache.
-/

private theorem perform_unnoticed (st : CacheState (σ × List Call)) (call : Call) :
    (cached inner).perform (st.map Prod.fst) call =
      (((cached inner.overheard).perform st call).1.map Prod.fst,
        ((cached inner.overheard).perform st call).2) := by
  cases call with
  | close => rfl
  | compute text =>
      cases hfound : st.known.lookup (cacheKey text) with
      | none =>
          rw [perform_miss hfound]
          simp only [perform, cached, CacheState.map, hfound, Computation.finished]
      | some v =>
          rw [perform_hit hfound]
          simp only [perform, cached, CacheState.map, hfound, Computation.finished, id_eq]

private theorem performAll_unnoticed (st : CacheState (σ × List Call)) (calls : List Call) :
    (cached inner).performAll (st.map Prod.fst) calls =
      (((cached inner.overheard).performAll st calls).1.map Prod.fst,
        ((cached inner.overheard).performAll st calls).2) := by
  induction calls generalizing st with
  | nil => rfl
  | cons call rest ih => simp only [performAll, perform_unnoticed, ih]

variable {f : String → Answer}

/-- A backend whose answers go by the text alone is not needed to tell them. -/
theorem Memo.direct {now next : CacheState (σ × List Call)} {call : Call} {d : Done}
    (hf : ∀ s text, (inner.compute s text).answer = f text)
    (hhistory : ∀ text a, .computed text a ∈ history → a = f text)
    (h : Memo inner history now next call d) (s : σ) : d = (inner.perform s call).2 := by
  have hdone (s : σ) (text : String) :
      (inner.perform s (.compute text)).2 = .computed text (f text) :=
    congrArg (Done.computed text) (hf s text)
  cases h with
  | closed => rfl
  | @asked text _ _ answer =>
      have ha := hdone now.inner.1 text
      rw [answer] at ha
      exact ha.trans (hdone s text).symm
  | @recalled text _ known =>
      rw [hdone s text, ← hhistory text _ (mem_of_recalled? known)]

theorem history_direct (calls : List Call)
    (hinj : texts.InjOn fun t => Sha256.digest (Utf8.encode t))
    (hcalls : ∀ text, .compute text ∈ calls → text ∈ texts)
    (hf : ∀ s text, (inner.compute s text).answer = f text) (s : σ) :
    ∀ text a, .computed text a ∈ ((cached inner.overheard).performAll ⟨(s, []), []⟩ calls).2 →
      a = f text := by
  induction calls using List.reverseRecOn with
  | nil => exact fun _ _ h => absurd h List.not_mem_nil
  | append_singleton calls call ih =>
      have hcalls' := fun text h => hcalls text (List.mem_append_left _ h)
      have hhistory := ih hcalls'
      have hremembers := remembers_performAll inner s calls hinj hcalls'
      have hmemo := (hremembers.perform call hinj fun text h =>
        hcalls text (List.mem_append_right _ (List.mem_singleton.mpr h.symm))).1
      intro text a ha
      rw [performAll_concat] at ha
      rcases List.mem_append.mp ha with ha | ha
      · exact hhistory text a ha
      · have hdone := (List.mem_singleton.mp ha).trans (hmemo.direct hf hhistory s)
        cases call with
        | close => cases hdone
        | compute text' =>
            obtain ⟨rfl, rfl⟩ := Done.computed.inj hdone
            exact hf s text

end Cache

/-- **A cache is a faithful memo.**  However many calls have come before, and whatever the backend behind
makes of those that reach it: as long as no two of the texts have the same digest, a call is passed on,
once and as it is, exactly if no vector for the text has come since the last close, and else the
first such vector is the answer. -/
theorem cached_faithful {σ : Type} (inner : Backend σ) (s : σ) (past : List Call) (call : Call)
    (hinj : Set.InjOn (fun t => Sha256.digest (Utf8.encode t)) {t | .compute t ∈ past ++ [call]}) :
    ∃ now next history d, Faithful inner s past call now next history d := by
  have hpast : ∀ text, .compute text ∈ past → text ∈ {t | .compute t ∈ past ++ [call]} :=
    fun text h => List.mem_append_left _ h
  have hremembers := remembers_performAll inner s past hinj hpast
  have hmemo := (hremembers.perform call hinj fun text h =>
    List.mem_append_right _ (List.mem_singleton.mpr h.symm)).1
  refine ⟨_, _, _, _, rfl, rfl, hmemo, hremembers.behind, ?_, ?_⟩
  · exact ⟨performAll_unnoticed ⟨(s, []), []⟩ past, perform_unnoticed _ call⟩
  · exact fun f hf => hmemo.direct hf (history_direct past hinj hpast hf s) _

/-- The first text fails once before it is remembered. -/
theorem cached_faithful_two_texts :
    let inner := scripted ⟨[.error (.failed "down"), .ok [0.5]], .zero, .zero⟩
    let past : List Call := [.compute "a", .compute "b", .compute "a"]
    (Set.InjOn (fun t => Sha256.digest (Utf8.encode t)) {t | .compute t ∈ past ++ [.compute "a"]}) ∧
      ∃ now next history d,
        Faithful inner .start past (.compute "a") now next history d := by
  intro inner past
  have hne : Sha256.digest (Utf8.encode "a") ≠ Sha256.digest (Utf8.encode "b") := by decide +kernel
  have htext {t : String} (ht : .compute t ∈ past ++ [.compute "a"]) : t = "a" ∨ t = "b" := by
    simp only [past, List.cons_append, List.nil_append, List.mem_cons, Call.compute.injEq,
      List.not_mem_nil, or_false] at ht
    grind
  have hinj : Set.InjOn (fun t => Sha256.digest (Utf8.encode t))
      {t | .compute t ∈ past ++ [.compute "a"]} := by
    intro t ht t' ht' h
    rcases htext ht with rfl | rfl <;> rcases htext ht' with rfl | rfl
    · rfl
    · exact absurd h hne
    · exact absurd h.symm hne
    · rfl
  exact ⟨hinj, cached_faithful inner .start past (.compute "a") hinj⟩

end Backend

end EmbedServer
