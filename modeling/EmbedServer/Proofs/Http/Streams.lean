/-
What a stream tells, whoever comes first: a write, the end of service, or a poll.

A stream is a follower of the registry until it is polled for the first time after the signal.  That poll
it answers with what a lookup gives, and afterwards it is over.  For a key that there is, nothing else
ends it, since keys are never taken away and a follower of such a key never ends.  So what it tells is
what the follower would have told, and one status more.

A key that there is not is another matter.  Its follower tells one "unknown" and ends, and the stream
takes this end for its own: it tells what a lookup gives then, although service goes on.
`told_eq_heard_iff` says when the two differ before the signal.
-/
import EmbedServer.Http.Scene
import EmbedServer.Proofs.Health.Registry
import EmbedServer.Proofs.Http.Surfaces

namespace EmbedServer.Http

open Health (Registry Watch)
open Health.Watch (Poll)

/-! ### Histories -/

namespace Scene

variable {α : Type}

theorem run_cons (c : Scene) (m : Move) (rest : List Move) :
    c.run (m :: rest) = (c.step m).run rest := rfl

theorem run_append (c : Scene) (xs ys : List Move) : c.run (xs ++ ys) = (c.run xs).run ys :=
  List.foldl_append ..

theorem run_polls (c : Scene) (n : Nat) : c.run (List.replicate n .poll) = c := by
  induction n with
  | zero => rfl
  | succ n ih => exact ih

/-- Polls change nothing that there is to see. -/
theorem run_front_polls (c : Scene) {n : Nat} {front : List Move} (h : front <+: List.replicate n .poll) :
    c.run front = c := by
  have hpolls : front = List.replicate front.length .poll :=
    List.eq_replicate_of_mem fun m hm => List.eq_of_mem_replicate (h.subset hm)
  rw [hpolls]
  exact c.run_polls _

theorem polled_cons (ask : Scene → α → Poll × α) (c : Scene) (a : α) (m : Move) (rest : List Move) :
    polled ask c a (m :: rest) =
      ((answer ask c a m).1 ++ (polled ask (c.step m) (answer ask c a m).2 rest).1,
        (polled ask (c.step m) (answer ask c a m).2 rest).2) := rfl

theorem polled_append (ask : Scene → α → Poll × α) (c : Scene) (a : α) (xs ys : List Move) :
    polled ask c a (xs ++ ys) =
      ((polled ask c a xs).1 ++ (polled ask (c.run xs) (polled ask c a xs).2 ys).1,
        (polled ask (c.run xs) (polled ask c a xs).2 ys).2) := by
  induction xs generalizing c a with
  | nil => rfl
  | cons m rest ih =>
      rw [List.cons_append, polled_cons, polled_cons, ih, run_cons, List.append_assoc]

/-- Nobody who is not polled answers. -/
theorem polled_quiet (ask : Scene → α → Poll × α) (c : Scene) (a : α) {moves : List Move}
    (h : .poll ∉ moves) : polled ask c a moves = ([], a) := by
  induction moves generalizing c a with
  | nil => rfl
  | cons m rest ih =>
      rw [polled_cons, ih _ _ (List.not_mem_of_not_mem_cons h)]
      cases m with
      | poll => exact absurd rfl (List.ne_of_not_mem_cons h)
      | _ => rfl

private theorem inTime_append (c : Scene) (xs ys : List Move) :
    c.inTime (xs ++ ys) = (c.inTime xs && (c.run xs).inTime ys) := by
  induction xs generalizing c with
  | nil => rfl
  | cons m rest ih => simp only [List.cons_append, inTime, ih, run_cons, Bool.and_assoc]

/-- A history in which a poll comes too late, up to the first of these. -/
theorem late_poll {c : Scene} {moves : List Move} (h : c.inTime moves = false) :
    ∃ front rest, moves = front ++ .poll :: rest ∧ c.inTime front = true ∧
      (c.run front).draining.ready = true := by
  induction moves generalizing c with
  | nil => cases h
  | cons m rest ih =>
      by_cases hm : m = .poll ∧ c.draining.ready = true
      · exact ⟨[], rest, by rw [hm.1]; rfl, rfl, hm.2⟩
      · have htime : (m != .poll || !c.draining.ready) = true :=
          Decidable.byContradiction fun hc => hm (by simpa using hc)
        rw [inTime, htime, Bool.true_and] at h
        obtain ⟨front, last, heq, hfront, hready⟩ := ih h
        exact ⟨m :: front, last, by rw [heq]; rfl, by rw [inTime, htime, hfront]; rfl, hready⟩

/-- Keys are never taken away. -/
theorem mem_keys_step {c : Scene} {key : String} (h : key ∈ c.registry.keys) (m : Move) :
    key ∈ (c.step m).registry.keys := by
  cases m with
  | write w =>
      cases w with
      | set k status =>
          show key ∈ (c.registry.set k status).keys
          rw [Registry.set]
          split
          · exact h
          · exact Registry.mem_keys_store.mpr (Or.inr h)
      | setAll status =>
          show key ∈ (c.registry.setAll status).keys
          rw [Registry.keys_setAll]
          exact h
      | freeze =>
          show key ∈ c.registry.freeze.keys
          rw [Registry.keys_freeze]
          exact h
  | store k status => exact Registry.mem_keys_store.mpr (Or.inr h)
  | drain => exact h
  | poll => exact h

theorem mem_keys_run {c : Scene} {key : String} (h : key ∈ c.registry.keys) (moves : List Move) :
    key ∈ (c.run moves).registry.keys :=
  List.foldlRecOn (motive := fun c : Scene => key ∈ c.registry.keys) moves step h
    fun _ h m _ => mem_keys_step h m

/-- Somebody who always answers the same and stays as he is. -/
theorem polled_same {ask : Scene → α → Poll × α} {a : α} {p : Poll} (h : ∀ c, ask c a = (p, a))
    (c : Scene) (moves : List Move) :
    polled ask c a moves = (List.replicate (moves.count .poll) p, a) := by
  induction moves generalizing c with
  | nil => rfl
  | cons m rest ih =>
      cases m with
      | poll =>
          have hanswer : answer ask c a .poll = ([p], a) := by rw [answer, h]
          rw [polled_cons, hanswer, ih, List.count_cons_self, List.replicate_succ]
          rfl
      | _ =>
          rw [polled_cons, List.count_cons_of_ne (by simp)]
          exact ih _

/-! ### Streams that are over -/

private theorem polled_over (c : Scene) (key : String) (moves : List Move) :
    polled askStream c ⟨key, none⟩ moves =
      (List.replicate (moves.count .poll) .ended, ⟨key, none⟩) :=
  polled_same (fun c => Follow.poll_over c.registry c.draining.ready key) c moves

/-- **The first poll after the signal** is answered with what a lookup gives, and the stream is over. -/
theorem polled_late {c : Scene} (h : c.draining.ready = true) (key : String) (w : Watch)
    (rest : List Move) :
    polled askStream c ⟨key, some w⟩ (.poll :: rest) =
      (.yields (c.registry.get key) :: List.replicate (rest.count .poll) .ended, ⟨key, none⟩) := by
  have hanswer : answer askStream c ⟨key, some w⟩ .poll =
      ([.yields (c.registry.get key)], ⟨key, none⟩) := by
    rw [answer, askStream, h, Follow.poll_draining]
  rw [polled_cons, hanswer, polled_over]
  rfl

/-! ### Keys that there are

Before the signal a stream and a follower that stand at the same place stay together, poll by poll.  The
signal is looked at by the stream alone.
-/

/-- A follower of a key that there is stays one. -/
theorem poll_follows (r : Registry) (key : String) (seen : Option Nat) :
    ∃ p seen', (Watch.following key seen).poll r = (p, .following key seen') ∧ p ≠ .ended := by
  rw [Watch.poll]
  cases r.find? key with
  | none => exact ⟨_, _, rfl, by decide⟩
  | some e =>
      by_cases h : seen = some e.version
      · exact ⟨.pending, seen, by simp only [h, if_true], by decide⟩
      · exact ⟨.yields e.status, some e.version, by simp only [h, if_false], by simp⟩

/-- Before the signal a stream is polled as its follower is, as long as that does not end. -/
theorem poll_relays {r : Registry} {w w' : Watch} {p : Poll} (h : w.poll r = (p, w')) (hp : p ≠ .ended)
    (key : String) : Follow.poll r false ⟨key, some w⟩ = (p, ⟨key, some w'⟩) := by
  cases p with
  | ended => exact absurd rfl hp
  | _ => simp [Follow.poll, h]

/-- As long as all polls come in time, a stream answers as its follower does. -/
theorem polled_relays {c : Scene} {moves : List Move} (h : c.inTime moves = true) (key k : String)
    (seen : Option Nat) :
    ∃ answers seen', polled askWatch c (.following k seen) moves = (answers, .following k seen') ∧
      polled askStream c ⟨key, some (.following k seen)⟩ moves =
        (answers, ⟨key, some (.following k seen')⟩) ∧ .ended ∉ answers := by
  induction moves generalizing c seen with
  | nil => exact ⟨[], seen, rfl, rfl, List.not_mem_nil⟩
  | cons m rest ih =>
      obtain ⟨htime, hrest⟩ := Bool.and_eq_true_iff.mp h
      cases m with
      | poll =>
          have hopen : c.draining.ready = false := by simpa using htime
          obtain ⟨p, seen', hpoll, hp⟩ := poll_follows c.registry k seen
          obtain ⟨answers, seen'', hwatch, hstream, hended⟩ := ih hrest seen'
          have hasked : askStream c ⟨key, some (.following k seen)⟩ =
              (p, ⟨key, some (.following k seen')⟩) := by
            rw [askStream, hopen]
            exact poll_relays hpoll hp key
          refine ⟨p :: answers, seen'', ?_, ?_, List.not_mem_cons_of_ne_of_not_mem hp.symm hended⟩
          · rw [polled_cons, answer, askWatch, hpoll, hwatch]
            rfl
          · rw [polled_cons, answer, hasked, hstream]
            rfl
      | _ => exact ih hrest seen

private theorem start_of_mem {r : Registry} {key : String} (h : key ∈ r.keys) :
    Watch.start r key = .following key none := by
  obtain ⟨e, he⟩ := Registry.mem_keys_iff.mp h
  rw [Watch.start, he]

private theorem start_of_not_mem {r : Registry} {key : String} (h : key ∉ r.keys) :
    Watch.start r key = .ending (some .unknown) := by
  rw [Watch.start, Registry.find?_of_not_mem h]

/-- **A stream that follows a key that there is**: in time it tells what a follower of the registry tells,
and goes on; the first poll that comes late it answers with the status of that moment; then it is over. -/
theorem stream_of_mem {c : Scene} {key : String} (hkey : key ∈ c.registry.keys) {moves : List Move}
    (h : c.inTime moves = true) :
    c.told key moves = c.heard key moves ∧ .ended ∉ c.told key moves ∧
      (c.stream key moves).2.isOver = false ∧
      ∀ rest, (c.run moves).draining.ready = true → c.stream key (moves ++ .poll :: rest) =
        (c.told key moves ++ .yields ((c.run moves).registry.get key) ::
          List.replicate (rest.count .poll) .ended, ⟨key, none⟩) := by
  obtain ⟨answers, seen, hwatch, hstream, hended⟩ := polled_relays h key key none
  rw [← start_of_mem hkey] at hwatch hstream
  have htold : c.told key moves = answers := congrArg Prod.fst hstream
  refine ⟨htold.trans (congrArg Prod.fst hwatch).symm, htold ▸ hended,
    congrArg (fun x => Follow.isOver (Prod.snd x)) hstream, ?_⟩
  intro rest hready
  rw [htold, stream, polled_append, Follow.start, hstream, polled_late hready]

/-! ### Keys that there are not

Here the stream and the follower come apart without any signal.  The end of the follower is a poll of its
own, so the difference shows only at the second poll.
-/

/-- What a stream that follows no key is left with after its first poll. -/
theorem polled_unset {c : Scene} (h : c.draining.ready = false) (key : String) (rest : List Move) :
    polled askStream c ⟨key, some (.ending (some .unknown))⟩ (.poll :: rest) =
        (.yields .unknown :: (polled askStream c ⟨key, some (.ending none)⟩ rest).1,
          (polled askStream c ⟨key, some (.ending none)⟩ rest).2) ∧
      polled askWatch c (.ending (some .unknown)) (.poll :: rest) =
        (.yields .unknown :: List.replicate (rest.count .poll) .ended, .ending none) := by
  have hanswer : answer askStream c ⟨key, some (.ending (some .unknown))⟩ .poll =
      ([.yields .unknown], ⟨key, some (.ending none)⟩) := by
    rw [answer, askStream, h, Follow.poll_ending]
  have hask : ∀ c, askWatch c (.ending none) = (.ended, .ending none) := fun _ => rfl
  refine ⟨?_, ?_⟩
  · rw [polled_cons, hanswer]
    rfl
  · rw [polled_cons]
    show (_ ++ (polled askWatch c (.ending none) rest).1,
      (polled askWatch c (.ending none) rest).2) = _
    rw [polled_same hask]
    rfl

/-- The end of its follower a stream answers with what a lookup gives. -/
theorem polled_ended (c : Scene) (key : String) (rest : List Move) :
    polled askStream c ⟨key, some (.ending none)⟩ (.poll :: rest) =
      (.yields (c.registry.get key) :: List.replicate (rest.count .poll) .ended, ⟨key, none⟩) := by
  have hanswer : answer askStream c ⟨key, some (.ending none)⟩ .poll =
      ([.yields (c.registry.get key)], ⟨key, none⟩) := by
    rw [answer, askStream, Follow.poll_ended]
  rw [polled_cons, hanswer, polled_over]
  rfl

/-- **A stream that follows a key that there is not** tells "unknown", and at the next poll what a lookup
gives then, signal or not.  Its follower tells the first of these only. -/
theorem stream_of_not_mem {c : Scene} {key : String} (hkey : key ∉ c.registry.keys)
    {front between : List Move} (hfront : .poll ∉ front) (hbetween : .poll ∉ between)
    (hopen : (c.run front).draining.ready = false) (rest : List Move) :
    c.stream key (front ++ .poll :: (between ++ .poll :: rest)) =
        ([.yields .unknown, .yields ((c.run (front ++ between)).registry.get key)] ++
          List.replicate (rest.count .poll) .ended, ⟨key, none⟩) ∧
      c.heard key (front ++ .poll :: (between ++ .poll :: rest)) =
        .yields .unknown :: List.replicate (rest.count .poll + 1) .ended := by
  obtain ⟨hstream, hheard⟩ := polled_unset hopen key (between ++ .poll :: rest)
  refine ⟨?_, ?_⟩
  · rw [stream, Follow.start, start_of_not_mem hkey, polled_append, polled_quiet _ _ _ hfront, hstream,
      polled_append, polled_quiet _ _ _ hbetween, polled_ended, run_append]
    rfl
  · rw [heard, start_of_not_mem hkey, polled_append, polled_quiet _ _ _ hfront, hheard,
      List.count_append, List.count_eq_zero.mpr hbetween, List.count_cons_self, Nat.zero_add]
    rfl

/-- The first poll of a history, and what goes before it. -/
theorem first_poll {moves : List Move} (h : 0 < moves.count .poll) :
    ∃ front rest, moves = front ++ .poll :: rest ∧ .poll ∉ front ∧
      moves.count .poll = rest.count .poll + 1 := by
  obtain ⟨front, rest, heq, hfront⟩ := List.eq_append_cons_of_mem (List.count_pos_iff.mp h)
  refine ⟨front, rest, heq, hfront, ?_⟩
  rw [heq, List.count_append, List.count_eq_zero.mpr hfront, List.count_cons_self, Nat.zero_add]

/-- **Before the signal a stream tells what its follower tells** if the key is there or the stream is
polled no more than once, and otherwise it does not. -/
theorem told_eq_heard_iff {c : Scene} {moves : List Move} (h : c.inTime moves = true) (key : String) :
    c.told key moves = c.heard key moves ↔ key ∈ c.registry.keys ∨ moves.count .poll < 2 := by
  by_cases hkey : key ∈ c.registry.keys
  · exact iff_of_true (stream_of_mem hkey h).1 (Or.inl hkey)
  · rcases Nat.eq_zero_or_pos (moves.count .poll) with hnone | hsome
    · have hquiet : .poll ∉ moves := List.count_eq_zero.mp hnone
      refine iff_of_true ?_ (Or.inr (by omega))
      rw [told, stream, heard, polled_quiet _ _ _ hquiet, polled_quiet _ _ _ hquiet]
    · obtain ⟨front, rest, rfl, hfront, hcount⟩ := first_poll hsome
      rw [inTime_append] at h
      have hopen : (c.run front).draining.ready = false := by
        simpa using (Bool.and_eq_true_iff.mp (Bool.and_eq_true_iff.mp h).2).1
      rcases Nat.eq_zero_or_pos (rest.count .poll) with hone | hmore
      · obtain ⟨hstream, hheard⟩ := polled_unset hopen key rest
        refine iff_of_true ?_ (Or.inr (by omega))
        rw [told, stream, heard, Follow.start, start_of_not_mem hkey, polled_append,
          polled_quiet _ _ _ hfront, hstream, polled_append, polled_quiet _ _ _ hfront, hheard,
          polled_quiet _ _ _ (List.count_eq_zero.mp hone), hone]
        rfl
      · obtain ⟨between, last, rfl, hbetween, hcount'⟩ := first_poll hmore
        obtain ⟨hstream, hheard⟩ := stream_of_not_mem hkey hfront hbetween hopen last
        refine iff_of_false ?_ (by simp only [hkey, false_or]; omega)
        rw [told, hstream, hheard]
        intro heq
        cases (List.cons.inj (List.cons.inj heq).2).1

end Scene

/-! ### Streams on a server -/

namespace Server

variable {σ : Type}

/-- The exchange of somebody who begins to follow a key. -/
def followed (s : Server σ) (key : String) : Exchange σ :=
  s.followUp ⟨false, .complete, some (200, (Response.events key).headers), ""⟩
    (.start s.core.health key) s.core.now

theorem receive_events (s : Server σ) {r : Request} {key : String} (hmethod : r.method = "GET")
    (hpath : r.target.path = Call.watchPath) (hkey : queryKey? r.target = some key)
    (hmuch : r.declaresTooMuch s.limit = false) :
    (s.receive r).exchanges = s.exchanges ++ [s.followed key] := by
  have hopens := (receive_opens s r).1 _ (s.read_watch hmethod hpath hkey hmuch)
  rwa [hmethod] at hopens

/-- Somebody who follows a key that there is not is told twice at once that it is unknown. -/
theorem receive_unset (s : Server σ) (hopen : s.draining.ready = false) {r : Request} {key : String}
    (hmethod : r.method = "GET") (hpath : r.target.path = Call.watchPath)
    (hkey : queryKey? r.target = some key) (hmuch : r.declaresTooMuch s.limit = false)
    (hunset : key ∉ s.core.health.keys) :
    ∃ e, (s.receive r).exchanges = s.exchanges ++ [e] ∧
      e.received? = some ⟨200, Utf8.encode (Follow.event .unknown ++ Follow.event .unknown)⟩ := by
  have htake : (Follow.start s.core.health key).take s.core.health s.draining.ready =
      ([.unknown, .unknown], ⟨key, none⟩) := by
    rw [Follow.start, Scene.start_of_not_mem hunset, Follow.take, hopen,
      Follow.pollAll_yields (Follow.poll_ending _ key _) 2,
      Follow.pollAll_yields (Follow.poll_ended _ false key) 1,
      Follow.pollAll_silent (Follow.poll_over _ false key) (by simp), Health.Registry.get_of_not_mem hunset]
  have hsent : "" ++ String.join ([Health.Status.unknown, .unknown].map Follow.event) =
      Follow.event .unknown ++ Follow.event .unknown := by decide +kernel
  have hover : (⟨key, none⟩ : Follow).isOver = true := rfl
  refine ⟨_, s.receive_events hmethod hpath hkey hmuch, ?_⟩
  simp only [followed, followUp, htake, if_pos hover, hsent]
  rfl

end Server

/-- **What a stream tells beyond its follower.**  As long as all polls come before the signal, the two
agree if the key is there or the stream is polled no more than once, and only then.  If the key is not
there, the stream tells at its second poll what a lookup gives at that moment, whether or not the signal
has fired and the key has been set in between.  A server that does not drain polls a new stream until it
is silent, so it tells twice at once that such a key is unknown. -/
theorem told_beyond_heard {σ : Type} :
    (∀ (c : Scene) (key : String) (moves : List Scene.Move), c.inTime moves = true →
      (c.told key moves = c.heard key moves ↔ key ∈ c.registry.keys ∨ moves.count .poll < 2)) ∧
    (∀ (c : Scene) (key : String) (front between rest : List Scene.Move), key ∉ c.registry.keys →
      .poll ∉ front → .poll ∉ between → (c.run front).draining.ready = false →
        c.told key (front ++ .poll :: (between ++ .poll :: rest)) =
            [.yields .unknown, .yields ((c.run (front ++ between)).registry.get key)] ++
              List.replicate (rest.count .poll) .ended ∧
          c.heard key (front ++ .poll :: (between ++ .poll :: rest)) =
            .yields .unknown :: List.replicate (rest.count .poll + 1) .ended) ∧
    ∀ (s : Server σ) (r : Request) (key : String), r.method = "GET" → r.target.path = Call.watchPath →
      queryKey? r.target = some key → r.declaresTooMuch s.limit = false → key ∉ s.core.health.keys →
        s.draining.ready = false → ∃ e, (s.receive r).exchanges = s.exchanges ++ [e] ∧
          e.received? = some ⟨200, Utf8.encode (Follow.event .unknown ++ Follow.event .unknown)⟩ := by
  refine ⟨fun c key moves h => Scene.told_eq_heard_iff h key, ?_, ?_⟩
  · intro c key front between rest hkey hfront hbetween hopen
    obtain ⟨hstream, hheard⟩ := Scene.stream_of_not_mem hkey hfront hbetween hopen rest
    exact ⟨congrArg Prod.fst hstream, hheard⟩
  · intro s r key hmethod hpath hkey hmuch hunset hopen
    exact s.receive_unset hopen hmethod hpath hkey hmuch hunset

/-- Somebody sets a key that is followed, between the two polls of a stream and before it. -/
theorem told_beyond_heard_set :
    let c : Scene := ⟨.empty, .new⟩
    let set : Scene.Move := .write (.set "a" .serving)
    let s : Server Unit := .new (Call.Core.new [] ⟨.ofSecs 30, true⟩ (Backend.stub [] (.ofMillis 60)) ()
      .empty) 0
    let r : Request := ⟨"GET", ⟨Call.watchPath, some "service=a"⟩, [], []⟩
    c.told "a" [.poll, set, .poll] = [.yields .unknown, .yields .serving] ∧
      c.heard "a" [.poll, set, .poll] = [.yields .unknown, .ended] ∧
      (let c := c.step set
       c.told "a" [.poll, set, .poll] = c.heard "a" [.poll, set, .poll]) ∧
      ∃ e, (s.receive r).exchanges = [e] ∧
        e.received? = some ⟨200, Utf8.encode (Follow.event .unknown ++ Follow.event .unknown)⟩ := by
  intro c set s r
  obtain ⟨hiff, hunset, hserver⟩ := @told_beyond_heard Unit
  obtain ⟨htold, hheard⟩ := hunset c "a" [] [set] [] (by decide) (by decide) (by decide) rfl
  refine ⟨htold, hheard, (hiff (c.step set) "a" _ (by decide)).mpr (Or.inl (by decide)), ?_⟩
  exact hserver s r "a" rfl rfl (by decide +kernel) (by decide +kernel) (by decide) rfl

/-- Before the signal has fired, a stream tells more than its follower. -/
theorem unset_told_twice :
    ¬∀ (c : Scene) (key : String) (moves : List Scene.Move), (c.run moves).draining.fired = false →
      toldStatuses (c.told key moves) = toldStatuses (c.heard key moves) := by
  intro hall
  have hsame := hall ⟨.empty, .new⟩ "a" [.poll, .write (.set "a" .serving), .poll] rfl
  exact absurd hsame (by decide)

end EmbedServer.Http
