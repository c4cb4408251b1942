/-
A channel that keeps one value, the latest.

One sender replaces the value, and any number of receivers read it or search for a value they want.
Nothing is queued: a value that is replaced before anybody looks is never seen.  How a channel does this
is left open: `Channel` lists what can be done with one, and `Channel.Lawful` what it promises to whoever
uses it.  `counted` is such a channel; it counts the values sent, so that a search can tell whether there
has been a new one since it looked last.
-/

namespace EmbedServer.Cancellation

/-- What a poll of a search finds. -/
inductive Found (α σ : Type) where
  | value (a : α)
  /-- No value was wanted, and the sender is gone. -/
  | closed
  | pending (search : σ)
  deriving DecidableEq, Repr

/-- What can be done with a channel.  Whatever is done to it may leave a trace in what is shared. -/
structure Channel (α : Type) where
  /-- What the sender and the receivers share. -/
  Shared : Type
  Receiver : Type
  /-- A search of a receiver, from poll to poll. -/
  Search : Type
  /-- A channel with its first value. -/
  new : α → Shared
  /-- The value that the sender reads. -/
  latest : Shared → α
  /-- The value that a receiver reads. -/
  read : Shared → Receiver → α
  /-- Sends a value; the one before it is handed back. -/
  replace : Shared → α → α × Shared
  /-- The sender goes. -/
  close : Shared → Shared
  subscribe : Shared → Receiver × Shared
  clone : Shared → Receiver → Receiver × Shared
  /-- Begins to search for a value. -/
  search : Receiver → (α → Bool) → Search
  poll : Shared → Search → Found α Search × Shared

namespace Channel

variable {α : Type}

/-- The two notions that the laws of a channel need beside its operations. -/
structure Terms (c : Channel α) where
  /-- Whether the sender is gone. -/
  closed : c.Shared → Bool
  /-- A search for a value with this property has not come to an end. -/
  Seeks : c.Shared → c.Search → (α → Bool) → Prop

/-- Nothing was sent, the sender has not gone, and no search has been lost. -/
structure Terms.Quiet {c : Channel α} (t : c.Terms) (before after : c.Shared) : Prop where
  latest : c.latest after = c.latest before
  closed : t.closed after = t.closed before
  seeks : ∀ {w p}, t.Seeks before w p → t.Seeks after w p

/-- What a channel promises in these terms. -/
structure Terms.Lawful {c : Channel α} (t : c.Terms) : Prop where
  new_latest : ∀ a, c.latest (c.new a) = a
  new_closed : ∀ a, t.closed (c.new a) = false
  /-- Receivers read the value that was sent last, whatever they have seen before. -/
  read_eq : ∀ s r, c.read s r = c.latest s
  replace_fst : ∀ s a, (c.replace s a).1 = c.latest s
  replace_latest : ∀ s a, c.latest (c.replace s a).2 = a
  replace_closed : ∀ s a, t.closed (c.replace s a).2 = t.closed s
  replace_seeks : ∀ {s w p} a, t.Seeks s w p → t.Seeks (c.replace s a).2 w p
  close_latest : ∀ s, c.latest (c.close s) = c.latest s
  close_closed : ∀ s, t.closed (c.close s) = true
  close_seeks : ∀ {s w p}, t.Seeks s w p → t.Seeks (c.close s) w p
  subscribe_quiet : ∀ s, t.Quiet s (c.subscribe s).2
  clone_quiet : ∀ s r, t.Quiet s (c.clone s r).2
  search_seeks : ∀ s r p, t.Seeks s (c.search r p) p
  poll_quiet : ∀ s w, t.Quiet s (c.poll s w).2
  /-- A search finds the latest value if it is wanted, even if the sender is gone. -/
  poll_wanted : ∀ {s w p}, t.Seeks s w p → p (c.latest s) = true → (c.poll s w).1 = .value (c.latest s)
  /-- A search is given up only once the sender is gone and the last value is not wanted. -/
  poll_closed : ∀ {s w p}, t.Seeks s w p → p (c.latest s) = false → t.closed s = true →
    (c.poll s w).1 = .closed
  poll_pending : ∀ {s w p}, t.Seeks s w p → p (c.latest s) = false → t.closed s = false →
    ∃ w', (c.poll s w).1 = .pending w' ∧ t.Seeks (c.poll s w).2 w' p

/-- A channel that keeps its promises. -/
def Lawful (c : Channel α) : Prop := ∃ t : c.Terms, t.Lawful

end Channel

/-! ### A channel that counts -/

/-- The latest value, how many have been sent, and whether the sender is gone. -/
structure Counted (α : Type) where
  value : α
  sends : Nat
  closed : Bool
  deriving DecidableEq, Repr

namespace Counted

variable {α : Type}

/-- A search that remembers how many values had been sent when it looked last, if it has looked. -/
structure Search (α : Type) where
  wanted : α → Bool
  seen : Option Nat

/-- A search looks at the value when it is polled first and whenever there has been a new one. -/
def poll (s : Counted α) (w : Search α) : Found α (Search α) :=
  if w.seen ≠ some s.sends ∧ w.wanted s.value = true then .value s.value
  else if s.closed then .closed
  else .pending { w with seen := some s.sends }

end Counted

/-- The channel that counts.  A receiver has nothing of its own. -/
def counted (α : Type) : Channel α where
  Shared := Counted α
  Receiver := Unit
  Search := Counted.Search α
  new a := ⟨a, 0, false⟩
  latest s := s.value
  read s _ := s.value
  replace s a := (s.value, { s with value := a, sends := s.sends + 1 })
  close s := { s with closed := true }
  subscribe s := ((), s)
  clone s _ := ((), s)
  search _ p := ⟨p, none⟩
  poll s w := (s.poll w, s)

end EmbedServer.Cancellation
