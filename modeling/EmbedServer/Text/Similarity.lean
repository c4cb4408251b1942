/-
How alike two words are, from nought to one.

A letter of one word matches the same letter of the other if their places are not too far apart;
each letter matches once, the first that it can.  Matched letters that come in a different order
count half.  The result is the mean of three shares: of the first word that is matched, of the
second word that is matched, and of the matches that are in order.
-/

namespace EmbedServer.Text

/-- How far apart the places of matching letters may be. -/
def reach (a b : List Char) : Nat := max a.length b.length / 2 - 1

/-- The place in `b` that the letter `c` at place `i` matches: the first in reach that is free. -/
def matchPlace? (b : List Char) (reach i : Nat) (c : Char) (matched : List Nat) : Option Nat :=
  (List.range (min b.length (i + reach + 1))).find? fun j =>
    decide (i - reach ≤ j) && b[j]? == some c && !matched.contains j

/-- The matched letters of `a`, in order, and the places in `b` that they match. -/
def letterMatches (a b : List Char) : List Char × List Nat :=
  a.zipIdx.foldl (fun (letters, places) (c, i) =>
    match matchPlace? b (reach a b) i c places with
    | some j => (letters ++ [c], places ++ [j])
    | none => (letters, places)) ([], [])

/-- How alike two words are. -/
def similarity (a b : String) : Float :=
  let (as, bs) := (a.toList, b.toList)
  let (letters, places) := letterMatches as bs
  let inOrder := bs.zipIdx.filterMap fun (c, j) => if places.contains j then some c else none
  let moved := ((letters.zip inOrder).filter fun (c, d) => c != d).length / 2
  let n := letters.length
  if as.isEmpty && bs.isEmpty then 1
  else if n = 0 then 0
  else
    (n.toFloat / as.length.toFloat + n.toFloat / bs.length.toFloat
      + (n - moved).toFloat / n.toFloat) / 3

/-- The candidate most like a word, if one is like enough; of equals the last. -/
def mostSimilar? {α : Type} (word : String) (candidates : List (String × α)) : Option α :=
  let scored := candidates.filterMap fun (name, a) =>
    let s := similarity word name
    if 0.7 < s then some (s, a) else none
  (scored.foldl (fun best (s, a) =>
    match best with
    | some (t, b) => if s < t then some (t, b) else some (s, a)
    | none => some (s, a)) none).map Prod.snd

end EmbedServer.Text
