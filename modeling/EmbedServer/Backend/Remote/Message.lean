/-
The messages of a remote executor.

An executor answers with any number of vectors, each with the index of the input it belongs to; the
one that counts is the first of those with the least index.
-/
import EmbedServer.Json.Value

namespace EmbedServer.Backend.Remote

open Schema

/-- A text to embed, and the model to do it with. -/
structure Query where
  input : String
  model : Option String
  deriving DecidableEq, Repr, Inhabited

namespace Query

def toJson (q : Query) : Json.Value :=
  .object (("input", .text q.input) :: (q.model.map fun m => ("model", Json.Value.text m)).toList)

def shape {R : Type → Type} [Source R] : R Query :=
  Source.record "EmbeddingRequest" default [
    .of "input" .required Source.text fun input q => { q with input },
    .of "model" .named (Source.optional Source.text) fun model q => { q with model }]

end Query

/-- One vector of an answer. -/
structure Item where
  embedding : List Float
  index : Nat
  deriving Inhabited

namespace Item

def toJson (i : Item) : Json.Value :=
  .object [("embedding", .reals i.embedding), ("index", .whole i.index)]

def shape {R : Type → Type} [Source R] : R Item :=
  Source.record "EmbeddingData" ⟨[], 0⟩ [
    .of "embedding" .required (Source.list Source.real) fun embedding i => { i with embedding },
    .of "index" .free (Source.natural .size) fun index i => { i with index }]

end Item

/-- The answer of an executor. -/
structure Answer where
  data : List Item
  model : Option String
  deriving Inhabited

namespace Answer

def toJson (a : Answer) : Json.Value :=
  .object [("data", .list (a.data.map Item.toJson)), ("model", .ofOption a.model)]

def shape {R : Type → Type} [Source R] : R Answer :=
  Source.record "EmbeddingResponse" default [
    .of "data" .required (Source.list Item.shape) fun data a => { a with data },
    .of "model" .free (Source.optional Source.text) fun model a => { a with model }]

/-- The first of the items with the least index. -/
def leastItem : List Item → Option Item
  | [] => none
  | i :: rest => match leastItem rest with
    | some j => some (if j.index < i.index then j else i)
    | none => some i

/-- The vector that counts. -/
def first (a : Answer) : Option (List Float) := (leastItem a.data).map Item.embedding

end Answer

end EmbedServer.Backend.Remote
