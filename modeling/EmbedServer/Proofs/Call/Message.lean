/-
Messages come through the wire as they are.

A message is an object whose members are the fields of its shape, less those that are left out because
their start value stands.  So a message is read back if each of its members is.
-/
import EmbedServer.Backend.Remote.Message
import EmbedServer.Call.Message
import EmbedServer.Proofs.Json.Record

namespace EmbedServer

open Json.Reader

/-! ### What callers send -/

namespace Call

/-- The members of a chunk, as they are written. -/
def Chunk.members (c : Chunk) : List (Member Chunk) :=
  ⟨"content", .text c.content, fun x => { x with content := c.content }⟩ ::
    (c.path.map fun p => ⟨"path", .text p, fun x => { x with path := some p }⟩).toList ++
    (c.index.map fun i => ⟨"index", .whole i, fun x => { x with index := some i }⟩).toList

theorem reads_chunk (c : Chunk) (hindex : ∀ i ∈ c.index, i < UInt64.size) :
    Reads Chunk.shape c.toJson c := by
  have hjson : c.toJson = .object (c.members.map Member.entry) := by
    obtain ⟨content, path, index⟩ := c
    cases path <;> cases index <;> rfl
  have hread : c.members.foldl (fun x m => m.set x) (.ofContent "") = c := by
    obtain ⟨content, path, index⟩ := c
    cases path <;> cases index <;> rfl
  have hnames : (c.members.map Member.name).Nodup := by
    obtain ⟨content, path, index⟩ := c
    cases path <;> cases index <;> simp [Chunk.members]
  have hreads : Reads Chunk.shape (.object (c.members.map Member.entry))
      (c.members.foldl (fun x m => m.set x) (.ofContent "")) := by
    refine reads_record ?_ hnames (by simp [Schema.Field.of])
    intro m hm
    simp only [Chunk.members, List.cons_append, List.mem_cons, List.mem_append, Option.mem_toList,
      Option.map_eq_some_iff] at hm
    rcases hm with rfl | ⟨p, -, rfl⟩ | ⟨i, hi, rfl⟩
    · exact ⟨_, rfl, (reads_text _).map _⟩
    · exact ⟨_, rfl, (reads_text _).optional.map _⟩
    · exact ⟨_, rfl, (reads_natural (hindex i hi)).optional.map _⟩
  rwa [hread, ← hjson] at hreads

theorem reads_query (q : HealthQuery) : Reads HealthQuery.shape q.toJson q := by
  have hreads : Reads HealthQuery.shape
      (.object ([(⟨"service", .text q.service, fun _ => q⟩ : Member HealthQuery)].map Member.entry)) q := by
    refine reads_record ?_ (by simp) (by simp [Schema.Field.of])
    intro m hm
    rw [List.mem_singleton.mp hm]
    exact ⟨_, rfl, (reads_text _).map _⟩
  exact hreads

end Call

/-- The members of a question to an executor, as they are written. -/
def Backend.Remote.Query.members (q : Backend.Remote.Query) : List (Member Backend.Remote.Query) :=
  ⟨"input", .text q.input, fun x => { x with input := q.input }⟩ ::
    (q.model.map fun m => ⟨"model", .text m, fun x => { x with model := some m }⟩).toList

theorem Backend.Remote.reads_query (q : Backend.Remote.Query) :
    Reads Backend.Remote.Query.shape q.toJson q := by
  have hjson : q.toJson = .object (q.members.map Member.entry) := by
    obtain ⟨input, model⟩ := q
    cases model <;> rfl
  have hread : q.members.foldl (fun x m => m.set x) default = q := by
    obtain ⟨input, model⟩ := q
    cases model <;> rfl
  have hnames : (q.members.map Member.name).Nodup := by
    obtain ⟨input, model⟩ := q
    cases model <;> simp [Query.members]
  have hreads : Reads Query.shape (.object (q.members.map Member.entry))
      (q.members.foldl (fun x m => m.set x) default) := by
    refine reads_record ?_ hnames (by simp [Schema.Field.of, Query.members])
    intro m hm
    simp only [Query.members, List.mem_cons, Option.mem_toList, Option.map_eq_some_iff] at hm
    rcases hm with rfl | ⟨p, -, rfl⟩
    · exact ⟨_, rfl, (reads_text _).map _⟩
    · exact ⟨_, rfl, (reads_text _).optional.map _⟩
  rwa [hread, ← hjson] at hreads

/-! ### What they are answered -/

namespace Call

private theorem lookup_code (c : Code) : Code.choices.lookup c.wire = some c := by
  cases c <;> decide

private theorem lookup_status (s : Health.Status) : Health.Status.choices.lookup s.wire = some s := by
  cases s <;> decide

theorem reads_error (e : Error) : Reads Error.shape e.toJson e := by
  have hreads : Reads Error.shape (.object ([
      (⟨"code", .text e.code.wire, fun x => { x with code := e.code }⟩ : Member Error),
      ⟨"message", .text e.message, fun x => { x with message := e.message }⟩].map Member.entry)) e := by
    refine reads_record ?_ (by simp) (by simp [Schema.Field.of])
    intro m hm
    simp only [List.mem_cons, List.not_mem_nil, or_false] at hm
    rcases hm with rfl | rfl
    · exact ⟨_, rfl, (reads_choice (lookup_code _)).map _⟩
    · exact ⟨_, rfl, (reads_text _).map _⟩
  exact hreads

theorem reads_report (r : HealthReport) : Reads HealthReport.shape r.toJson r := by
  have hreads : Reads HealthReport.shape
      (.object ([(⟨"status", .text r.status.wire, fun _ => r⟩ : Member HealthReport)].map Member.entry))
      r := by
    refine reads_record ?_ (by simp) (by simp [Schema.Field.of])
    intro m hm
    rw [List.mem_singleton.mp hm]
    exact ⟨_, rfl, (reads_choice (lookup_status _)).map _⟩
  exact hreads

end Call

end EmbedServer
