/-
A core whose callers may go away.

Calls come in and are looked at in any order, as in a `Session`; besides, a caller may go away while its
call waits, and then nobody looks at the call again.  Every call leaves a record: what it asked for,
whether it was admitted to a computation, the race for the computation if one was begun, and what has
become of it.  No call depends on the record.
-/
import EmbedServer.Call.Session

namespace EmbedServer.Call

variable {σ : Type}

/-- What has become of a call. -/
inductive Standing (σ : Type) where
  /-- It waits for its computation. -/
  | waiting (p : Pending σ)
  | returned (moment : Nat) (outcome : Outcome)
  /-- Its caller went away while it waited. -/
  | dropped

/-- The record of a call. -/
structure Attendee (σ : Type) where
  request : Request
  /-- Whether it asked for a computation and found the server running. -/
  admitted : Bool
  /-- The race for its computation, if one was begun. -/
  race : Option (Race σ)
  standing : Standing σ

/-- Whether a call has neither returned nor been dropped. -/
def Attendee.isOpen (k : Attendee σ) : Bool :=
  match k.standing with
  | .waiting _ => true
  | .returned .. | .dropped => false

/-- Whether a call was admitted to a computation and has neither returned nor been dropped. -/
def Attendee.inFlight (k : Attendee σ) : Bool := k.admitted && k.isOpen

/-- Whether a call has returned and says that it was cancelled. -/
def Attendee.saysCancelled (k : Attendee σ) : Bool :=
  match k.standing with
  | .returned _ o => isCancelled o
  | .waiting _ | .dropped => false

/-- How a call stands that has come so far by now. -/
def Progress.standing (moment : Nat) : Progress σ → Standing σ
  | .done _ o => .returned moment o
  | .waiting p => .waiting p

namespace Core

/-- The race that a call enters which arrives now, if it enters one. -/
def entered? (c : Core σ) (context : Context) (request : Request) : Option (Race σ) :=
  (c.asked? context request).map fun text => c.handler.race (c.backend.compute c.compute text) c.now

/-- The record of a call that arrives now. -/
def attendee (c : Core σ) (context : Context) (request : Request) : Attendee σ where
  request := request
  admitted := c.admits request
  race := c.entered? context request
  standing := (c.take context request).2.standing c.now

end Core

/-- A core and the calls it has taken, numbered from the first. -/
structure Attendance (σ : Type) where
  core : Core σ
  calls : List (Attendee σ)

namespace Attendance

/-- What can happen: what can happen in a session, and that the caller with a number goes away. -/
inductive Move where
  | op (o : Session.Op)
  | drop (id : Nat)

def new (c : Core σ) : Attendance σ := ⟨c, []⟩

/-- A call comes in. -/
def call (s : Attendance σ) (context : Context) (request : Request) : Attendance σ where
  core := (s.core.take context request).1
  calls := s.calls ++ [s.core.attendee context request]

/-- A call is looked at, if it waits. -/
def look (s : Attendance σ) (id : Nat) : Attendance σ :=
  match s.calls[id]? with
  | none => s
  | some k =>
    match k.standing with
    | .waiting p =>
      let (core, progress) := s.core.poll p
      ⟨core, s.calls.set id { k with standing := progress.standing s.core.now }⟩
    | .returned .. | .dropped => s

/-- A caller goes away.  A call that waits is given up. -/
def drop (s : Attendance σ) (id : Nat) : Attendance σ :=
  match s.calls[id]? with
  | none => s
  | some k =>
    match k.standing with
    | .waiting _ => ⟨s.core.abandon, s.calls.set id { k with standing := .dropped }⟩
    | .returned .. | .dropped => s

def step (s : Attendance σ) : Move → Attendance σ
  | .op (.call context request) => s.call context request
  | .op (.look id) => s.look id
  | .op o => { s with core := ((Session.new s.core).step o).core }
  | .drop id => s.drop id

def run (s : Attendance σ) (moves : List Move) : Attendance σ := moves.foldl step s

/-- The number of calls in flight. -/
def inFlight (s : Attendance σ) : Nat := s.calls.countP Attendee.inFlight

/-- The number of calls that say they were cancelled. -/
def cancelled (s : Attendance σ) : Nat := s.calls.countP Attendee.saysCancelled

end Attendance

end EmbedServer.Call
