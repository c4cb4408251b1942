/-
The life of a server, from before its start on.

`Tasks` begins where a start has succeeded.  Here the start is open as well: it begins, and at some
later time it comes out what has become of the address.  In between, and at all other times, others
may look at the registry that the server has been given, and follow its keys.

A move that does not make sense where it comes changes nothing.  Writes of the registry are turns of
a started server; before that nobody writes it.
-/
import EmbedServer.Health.Session
import EmbedServer.Lifecycle.Tasks

namespace EmbedServer.Lifecycle

variable {σ : Type}

/-- How far a server has come. -/
inductive Phase (σ : Type) where
  | ready (b : Blueprint σ)
  /-- The start has begun, and waits for the address. -/
  | binding (b : Blueprint σ)
  /-- The start has failed, and this is left. -/
  | failed (s : Http.Server σ)
  | started (t : Tasks σ)

namespace Phase

def wire : Phase σ → Http.Server σ
  | .ready b => b.fresh
  | .binding b => Act.apply b.fresh (.advance .starting)
  | .failed s => s
  | .started t => t.wire

def state (p : Phase σ) : State := p.wire.core.state

def health (p : Phase σ) : Health.Registry := p.wire.core.health

/-- The same with another registry. -/
def withHealth (p : Phase σ) (r : Health.Registry) : Phase σ :=
  match p with
  | .ready b => .ready { b with core := { b.core with health := r } }
  | .binding b => .binding { b with core := { b.core with health := r } }
  | .failed s => .failed { s with core := { s.core with health := r } }
  | .started t => .started { t with wire := { t.wire with core := { t.wire.core with health := r } } }

/-- The start begins. -/
def begin : Phase σ → Phase σ
  | .ready b => .binding b
  | p => p

/-- The start goes on to its end. -/
def bind (p : Phase σ) (binding : Binding) : Phase σ :=
  match p, binding with
  | .binding b, .bound a => .started (b.running a).tasks
  | .binding b, binding => .failed (b.started binding)
  | p, _ => p

/-- A turn of the started server. -/
def turn (p : Phase σ) (u : Turn) : Phase σ :=
  match p with
  | .started t => .started (t.step u)
  | p => p

def isStarted : Phase σ → Bool
  | .started _ => true
  | .ready _ | .binding _ | .failed _ => false

/-- Whether nobody is in the middle of something. -/
def isBetween : Phase σ → Bool
  | .started t => t.todo.isEmpty
  | .ready _ | .binding _ | .failed _ => true

/-- Whether a turn comes when nobody is in the middle of something, or goes on with it. -/
def isWhole (p : Phase σ) (u : Turn) : Bool :=
  match p with
  | .started t => t.isWhole u
  | .ready _ | .binding _ | .failed _ => true

end Phase

/-- A server with those who follow its registry, by name. -/
structure Life (σ : Type) where
  phase : Phase σ
  watches : List (String × Health.Watch)

/-- What can happen. -/
inductive Move where
  | begin
  | bind (binding : Binding)
  | turn (u : Turn)
  /-- Somebody turns to the registry. -/
  | consult (op : Health.Session.Op)

namespace Life

/-- A server that is not started, with a registry that nobody follows. -/
def new (b : Blueprint σ) : Life σ := ⟨.ready b, []⟩

def state (l : Life σ) : State := l.phase.state

def health (l : Life σ) : Health.Registry := l.phase.health

/-- Somebody turns to the registry. -/
def consult (l : Life σ) (op : Health.Session.Op) : Life σ :=
  let s := (Health.Session.step ⟨l.health, l.watches⟩ op).2
  ⟨l.phase.withHealth s.registry, s.watches⟩

def step (l : Life σ) : Move → Life σ
  | .begin => { l with phase := l.phase.begin }
  | .bind binding => { l with phase := l.phase.bind binding }
  | .turn u => { l with phase := l.phase.turn u }
  | .consult op => l.consult op

def run (l : Life σ) (moves : List Move) : Life σ := moves.foldl step l

/-- Nobody comes in between what the supervisor does from one wait to the next, and who turns to the
registry otherwise than by a turn only looks. -/
def allows (l : Life σ) : Move → Bool
  | .begin | .bind _ => l.phase.isBetween
  | .turn u => l.phase.isWhole u
  | .consult op => l.phase.isBetween && op.looks

/-- Whether every move is allowed where it comes. -/
def follows : Life σ → List Move → Bool
  | _, [] => true
  | l, m :: rest => l.allows m && follows (l.step m) rest

end Life

end EmbedServer.Lifecycle
