/-
A cancellation that fires once.

Whoever owns the signal may fire it or let go of it; any number of notifiers observe it.  A wait is
ready as soon as the signal has fired, however late the notifier came, and stays pending for ever if
the owner let go without firing.

`Signal` says just that, and is what the rest of the server goes by.  A `Session` is how it comes about:
owner and notifiers hold the two ends of a channel of booleans, and a wait is a search for `true` that
goes to sleep when the channel gives it up.
-/
import EmbedServer.Cancellation.Channel

namespace EmbedServer.Cancellation

/-- A cancellation signal: whether it has fired, and whether its owner still holds it. -/
structure Signal where
  fired : Bool
  held : Bool
  deriving DecidableEq, Repr

namespace Signal

def new : Signal := ⟨false, true⟩

/-- Fires the signal; the answer tells whether this was the first time. -/
def fire (s : Signal) : Bool × Signal := (!s.fired, { s with fired := true })

/-- Lets go of the signal. -/
def release (s : Signal) : Signal := { s with held := false }

/-- Whether a wait on the signal is ready. -/
def ready (s : Signal) : Bool := s.fired

end Signal

/-- A wait, from poll to poll. -/
inductive Wait (c : Channel Bool) where
  /-- Not polled yet; knows the receiver of its notifier. -/
  | begun (receiver : c.Receiver)
  | seeking (search : c.Search)
  /-- Sleeps for good: the channel was closed, and the signal had not fired. -/
  | asleep

namespace Wait

variable {c : Channel Bool}

/-- A poll of the search in a wait.  Nothing is left of a wait that is ready. -/
def seek (s : c.Shared) (w : c.Search) : Option (Wait c) × c.Shared :=
  match c.poll s w with
  | (.value _, s) => (none, s)
  | (.closed, s) => (some .asleep, s)
  | (.pending w, s) => (some (.seeking w), s)

/-- One poll.  The first one makes the wait's own receiver and begins the search. -/
def poll (s : c.Shared) : Wait c → Option (Wait c) × c.Shared
  | .begun r =>
    let (own, s) := c.clone s r
    seek s (c.search own id)
  | .seeking w => seek s w
  | .asleep => (some .asleep, s)

end Wait

/-- What has come of an owner: the channel, whether the owner still holds it, and by name the notifiers
and the waits under way. -/
structure Session (c : Channel Bool) where
  shared : c.Shared
  held : Bool
  notifiers : List (String × c.Receiver)
  waits : List (String × Wait c)

namespace Session

/-- What can be done. -/
inductive Op where
  | subscribe (id : String)
  | clone (id source : String)
  | fire
  | isFired
  /-- Whether a notifier sees the signal as fired. -/
  | notified (id : String)
  /-- Begins a wait of a notifier.  A wait of that name that is under way is given up. -/
  | begin (id notifier : String)
  | poll (id : String)
  | release

/-- Begins a wait under the name of its notifier. -/
def Op.wait (id : String) : Op := .begin id id

/-- What is answered. -/
inductive Answer where
  | flag (b : Bool)
  | done
  | fired
  | pending
  /-- The owner has let go. -/
  | released
  deriving DecidableEq, Repr

variable {c : Channel Bool}

/-- An owner that has just come. -/
def start (c : Channel Bool) : Session c := ⟨c.new false, true, [], []⟩

/-- The session that runs. -/
def new : Session (counted Bool) := start (counted Bool)

/-- Takes a notifier in, unless the name is taken. -/
def add (s : Session c) (id : String) (made : c.Receiver × c.Shared) : Answer × Session c :=
  if (s.notifiers.lookup id).isSome then (.flag false, s)
  else (.flag true, { s with shared := made.2, notifiers := (id, made.1) :: s.notifiers })

/-- The waits without the named one. -/
def without (s : Session c) (id : String) : List (String × Wait c) :=
  s.waits.filter fun w => w.1 != id

def step (s : Session c) : Op → Answer × Session c
  | .subscribe id => if s.held then s.add id (c.subscribe s.shared) else (.released, s)
  | .clone id source =>
    match s.notifiers.lookup source with
    | some r => s.add id (c.clone s.shared r)
    | none => (.flag false, s)
  | .fire =>
    if s.held then
      let (before, shared) := c.replace s.shared true
      (.flag !before, { s with shared := shared })
    else (.released, s)
  | .isFired => (if s.held then .flag (c.latest s.shared) else .released, s)
  | .notified id =>
    match s.notifiers.lookup id with
    | some r => (.flag (c.read s.shared r), s)
    -- A name that is no notifier's is told what the owner is told.
    | none => (.flag (c.latest s.shared), s)
  | .begin id notifier =>
    match s.notifiers.lookup notifier with
    | some r => (.done, { s with waits := (id, .begun r) :: s.without id })
    | none => (.done, s)
  | .poll id =>
    match s.waits.lookup id with
    | some w =>
      match w.poll s.shared with
      | (some w, shared) => (.pending, { s with shared := shared, waits := (id, w) :: s.without id })
      | (none, shared) => (.fired, { s with shared := shared, waits := s.without id })
    | none => (.pending, s)
  | .release =>
    if s.held then (.flag true, { s with shared := c.close s.shared, held := false })
    else (.flag false, s)

/-- The answers to a sequence of operations. -/
def run (s : Session c) : List Op → List Answer
  | [] => []
  | op :: rest =>
    let (answer, s) := s.step op
    answer :: run s rest

end Session

end EmbedServer.Cancellation
