/-
The program: from arguments, environment and files to a server that listens, and on to its end.

What stops the program before it listens is reported on the error stream with its causes, unless it is a
refusal to build the backend: nobody catches that, and the program is lost.  The settings are those of the
file under those of the environment, and must be accepted as they are; the options come over them after
that, and the result must be accepted again.
-/
import EmbedServer.Backend.Factory
import EmbedServer.Call.Stages
import EmbedServer.Cli.Arguments
import EmbedServer.Cli.EnvFile
import EmbedServer.Lifecycle.Running
import EmbedServer.Log.Filter
import EmbedServer.Log.Format
import EmbedServer.Settings.Load

namespace EmbedServer.Cli

/-- What the program finds. -/
structure World where
  arguments : List String
  environment : List (String × String)
  /-- The files that can be read, by name. -/
  files : List (String × String)
  machine : Net.Machine

/-- The file whose variables are added to the environment. -/
def envFileName : String := ".env"

/-- The environment with the variables of the file for it. -/
def World.fullEnvironment (w : World) : List (String × String) :=
  EnvFile.extend w.environment ((w.files.lookup envFileName).getD "")

/-! ### Failures -/

/-- Why the program ends without having listened, and says so. -/
inductive Failure where
  | loading (e : ServerError)
  | settings (e : ServerError)
  | start (address : String) (e : Lifecycle.StartupError)
  deriving DecidableEq, Repr

namespace Failure

/-- What the program was about. -/
def occasion : Failure → String
  | .loading _ => "failed to load configuration"
  | .settings _ => "invalid configuration"
  | .start address _ => "failed to start on " ++ address

/-- What went wrong, the cause of each thing after it. -/
def causes : Failure → List String
  | .loading e | .settings e => [e.message]
  | .start _ e@(.bind _ cause) => [e.message, cause]
  | .start _ e@(.invalidAddress ..) => [e.message]

/-- A text with blanks in front of each line; the first line may have something else there. -/
def indented (first later : String) (text : String) : String :=
  first ++ String.intercalate ("\n" ++ later) (Text.pieces '\n' text)

/-- The causes as they are listed: numbered if there are several. -/
def listed : List String → List String
  | [cause] => [indented "    " "    " cause]
  | causes => causes.zipIdx.map fun (cause, i) =>
    indented ("    " ++ toString i ++ ": ") "       " cause

def message (f : Failure) : String :=
  "Error: " ++ f.occasion ++ "\n\nCaused by:\n" ++ String.intercalate "\n" (listed f.causes) ++ "\n"

end Failure

/-! ### Settings -/

/-- Settings with the options over them. -/
def Options.over (o : Options) (s : Settings) : Settings :=
  { s with server :=
    { s.server with host := o.host.getD s.server.host, port := o.port.getD s.server.port } }

/-- The settings that the program runs with. -/
def effective (o : Options) (file : Option Settings.SourceFile)
    (environment : List (String × String)) : Except Failure Settings :=
  match Settings.checked (Settings.ofEnvironment file environment) with
  | .error e => .error (.loading e)
  | .ok s =>
    match Settings.validate (o.over s) with
    | .error e => .error (.settings e)
    | .ok s => .ok s

/-! ### The log -/

/-- How the program writes its log. -/
structure Printer where
  filter : Log.Filter
  format : Log.Format
  deriving DecidableEq, Repr

/-- What is written of some events. -/
def Printer.entries (p : Printer) (events : List Log.Event) : List Log.Entry :=
  (events.filter p.filter.admits).map (·.inFormat p.format)

/-- The printer that settings and environment ask for, and the complaints about the settings.  A
filter in the environment counts if it is in order. -/
def Printer.choose (l : Settings.Logging) (environment : List (String × String)) :
    Printer × String :=
  let format := Log.Format.ofName l.format
  match (environment.lookup "RUST_LOG").bind Log.Filter.read? with
  | some filter => (⟨filter, format⟩, "")
  | none =>
    let (filter, faults) := Log.Filter.readLossy l.level
    (⟨filter, format⟩, String.join (faults.map fun (text, fault) =>
      "ignoring " ++ backtick ++ text ++ backtick ++ ": " ++ fault.message ++ "\n"))
where
  backtick : String := String.ofList [Char.ofNat 0x60]

/-- An event of the program itself. -/
def told (message : String) : Log.Event := .plain .program .info message

/-! ### Running -/

/-- The end of the program: what it has written, what it has complained about, its exit code. -/
structure Ending where
  code : Nat
  output : List Log.Entry
  complaints : String

/-- A program that listens. -/
structure Serving where
  State : Type
  running : Lifecycle.Running State
  printer : Printer
  complaints : String
  /-- How long calls in flight may run once a signal has come. -/
  drain : Duration

namespace Serving

/-- What the program has written. -/
def output (s : Serving) : List Log.Entry := s.printer.entries s.running.wire.core.log

/-- The end of the program after a signal. -/
def finish (s : Serving) (signal : String) : Ending :=
  let stopped := ((s.running.signal signal s.drain).settle).awaitTermination
  ⟨0, s.printer.entries (stopped.wire.core.log ++ [told "Server shutdown complete"]), s.complaints⟩

end Serving

/-- The stages that the program puts around calls. -/
def stages : List Call.Stage := [.logging, .metrics]

/-- The server that settings ask for, with what the log says so far. -/
def blueprint (s : Settings) (backend : Backend.Packed) (log : List Log.Event) :
    Lifecycle.Blueprint backend.State where
  core :=
    let core := Call.Core.new stages ⟨s.backend.timeout, true⟩ backend.backend backend.state .empty
    { core with state := .created, log }
  limit := s.server.maxBodySize
  healthKeys := s.server.healthKeys
  overrides := []
  graceMargin := s.server.graceMargin

/-- Builds the server that settings ask for and has it listen.  Of a program that is lost only the reason
is told, and not where in it that came up. -/
def serve (m : Net.Machine) (s : Settings) (printer : Printer) (complaints : String) :
    Except Ending Serving :=
  let opening := [told ("Starting softgrep model server v" ++ programVersion)]
  match Backend.ofSettings Http.Peer.absent () s.backend with
  | (.error r, events) =>
    .error ⟨101, printer.entries (opening ++ events), complaints ++ r.message ++ "\n"⟩
  | (.ok backend, events) =>
    let built := told ("Compute backend '" ++ backend.backend.name ++ "' initialized")
    let address := s.server.listenAddress
    match (blueprint s backend (opening ++ events ++ [built])).start m address with
    | .error (e, core) =>
      .error ⟨1, printer.entries core.log, complaints ++ (Failure.start address e).message⟩
    | .ok r =>
      let listening := told ("Listening on " ++ r.address.text)
      let r := { r with wire := Lifecycle.Act.apply r.wire (.note listening) }
      .ok ⟨backend.State, r, printer, complaints, s.server.drainTimeout⟩

/-- Lines of plain text, and nothing else. -/
def Ending.lines (texts : List String) : Ending := ⟨0, texts.map .line, ""⟩

/-- The options of the program, or its end. -/
def World.options (w : World) : Except Ending Options :=
  match readOptions w.arguments w.fullEnvironment with
  | .ok o => .ok o
  | .error .help => .error (.lines (helpLines w.fullEnvironment))
  | .error .version => .error (.lines [versionLine])
  | .error (.error e) => .error ⟨2, [], e.message⟩

/-- The names of the files that the program looks at. -/
def World.wanted (w : World) : List String :=
  match w.options with
  | .ok o => envFileName :: o.config.elim [] Settings.SourceFile.names
  | .error _ => [envFileName]

/-- Runs the program until it listens. -/
def World.run (w : World) : Except Ending Serving :=
  match w.options with
  | .error ending => .error ending
  | .ok o =>
    match effective o (o.config.map (Settings.SourceFile.locate w.files)) w.fullEnvironment with
    | .error f => .error ⟨1, [], f.message⟩
    | .ok s =>
      let (printer, complaints) := Printer.choose s.logging w.fullEnvironment
      serve w.machine s printer complaints

end EmbedServer.Cli
