/-
The command line program.

Everything it does is decided in `Cli.World`; here the arguments, the environment and the files are
fetched, and what comes out is printed.  The server lives in memory: it listens at a port of its own
machine, and the end of standard input takes the place of an interrupt.
-/
import EmbedServer.Cli.Program

namespace EmbedServer

/-- The variables in a block of assignments that end in zeros. -/
def ofEnvironmentBlock (block : String) : List (String × String) :=
  (Text.pieces (Char.ofNat 0) block).filterMap fun entry =>
    match Text.pieces '=' entry with
    | name :: first :: more => some (name, String.intercalate "=" (first :: more))
    | _ => none

/-- The text of a file, if it can be read. -/
def readText (name : String) : IO (Option (String × String)) := do
  try
    let bytes ← IO.FS.readBinFile name
    return some (name, Utf8.decodeLossy bytes.toList)
  catch _ => return none

/-- The files that can be read of those asked for. -/
def readTexts (names : List String) : IO (List (String × String)) := do
  return (← names.mapM readText).filterMap id

/-- The machine that the server listens at. -/
def ownMachine : Net.Machine := ⟨[], 49152⟩

/-- Prints entries of the log. -/
def printEntries (entries : List Log.Entry) : IO Unit := do
  for e in entries do
    IO.println e.text
  (← IO.getStdout).flush

/-- Waits until nothing more comes from standard input. -/
partial def awaitEnd (input : IO.FS.Stream) : IO Unit := do
  if (← input.getLine).isEmpty then return else awaitEnd input

/-- Runs the program and gives its exit code. -/
def runProgram (args : List String) : IO UInt32 := do
  let block ← readText "/proc/self/environ"
  let environment := block.elim [] fun (_, text) => ofEnvironmentBlock text
  let early : Cli.World := ⟨args, environment, ← readTexts [Cli.envFileName], ownMachine⟩
  let world := { early with files := ← readTexts early.wanted }
  match world.run with
  | .error ending =>
    printEntries ending.output
    (← IO.getStderr).putStr ending.complaints
    return ending.code.toUInt32
  | .ok serving =>
    (← IO.getStderr).putStr serving.complaints
    printEntries serving.output
    awaitEnd (← IO.getStdin)
    let ending := serving.finish "SIGINT"
    printEntries (ending.output.drop serving.output.length)
    return ending.code.toUInt32

end EmbedServer

def main (args : List String) : IO UInt32 := EmbedServer.runProgram args
