/-
Loading settings: from a document, from a file, and from a file under the environment.

The last two ways in also check that the settings are accepted.
-/
import EmbedServer.Settings.Layer
import EmbedServer.Settings.Validation
import EmbedServer.Lifecycle.Error
import EmbedServer.Json.Tree

namespace EmbedServer.Settings

/-- A file that is asked for: its path, and its text if it exists. -/
structure SourceFile where
  path : String
  text : Option String

/-- A path without steps that lead nowhere. -/
def plainPath (path : String) : String :=
  let steps := (Text.pieces '/' path).filter fun step => !step.isEmpty && step != "."
  String.intercalate "/" steps

/-- The names that a path can mean: its own, and that with the usual ending. -/
def SourceFile.names (path : String) : List String :=
  let name := if Text.startsWith path "/" then path else plainPath path
  [name, name ++ ".toml"]

/-- The file that a path asks for: the first that exists of those it can mean. -/
def SourceFile.locate (files : List (String × String)) (path : String) : SourceFile :=
  match (SourceFile.names path).find? fun name => (files.lookup name).isSome with
  | some name => ⟨name, files.lookup name⟩
  | none => ⟨path, none⟩

/-- The layer of a file. -/
def SourceFile.layer (f : SourceFile) : Except LoadError Layer :=
  match f.text with
  | some text => documentLayer (some f.path) text
  | none => .error (.fileMissing f.path)

/-- The settings that layers give. -/
def ofLayers (layers : List Layer) : Except LoadError Settings :=
  (shape : FromNode Settings) (layered layers)

/-- The settings in a document. -/
def ofDocument (text : String) : Except LoadError Settings := do
  let layer ← documentLayer none text
  ofLayers [layer]

/-- The settings in a file. -/
def ofFile (f : SourceFile) : Except LoadError Settings := do
  let layer ← f.layer
  ofLayers [layer]

/-- The settings in a file, if one is asked for, under those in the environment. -/
def ofEnvironment (f : Option SourceFile) (environment : List (String × String)) :
    Except LoadError Settings := do
  let file ← match f with
    | some f => do
      let layer ← f.layer
      pure [layer]
    | none => pure []
  ofLayers (file ++ [environmentLayer environment])

/-- The error of the server for settings that cannot be loaded. -/
def LoadError.toServerError (e : LoadError) : ServerError := .config e.message

/-- Settings that are accepted, or the error of the server for the first broken rule. -/
def validate (s : Settings) : Except ServerError Settings :=
  match s.violation with
  | some v => .error (.config v.message)
  | none => .ok s

/-- A way of loading, with the check that the result is accepted. -/
def checked (loaded : Except LoadError Settings) : Except ServerError Settings :=
  match loaded with
  | .ok s => validate s
  | .error e => .error e.toServerError

end EmbedServer.Settings
