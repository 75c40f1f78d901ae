import MotionControl.Document.Toml
import MotionControl.FileTree
import MotionControl.Settings.Document

/-!
# Loading settings

Reading and checking are separate: a document that cannot be read has no
settings, and settings that were read may still be refused.

- `Source`: what is found where settings are expected.
- `LoadError`: why there are no settings, with its wording.
- `SystemSettings.ofDocument`, `SystemSettings.load`: text, and a source, to
  checked settings.
-/

namespace MotionControl

/-- What is found at the place of a settings file: its bytes, or why there are none. -/
abbrev Source := Except PathError ByteArray

/-- Why settings could not be loaded. -/
inductive LoadError where
  | notFound
  | unreadable (reason : String)
  /-- The text is no document, or its values have the wrong shape. -/
  | malformed
  | refused (error : SettingsError Float)

namespace LoadError

/-- The name of a failure in a report. -/
def title : LoadError → String
  | notFound => "FileNotFound"
  | unreadable _ => "Read"
  | malformed => "ParseError"
  | refused _ => SettingsError.title

/-- What is said about it. -/
def message : LoadError → String
  | notFound => "Configuration file not found"
  | unreadable reason => "Failed to read configuration: " ++ reason
  | malformed => "Failed to parse configuration: malformed document"
  | refused e => e.message

end LoadError

namespace SystemSettings

/-- The settings in a document, checked as a whole. -/
def ofDocument (document : String) : Except LoadError (SystemSettings Float) :=
  match (Document.Toml.read? document).bind (Document.read? .ignored) with
  | none => .error .malformed
  | some (settings : SystemSettings Float) =>
    match settings.check with
    | .ok () => .ok settings
    | .error e => .error (.refused e)

/-- The settings at a source. -/
def load : Source → Except LoadError (SystemSettings Float)
  | .error .missing => .error .notFound
  | .error e => .error (.unreadable e.message)
  | .ok content =>
    match String.fromUTF8? content with
    | none => .error (.unreadable "stream did not contain valid UTF-8")
    | some document => ofDocument document

end SystemSettings

end MotionControl
