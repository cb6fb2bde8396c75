import Floorplan.Command.Files
import Floorplan.Command.Request
import Floorplan.Level.Document
import Floorplan.Resource.Container
import Floorplan.Settings

/-!
# Floorplan.Command.Run

What a request does. `planWith` works out from the files that are read what is to be printed or
written, so that nothing is touched before all of it is known; `runWith` carries the plan out on a
table of files. Both take any reader of settings, and `plan` and `run` read them as TOML.
-/

namespace Floorplan
namespace Command

inductive Action where
  | print (text : String)
  | write (path text : String)
  deriving DecidableEq

inductive Failure where
  | settingsUnread (path : String) (cause : FileFault)
  | settingsInvalid (path : String) (cause : SettingsError)
  | resourceType (cause : SettingsError)
  | inputUnread (path : String) (cause : FileFault)
  | container (cause : Container.Malformed)
  | noOutput
  | noName
  | noResource (cause : Fork.SelectError)
  | picture (cause : PictureError)
  | outputUnmade (path : String) (cause : FileFault)
  deriving DecidableEq

/-- The failure in words, from what was attempted down to its cause. -/
def Failure.chain : Failure → List String
  | settingsUnread path cause => ["couldn't read settings from " ++ path, cause.message]
  | settingsInvalid path cause => ["invalid settings in " ++ path, cause.message]
  | resourceType cause => [cause.message]
  | inputUnread path cause => ["couldn't read " ++ path, cause.message]
  | container cause => ["couldn't read the resource fork", cause.message]
  | noOutput => ["no output path given"]
  | noName => ["no map name given"]
  | noResource cause => [cause.message]
  | picture cause => ["couldn't decode the level picture", cause.message]
  | outputUnmade path cause => ["couldn't create " ++ path, cause.message]

abbrev Reader := String → Except FileFault (List UInt8)

/-- How the document of a settings file is read. -/
abbrev SettingsReader := String → Except SettingsError Settings

/-- A result whose error is put into its context. -/
def within {α ε ε' : Type} (context : ε → ε') : Except ε α → Except ε' α
  | .ok a => .ok a
  | .error e => .error (context e)

def utf8Text (bytes : List UInt8) : Except FileFault String :=
  match String.fromUTF8? ⟨bytes.toArray⟩ with
  | some text => .ok text
  | none => .error .notUtf8

/-- The settings of the file that a request names, or the standard ones. -/
def settings (parse : SettingsReader) (read : Reader) (r : Request) : Except Failure Settings :=
  match r.config with
  | none => .ok .standard
  | some path => do
    let bytes ← within (.settingsUnread path) (read path)
    let text ← within (.settingsUnread path) (utf8Text bytes)
    within (.settingsInvalid path) (parse text)

/-- The bytes of the picture in the input. -/
def pictureBytes (r : Request) (type : TypeCode) (name : String) (input : List UInt8) :
    Except Failure (List UInt8) :=
  if r.raw then .ok (Picture.dropPreamble input)
  else do
    let fork ← within .container (Container.decode input)
    let resource ← within .noResource (fork.select type r.resource name)
    return resource.data

/-- What a request comes to, from the files that it reads. -/
def planWith (parse : SettingsReader) (read : Reader) (r : Request) : Except Failure Action := do
  let settings ← settings parse read r
  let type ← within .resourceType settings.typeCode
  let input ← within (.inputUnread r.input) (read r.input)
  if r.list then
    let fork ← within .container (Container.decode input)
    return .print fork.listing
  else
    match r.output, r.name with
    | none, _ => .error .noOutput
    | _, none => .error .noName
    | some output, some name =>
      let picture ← pictureBytes r type name input
      let conversion ← within .picture (Conversion.ofPicture (settings.options name) picture)
      return .write output conversion.level.document

def plan (read : Reader) (r : Request) : Except Failure Action := planWith Settings.parse read r

/-- What was printed, if the request came to something, and the files as they are left. -/
structure Outcome where
  printed : Except Failure String
  files : Files

def runWith (parse : SettingsReader) (files : Files) (r : Request) : Outcome :=
  match planWith parse files.read r with
  | .error failure => ⟨.error failure, files⟩
  | .ok (.print text) => ⟨.ok text, files⟩
  | .ok (.write path text) =>
    match files.write path text.toUTF8.toList with
    | .error cause => ⟨.error (.outputUnmade path cause), files⟩
    | .ok files => ⟨.ok "", files⟩

def run (files : Files) (r : Request) : Outcome := runWith Settings.parse files r

end Command
end Floorplan
