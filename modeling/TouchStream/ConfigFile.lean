import TouchStream.Toml.Reader
import TouchStream.Toml.Records

/-!
# Configuration files

A configuration is kept in a TOML file. What is not in the file has its default, and so has everything where
there is no file.

* `ConfigFile.load`: the configuration in a file.
* `ConfigFile.save`: the file after a configuration has been saved in it.
* `ConfigFile.defaultPath`: where the file is kept.
-/

namespace TouchStream

/-- What is found at a path. -/
inductive FileState
  | absent
  /-- Something that cannot be read as a file, such as a directory. -/
  | unreadable
  | file (content : ByteArray)

/-- The text of the file at a path, if there is such a file and it holds a text in UTF-8. -/
def FileState.text? : FileState → Option String
  | file content => String.fromUTF8? content
  | _ => none

/-- Why a configuration cannot be loaded or saved. -/
inductive ConfigError
  /-- The file cannot be read or written. -/
  | inaccessible
  /-- The text in the file is no configuration. -/
  | malformed
  /-- A number in the configuration is too large for the file. -/
  | unwritable
  /-- The configuration in the file has a fault. -/
  | invalid (fault : SettingsFault)
deriving DecidableEq, Repr

namespace ConfigFile

/-- The configuration that a text describes, as far as it is one. -/
def parse? (text : String) : Option Configuration :=
  (Toml.readDatum? text).bind (Datum.configuration? Toml.dialect)

/-- The text that describes a configuration. -/
def print? (c : Configuration) : Option String := Toml.render? (Toml.ofConfiguration c)

/-- The configuration in a file, and the defaults where there is no file. -/
def load : FileState → Except ConfigError Configuration
  | .absent => .ok {}
  | place =>
    match place.text? with
    | none => .error .inaccessible
    | some text =>
      match parse? text with
      | none => .error .malformed
      | some c =>
        match c.recognizer.check with
        | .error fault => .error (.invalid fault)
        | .ok () => .ok c

/-- Saves a configuration: what is then found at the path, and the error if there is one. Nothing is written
before the directory of the file has been made, which fails where it is `blocked`, and before the whole text
is there. -/
def save (c : Configuration) (blocked : Bool) (place : FileState) :
    FileState × Except ConfigError Unit :=
  if blocked then (place, .error .inaccessible)
  else
    match print? c, place with
    | none, _ => (place, .error .unwritable)
    | some _, .unreadable => (place, .error .inaccessible)
    | some text, _ => (.file text.toUTF8, .ok ())

/-! ## Default places -/

/-- A path within a directory. -/
def within (directory name : String) : String :=
  if directory.isEmpty || directory.endsWith "/" then directory ++ name
  else directory ++ "/" ++ name

/-- The directories that the environment names, as far as it does. -/
structure Environment where
  home : Option String
  configHome : Option String
deriving DecidableEq, Repr

/-- The directory in which the program keeps its data. A directory for configurations counts only when it is an
absolute path; otherwise that directory is looked for at home. -/
def dataDirectory (env : Environment) : String :=
  match env.home.filter (!·.isEmpty) with
  | none => "."
  | some home =>
    let base := (env.configHome.filter (·.startsWith "/")).getD (within home ".config")
    within base "a11ytouch"

/-- The path of the configuration file. -/
def defaultPath (env : Environment) : String := within (dataDirectory env) "config.toml"

end ConfigFile

end TouchStream
