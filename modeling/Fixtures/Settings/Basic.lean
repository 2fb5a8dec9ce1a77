import Fixtures.Files.Basic
import Fixtures.Json.Record
import Fixtures.Json.SyntaxError
import Fixtures.Text.Blank

/-! # Settings

Where resources are, how many placeholders one resolution may look up, and
properties. Settings are valid if the limit is positive and the directory is
not blank.
-/

namespace Fixtures

structure Settings where
  resourceDir : Text
  maxSubstitutions : Nat
  properties : Table Text
  deriving DecidableEq, Repr

inductive SettingsFault
  | noSubstitutions
  | blankDirectory
  deriving DecidableEq, Repr

inductive SettingsError
  | invalid (fault : SettingsFault)
  | unreadable (path : Text) (error : FileError)
  | malformed (path : Text) (error : Json.SyntaxError)
  deriving DecidableEq, Repr

def SettingsFault.message : SettingsFault → String
  | .noSubstitutions => "maxSubstitutions must be greater than 0"
  | .blankDirectory => "resourceDir must not be empty"

def SettingsError.message : SettingsError → String
  | .invalid f => "Invalid configuration: " ++ f.message
  | .unreadable p e => "Failed to read configuration file " ++ String.ofList p ++ ": " ++ e.message
  | .malformed p e => "Failed to parse configuration file " ++ String.ofList p ++ ": " ++ e.message

namespace Settings

def initial : Settings := ⟨"resources".toList, 1000, []⟩

instance : Inhabited Settings := ⟨initial⟩

/-- Other settings laid over these; the properties of both are kept. -/
def merge (s other : Settings) : Settings :=
  ⟨other.resourceDir, other.maxSubstitutions, s.properties.merge other.properties⟩

/-- What is wrong with settings; the limit is looked at first. -/
def fault? (s : Settings) : Option SettingsFault :=
  if s.maxSubstitutions = 0 then some .noSubstitutions
  else if (Text.trim s.resourceDir).isEmpty then some .blankDirectory
  else none

def shape : Json.Shape :=
  .record [("resourceDir", .any), ("maxSubstitutions", .any), ("properties", .any)]

/-- A section of a document as settings; what it leaves out is as in the initial
settings. -/
def ofSection? (v : Json) : Option Settings :=
  match v.fields? shape with
  | some [resourceDir, maxSubstitutions, properties] => do
    let resourceDir ← Json.orDefault? initial.resourceDir Json.text? resourceDir
    let maxSubstitutions ← Json.orDefault? initial.maxSubstitutions Json.nat? maxSubstitutions
    let properties ← Json.orDefault? [] (Json.table? Json.text?) properties
    return ⟨resourceDir, maxSubstitutions, properties⟩
  | _ => none

def parseSection? (t : Text) : Option Settings :=
  match Json.parseAs shape t with
  | .ok v => ofSection? v
  | .error _ => none

end Settings

end Fixtures
