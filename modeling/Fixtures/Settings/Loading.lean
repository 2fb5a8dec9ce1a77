import Fixtures.Json.Reader
import Fixtures.Settings.Basic

/-! # Loading settings

A settings document is an object with a section of its own for these settings.
A section that is malformed is passed over. Loaded settings replace the present
ones only if they are valid; an update that leaves them invalid brings back the
initial ones.
-/

namespace Fixtures.Settings

def sectionName : Text := "fixture-params".toList

def section? : Json → Option Json
  | .obj fields => Table.get? sectionName fields
  | _ => none

/-- Whether a document, if there is one, has a section that is passed over. -/
def isPassedOver (document : Option Json) : Bool :=
  match document.bind section? with
  | some v => (ofSection? v).isNone
  | none => false

/-- The settings that a document asks for, if there is one. -/
def requested (document : Option Json) : Settings :=
  match (document.bind section?).bind ofSection? with
  | some s => initial.merge s
  | none => initial

def load (document : Option Json) : Except SettingsError Settings :=
  match (requested document).fault? with
  | some f => .error (.invalid f)
  | none => .ok (requested document)

def readDocument (read : FileReader) (name : Text) : Except SettingsError Json :=
  match read name with
  | .error e => .error (.unreadable name e)
  | .ok t =>
    match Json.parse t with
    | .error e => .error (.malformed name e)
    | .ok document => .ok document

def loadFile (read : FileReader) (name : Text) : Except SettingsError Settings :=
  match readDocument read name with
  | .error e => .error e
  | .ok document => load (some document)

inductive Change
  | load (document : Option Json)
  | loadFile (read : FileReader) (name : Text)
  | update (f : Settings → Settings)
  | reset

/-- What a change asks for, unless it fails. -/
def Change.result (s : Settings) : Change → Except SettingsError Settings
  | .load document => Settings.load document
  | .loadFile read name => Settings.loadFile read name
  | .update f =>
    match (f s).fault? with
    | some _ => .ok initial
    | none => .ok (f s)
  | .reset => .ok initial

/-- The settings after a change; a change that fails leaves them as they are. -/
def change (s : Settings) (c : Change) : Settings :=
  match c.result s with
  | .ok s => s
  | .error _ => s

end Fixtures.Settings
