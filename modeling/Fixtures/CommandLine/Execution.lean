import Fixtures.CommandLine.Reader
import Fixtures.Edit.Sequence
import Fixtures.Failure
import Fixtures.Payload.Reader
import Fixtures.Placeholder.Properties
import Fixtures.Placeholder.Resolution
import Fixtures.Settings.Loading

/-! # Running command lines

A command line is run on files and an environment, and gives what is written
and the exit code.
-/

namespace Fixtures.CommandLine

/-- What a program finds when it starts. -/
structure Surroundings where
  files : FileReader
  environment : List Text
  interfaces : Text → Option (List Address)

structure Exit where
  code : Nat
  output : Text
  errorOutput : Text
  deriving DecidableEq, Repr

def settingsVariable : Text := "FIXTURE_PARAMS_CONFIG".toList

def versionText : Text := "fixture 0.2.0".toList

def usageText : Text := "Usage: fixture [--config FILE] resolve|mutate ...".toList

def Command.directory (settings : Settings) : Command → Text
  | .edit _ _ _ (some directory) => directory
  | _ => settings.resourceDir

def Command.file? (settings : Settings) (c : Command) : Option Text :=
  match c with
  | .edit name _ _ _ => some (Files.join (c.directory settings) name)
  | .resolve _ _ _ => none

def Command.run (w : Surroundings) (settings : Settings) (c : Command) : Except Failure Text :=
  match c with
  | .resolve text stored properties =>
    let properties : Properties :=
      ⟨Table.merge settings.properties properties, w.environment⟩
    let registry := Table.ofList stored
    let sources : Sources := ⟨properties.get?, fun k => Table.get? k registry, w.interfaces⟩
    (sources.resolve settings.maxSubstitutions text).result.mapError .resolution
  | .edit name kind rows _ =>
    match PayloadKind.ofName kind with
    | .error e => .error (.load e)
    | .ok kind =>
      let r : Resources := ⟨w.files, c.directory settings⟩
      match r.payload name kind with
      | .error e => .error (.load e)
      | .ok p =>
        -- the argument of a row may hold commas
        match Edit.applyRows (rows.map (Text.pieces [','] 2)) p with
        | .error f => .error (.sequence f)
        | .ok q => .ok q.render

def Invocation.settingsIn (files : FileReader) (i : Invocation) : Except SettingsError Settings :=
  match i.settings with
  | some path => Settings.loadFile files path
  | none => .ok .initial

def Invocation.run (w : Surroundings) (i : Invocation) : Except Failure Text :=
  match i.settingsIn w.files with
  | .error e => .error (.settings e)
  | .ok settings => i.command.run w settings

def line (t : Text) : Text := t ++ ['\n']

def run (w : Surroundings) (words : List Text) : Exit :=
  match read (Properties.environmentValue? w.environment settingsVariable) words with
  | .error .misuse => ⟨2, [], line usageText⟩
  | .error .help => ⟨0, line usageText, []⟩
  | .error .version => ⟨0, line versionText, []⟩
  | .ok i =>
    match i.run w with
    | .ok t => ⟨0, line t, []⟩
    | .error f => ⟨1, [], line ("error: ".toList ++ f.message.toList)⟩

end Fixtures.CommandLine
