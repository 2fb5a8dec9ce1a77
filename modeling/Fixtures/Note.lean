import Fixtures.Failure
import Fixtures.Payload.Reader
import Fixtures.Settings.Loading
import Fixtures.Step.Rewriting

/-! # Notes

What a run reports besides its results: one note for each thing that it does,
in the order in which it does them.
-/

namespace Fixtures

inductive Note
  | resolved (placeholder : Placeholder) (value : Text)
  /-- A named text is read as a relaxed one. -/
  | relaxed (name : Text)
  | applying (edit : Edit) (kind : PayloadKind)
  | nothingToDelete (path : Path)
  | rewrote (line : Nat) (text : Text)
  | saving (path : Path) (value key : Text)
  | recorded (failure : Failure)
  | sectionPassedOver
  | updateReverted (fault : SettingsFault)

namespace Note

def isWarning : Note → Bool
  | .recorded _ => true
  | .sectionPassedOver => true
  | .updateReverted _ => true
  | _ => false

def message : Note → String
  | .resolved p v =>
    "Resolved " ++ String.ofList p.text ++ " to '" ++ String.ofList v ++ "'"
  | .relaxed n => String.ofList n ++ " is not strict JSON ("
  | .applying e k => "Applying " ++ e.text ++ " to " ++ k.name ++ " payload"
  | .nothingToDelete p => "Nothing to delete at " ++ String.ofList p.text
  | .rewrote line t => "Rewrote step at line " ++ toString line ++ ": " ++ String.ofList t
  | .saving p v k =>
    "Saving element " ++ String.ofList p.text ++ " with value " ++ String.ofList v ++
      " under key " ++ String.ofList k
  | .recorded f => "Recorded fixture failure: " ++ f.message
  | .sectionPassedOver =>
    "Failed to parse " ++ String.ofList Settings.sectionName ++ " settings:"
  | .updateReverted f => "Configuration validation failed after update: " ++ f.message

def text (n : Note) : String := (if n.isWarning then "WARN " else "DEBUG ") ++ n.message

end Note

/-! ## What is noted -/

def Lookup.note? (l : Lookup) : Option Note :=
  match l.answer with
  | .ok v => some (.resolved l.placeholder v)
  | .error _ => none

def Run.notes {α : Type} (r : Run α) : List Note := r.lookups.filterMap Lookup.note?

def Run.isOk {α : Type} (r : Run α) : Bool :=
  match r.result with
  | .ok _ => true
  | .error _ => false

/-- A step whose text has changed is noted after its lookups. -/
def Step.notes (resolve : Resolver) (s : Step) : List Note :=
  let r := s.rewrite resolve
  match r.result with
  | .ok t => if t.text = s.text then r.notes else r.notes ++ [.rewrote s.line t.text]
  | .error _ => r.notes

def Step.allNotes (resolve : Resolver) : List Step → List Note
  | [] => []
  | s :: rest =>
    s.notes resolve ++ if (s.rewrite resolve).isOk then allNotes resolve rest else []

/-- An edit is noted before it is tried. -/
def Edit.notes (e : Edit) (p : Payload) : List Note :=
  let missed :=
    match p with
    | .document v => e.missed? v
    | .raw _ => none
  .applying e p.kind :: (missed.map Note.nothingToDelete).toList

def Edit.rowNotes : List (List Text) → Payload → List Note
  | [], _ => []
  | row :: rest, p =>
    match Edit.ofRow row with
    | .error _ => []
    | .ok e =>
      e.notes p ++
        match e.apply p with
        | .ok q => rowNotes rest q
        | .error _ => []

def Payload.parseNotes (kind : PayloadKind) (t : Text) : List Note :=
  match kind with
  | .string => []
  | .json => if Json.isRelaxed t then [.relaxed Payload.inlineName] else []

def Registry.captureNotes (json path key : Text) : List Note :=
  match Captured.ofText json path with
  | .ok c => [.saving c.path c.value key]
  | .error _ => []

def Settings.Change.notes (s : Settings) : Settings.Change → List Note
  | .load document => if Settings.isPassedOver document then [.sectionPassedOver] else []
  | .loadFile read name =>
    match Settings.readDocument read name with
    | .ok document => if Settings.isPassedOver (some document) then [.sectionPassedOver] else []
    | .error _ => []
  | .update f => ((f s).fault?.map Note.updateReverted).toList
  | .reset => []

end Fixtures
