import Fixtures.Session.Basic

/-! # Actions

What may be done in a session. `Session.perform` gives the session afterwards,
what was noted, and what the action came to.
-/

namespace Fixtures

inductive Action
  | newRegistry (handle : Text)
  | shareRegistry (source handle : Text)
  | shareGlobalRegistry (handle : Text)
  | newLog (handle : Text)
  | shareLog (source handle : Text)
  | shareGlobalLog (handle : Text)
  | setProperty (name value : Text)
  | setLimit (n : Nat)
  | set (registry key value : Text)
  | get (registry key : Text)
  | remove (registry key : Text)
  | contains (registry key : Text)
  | size (registry : Text)
  | clear (registry : Text)
  | capture (registry json path key : Text)
  | resolve (registry text : Text)
  | rewrite (registry : Text) (step : Step)
  /-- Rewrites a step and dispatches it; it may be dispatched to a capture, which
  takes its text for a JSON text. -/
  | intercept (registry : Text) (step : Step) (capture : Option (Text × Text))
  /-- Rewrites a step and dispatches it, or records why it cannot be rewritten. -/
  | collect (registry log : Text) (step : Step)
  /-- Edits a text; the cells of the edits may be resolved first. -/
  | edit (registry : Text) (resolved : Bool) (kind text : Text) (rows : List (List Text))
  | readEdit (cells : List Text)
  | change (c : Settings.Change)
  | merge (base other : Settings)
  | readSettings
  | resourceDirectory
  | resolveBySettings (text : Text)
  | loadPayload (name kind : Text)
  | logSize (log : Text)
  | lastFailure (log : Text)
  | clearLog (log : Text)
  | drainLog (log : Text)

structure Performed where
  session : Session
  notes : List Note
  outcome : Outcome

/-- What handing a step to something else gives. -/
structure Handed (α : Type) where
  session : Session
  notes : List Note
  value : α

namespace Session

/-- An action that changes nothing and notes nothing. -/
def answer (s : Session) (o : Outcome) : Performed := ⟨s, [], o⟩

def changeRegistries (s : Session) (f : Shared Registry → Shared Registry) (o : Outcome) :
    Performed :=
  ⟨{ s with registries := f s.registries }, [], o⟩

def changeLogs (s : Session) (f : Shared FailureLog → Shared FailureLog) (o : Outcome) : Performed :=
  ⟨{ s with logs := f s.logs }, [], o⟩

def record (s : Session) (handle : Text) (f : Failure) : Performed :=
  ⟨{ s with logs := s.logs.modify handle (FailureLog.record f) }, [.recorded f], .nothing⟩

def resolved {α : Type} (s : Session) (ok : α → Outcome) (r : Run α) : Performed :=
  ⟨s, r.notes, .ofExcept ok .resolution r.result⟩

def capture (s : Session) (handle json path key : Text) : Performed :=
  match (s.registry handle).capture json path key with
  | .ok (value, registry) =>
    ⟨{ s with registries := s.registries.modify handle fun _ => registry },
      Registry.captureNotes json path key, .text value⟩
  | .error e => s.answer (.failed (.capture e))

def rewrite (s : Session) (handle : Text) (step : Step) : Performed :=
  let resolver := s.resolver handle
  ⟨s, step.notes resolver, .ofExcept .step .resolution (step.rewrite resolver).result⟩

def intercept (s : Session) (handle : Text) (step : Step) (target : Option (Text × Text)) :
    Performed :=
  let r := s.rewrite handle step
  match r.outcome, target with
  | .step t, none => { r with outcome := .dispatched (.step t) }
  | .step t, some (path, key) =>
    let c := s.capture handle t.text path key
    ⟨c.session, r.notes ++ c.notes, .dispatched c.outcome⟩
  | _, _ => r

/-- Rewrites a step and hands it to `dispatch`, or records why it cannot be rewritten. -/
def collectWith {α : Type} (dispatch : Session → Step → Handed α) (s : Session)
    (handle log : Text) (step : Step) : Handed (Option α) :=
  let resolver := s.resolver handle
  match (step.rewrite resolver).result with
  | .ok t =>
    let handed := dispatch s t
    ⟨handed.session, step.notes resolver ++ handed.notes, some handed.value⟩
  | .error e =>
    let recorded := s.record log (.resolution e)
    ⟨recorded.session, step.notes resolver ++ recorded.notes, none⟩

def collect (s : Session) (handle log : Text) (step : Step) : Performed :=
  let r := collectWith (fun s t => ⟨s, [], t⟩) s handle log step
  ⟨r.session, r.notes, .collected r.value⟩

def editText (kind text : Text) (rows : List (List Text)) : Except Failure Payload × List Note :=
  match PayloadKind.ofName kind with
  | .error e => (.error (.load e), [])
  | .ok k =>
    match Payload.parse k text with
    | .error e => (.error (.load e), Payload.parseNotes k text)
    | .ok p =>
      ((Edit.applyRows rows p).mapError .sequence,
        Payload.parseNotes k text ++ Edit.rowNotes rows p)

def edit (s : Session) (handle : Text) (resolved : Bool) (kind text : Text)
    (rows : List (List Text)) : Performed :=
  let r := if resolved then Run.each (Run.each (s.resolver handle)) rows else .ok rows
  match r.result with
  | .error e => ⟨s, r.notes, .failed (.resolution e)⟩
  | .ok rows =>
    let (result, notes) := editText kind text rows
    ⟨s, r.notes ++ notes, .ofExcept (fun p => .text p.render) id result⟩

def changeSettings (s : Session) (c : Settings.Change) : Performed :=
  let outcome : Outcome :=
    match c with
    | .update _ => .nothing
    | .reset => .nothing
    | _ => .ofExcept .settings .settings (c.result s.settings)
  ⟨{ s with settings := s.settings.change c }, c.notes s.settings, outcome⟩

def loadPayload (s : Session) (name kind : Text) : Outcome :=
  match PayloadKind.ofName kind with
  | .error e => .failed (.load e)
  | .ok k => .ofExcept (fun p => .text p.render) .load (s.resources.payload name k)

def perform (s : Session) : Action → Performed
  | .newRegistry h => s.changeRegistries (Shared.create h []) .nothing
  | .shareRegistry source h => s.changeRegistries (Shared.share source h) .nothing
  | .shareGlobalRegistry h => s.changeRegistries (Shared.shareGlobal h) .nothing
  | .newLog h => s.changeLogs (Shared.create h []) .nothing
  | .shareLog source h => s.changeLogs (Shared.share source h) .nothing
  | .shareGlobalLog h => s.changeLogs (Shared.shareGlobal h) .nothing
  | .setProperty name value =>
    { s with properties := s.properties.set name value : Session }.answer .nothing
  | .setLimit n => { s with limit := n : Session }.answer .nothing
  | .set r key value =>
    s.changeRegistries (Shared.modify r (Table.insert key value))
      (.value (Table.get? key (s.registry r)))
  | .get r key => s.answer (.value (Table.get? key (s.registry r)))
  | .remove r key =>
    s.changeRegistries (Shared.modify r (Table.erase key)) (.value (Table.get? key (s.registry r)))
  | .contains r key => s.answer (.flag (Table.contains key (s.registry r)))
  | .size r => s.answer (.size (s.registry r).length)
  | .clear r => s.changeRegistries (Shared.modify r fun _ => []) .nothing
  | .capture r json path key => s.capture r json path key
  | .resolve r text => s.resolved .text (s.resolver r text)
  | .rewrite r step => s.rewrite r step
  | .intercept r step target => s.intercept r step target
  | .collect r log step => s.collect r log step
  | .edit r resolved kind text rows => s.edit r resolved kind text rows
  | .readEdit cells =>
    s.answer (.ofExcept (fun e => .text e.text.toList) .edit (Edit.ofRow cells))
  | .change c => s.changeSettings c
  | .merge base other => s.answer (.settings (base.merge other))
  | .readSettings => s.answer .nothing
  | .resourceDirectory => s.answer (.text s.settings.resourceDir)
  | .resolveBySettings text => s.resolved .text (s.settledResolver text)
  | .loadPayload name kind => s.answer (s.loadPayload name kind)
  | .logSize h => s.answer (.size (s.log h).length)
  | .lastFailure h => s.answer (.message (s.log h).last?)
  | .clearLog h => s.changeLogs (Shared.modify h fun _ => []) .nothing
  | .drainLog h => s.changeLogs (Shared.modify h fun _ => []) (.failures (s.log h))

/-- Performs an action, and records in a log what it fails with. -/
def performRecording (s : Session) (log : Text) (a : Action) : Performed :=
  let p := s.perform a
  match p.outcome.failure? with
  | some f =>
    let r := p.session.record log f
    ⟨r.session, p.notes ++ r.notes, p.outcome⟩
  | none => p

end Session

end Fixtures
