import Fixtures.Proofs.Registry.Capture
import Fixtures.Proofs.Shared

/-!
# Runs of actions

What every action keeps, a run of actions keeps. The actions with several exits come
down to few: a step that is dispatched may end in a capture, and one that is collected
in a record. So each action is one change of the registries and one of the logs
(`registries_perform`, `logs_perform`).
-/

namespace Fixtures

namespace Session

variable {s : Session} {handle log : Text} {step : Step}

def run (s : Session) (as : List Action) : Session := as.foldl (fun s a => (s.perform a).session) s

theorem run_nil (s : Session) : s.run [] = s := rfl

theorem run_cons (s : Session) (a : Action) (as : List Action) :
    s.run (a :: as) = (s.perform a).session.run as := rfl

theorem run_invariant {P : Session → Prop} (hstep : ∀ s a, P s → P (s.perform a).session)
    (hs : P s) (as : List Action) : P (s.run as) := by
  induction as generalizing s with
  | nil => exact hs
  | cons a as ih =>
    rw [run_cons]
    exact ih (hstep s a hs)

/-! ## Sessions after single actions -/

theorem session_intercept (s : Session) (handle : Text) (step : Step)
    (target : Option (Text × Text)) :
    (s.intercept handle step target).session =
      match (step.rewrite (s.resolver handle)).result, target with
      | .ok t, some (path, key) => (s.capture handle t.text path key).session
      | _, _ => s := by
  cases hr : (step.rewrite (s.resolver handle)).result with
  | error e =>
    have houtcome : (s.rewrite handle step).outcome = .failed (.resolution e) := by
      rw [rewrite, hr, Outcome.ofExcept]
    simp only [intercept, houtcome]
    rfl
  | ok t =>
    have houtcome : (s.rewrite handle step).outcome = .step t := by
      rw [rewrite, hr, Outcome.ofExcept]
    cases target with
    | none =>
      simp only [intercept, houtcome]
      rfl
    | some target => simp only [intercept, houtcome]

theorem session_collectWith {α : Type} (dispatch : Session → Step → Handed α) (s : Session)
    (handle log : Text) (step : Step) :
    (s.collectWith dispatch handle log step).session =
      match (step.rewrite (s.resolver handle)).result with
      | .ok t => (dispatch s t).session
      | .error e => (s.record log (.resolution e)).session := by
  rw [collectWith]
  cases (step.rewrite (s.resolver handle)).result with
  | error e => rfl
  | ok t => rfl

theorem session_edit (s : Session) (handle : Text) (resolved : Bool) (kind text : Text)
    (rows : List (List Text)) : (s.edit handle resolved kind text rows).session = s := by
  rw [edit]
  split <;> rfl

theorem logs_capture (s : Session) (handle json path key : Text) :
    (s.capture handle json path key).session.logs = s.logs := by
  rw [capture]
  split <;> rfl

/-! ## What an action changes -/

def captureChange (handle json path key : Text) : Shared.Change Registry :=
  match Captured.ofText json path with
  | .ok c => .modify handle (Table.insert key c.value)
  | .error _ => .stay

theorem registries_capture (s : Session) (handle json path key : Text) :
    (s.capture handle json path key).session.registries =
      (captureChange handle json path key).apply s.registries := by
  rw [captureChange]
  cases hc : Captured.ofText json path with
  | error e =>
    rw [capture_of_error hc]
    rfl
  | ok c =>
    rw [capture_of_ok hc]
    exact Shared.modify_getD handle (Table.insert key c.value) [] s.registries

end Session

open Session (captureChange)

/-- What an action does to the registries. -/
def Action.onRegistries (s : Session) : Action → Shared.Change Registry
  | .newRegistry handle => .create handle []
  | .shareRegistry source handle => .share source handle
  | .shareGlobalRegistry handle => .shareGlobal handle
  | .set registry key value => .modify registry (Table.insert key value)
  | .remove registry key => .modify registry (Table.erase key)
  | .clear registry => .modify registry fun _ => []
  | .capture registry json path key => captureChange registry json path key
  | .intercept registry step (some (path, key)) =>
    match (step.rewrite (s.resolver registry)).result with
    | .ok t => captureChange registry t.text path key
    | .error _ => .stay
  | _ => .stay

def Action.onLogs (s : Session) : Action → Shared.Change FailureLog
  | .newLog handle => .create handle []
  | .shareLog source handle => .share source handle
  | .shareGlobalLog handle => .shareGlobal handle
  | .collect registry log step =>
    match (step.rewrite (s.resolver registry)).result with
    | .ok _ => .stay
    | .error e => .modify log (FailureLog.record (.resolution e))
  | .clearLog log => .modify log fun _ => []
  | .drainLog log => .modify log fun _ => []
  | _ => .stay

namespace Session

theorem registries_perform (s : Session) (a : Action) :
    (s.perform a).session.registries = (a.onRegistries s).apply s.registries := by
  cases a with
  | capture registry json path key => exact registries_capture s registry json path key
  | intercept registry step target =>
    rw [perform, session_intercept]
    cases target with
    | none =>
      cases (step.rewrite (s.resolver registry)).result with
      | ok t => rfl
      | error e => rfl
    | some target =>
      rw [Action.onRegistries]
      cases (step.rewrite (s.resolver registry)).result with
      | ok t => exact registries_capture s registry t.text target.1 target.2
      | error e => rfl
  | collect registry log step =>
    rw [perform, collect, session_collectWith]
    split <;> rfl
  | edit registry resolved kind text rows =>
    rw [perform, session_edit]
    rfl
  | _ => rfl

theorem logs_perform (s : Session) (a : Action) :
    (s.perform a).session.logs = (a.onLogs s).apply s.logs := by
  cases a with
  | capture registry json path key => exact logs_capture s registry json path key
  | intercept registry step target =>
    rw [perform, session_intercept]
    split
    · exact logs_capture s registry _ _ _
    · rfl
  | collect registry log step =>
    rw [perform, collect, session_collectWith, Action.onLogs]
    cases (step.rewrite (s.resolver registry)).result with
    | ok t => rfl
    | error e => rfl
  | edit registry resolved kind text rows =>
    rw [perform, session_edit]
    rfl
  | _ => rfl

end Session

end Fixtures
