import Fixtures.Edit.Sequence
import Fixtures.Placeholder.Error
import Fixtures.Registry
import Fixtures.Settings.Basic

/-! # Failures

Whatever may fail during a run, as one type. A log keeps failures in the order
in which they were recorded.
-/

namespace Fixtures

inductive Failure
  | resolution (error : ResolutionError)
  /-- a sequence of edits that has stopped -/
  | sequence (failure : EditFailure)
  | edit (error : EditError)
  | load (error : LoadError)
  | capture (error : CaptureError)
  | settings (error : SettingsError)
  deriving Repr

def Failure.message : Failure → String
  | .resolution e => e.message
  | .sequence f => f.message
  | .edit e => e.message
  | .load e => e.message
  | .capture e => e.message
  | .settings e => e.message

abbrev FailureLog := List Failure

def FailureLog.record (f : Failure) (log : FailureLog) : FailureLog := log ++ [f]

def FailureLog.last? (log : FailureLog) : Option String := log.getLast?.map Failure.message

end Fixtures
