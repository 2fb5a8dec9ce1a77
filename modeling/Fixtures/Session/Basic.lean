import Fixtures.Note
import Fixtures.Placeholder.Properties
import Fixtures.Shared

/-! # Sessions

A session is what lasts while fixtures are prepared: registries and failure
logs under names, the sources of placeholders, the present settings, and the
files that resources are read from.
-/

namespace Fixtures

/-- The addresses of each network interface; the first entry with a name counts. -/
abbrev Interfaces := List (Text × List Address)

structure Session where
  properties : Properties
  interfaces : Interfaces
  limit : Nat
  registries : Shared Registry
  logs : Shared FailureLog
  settings : Settings
  files : FileReader

inductive Outcome
  | nothing
  | text (t : Text)
  | value (t : Option Text)
  | flag (b : Bool)
  | size (n : Nat)
  | step (s : Step)
  /-- a step that was dispatched, unless its rewriting has failed -/
  | collected (s : Option Step)
  /-- what a dispatched step came to -/
  | dispatched (o : Outcome)
  | settings (s : Settings)
  | message (m : Option String)
  | failures (fs : List Failure)
  | failed (f : Failure)

namespace Outcome

def failure? : Outcome → Option Failure
  | .failed f => some f
  | .dispatched o => o.failure?
  | _ => none

def ofExcept {α ε : Type} (ok : α → Outcome) (error : ε → Failure) : Except ε α → Outcome
  | .ok a => ok a
  | .error e => .failed (error e)

end Outcome

namespace Session

def registry (s : Session) (handle : Text) : Registry := (s.registries.get? handle).getD []

def log (s : Session) (handle : Text) : FailureLog := (s.logs.get? handle).getD []

def sources (s : Session) (handle : Text) : Sources :=
  ⟨s.properties.get?, fun k => Table.get? k (s.registry handle), fun i => s.interfaces.lookup i⟩

def resolver (s : Session) (handle : Text) : Resolver := (s.sources handle).resolve s.limit

/-- Resolution as the present settings say: with their properties over the
environment and the global registry. -/
def settledResolver (s : Session) : Resolver :=
  let properties : Properties := ⟨s.settings.properties, s.properties.environment⟩
  let registry := (s.registries.global?).getD []
  Sources.resolve ⟨properties.get?, fun k => Table.get? k registry, fun i => s.interfaces.lookup i⟩
    s.settings.maxSubstitutions

def resources (s : Session) : Resources := ⟨s.files, s.settings.resourceDir⟩

end Session

end Fixtures
