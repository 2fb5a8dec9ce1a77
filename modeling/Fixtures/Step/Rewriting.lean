import Fixtures.Placeholder.Resolution
import Fixtures.Step.Basic

/-! # Rewriting steps

Before a step is dispatched, its text and the cells of its table are resolved,
in this order and row by row. All else stays as it is.
-/

namespace Fixtures

abbrev Resolver := Text → Run Text

def Row.rewrite (resolve : Resolver) (r : Row) : Run Row :=
  (Run.each resolve r.cells).map fun cells => { r with cells := cells }

namespace Step

def rewriteRows (resolve : Resolver) : Option (List Row) → Run (Option (List Row))
  | some rows => (Run.each (Row.rewrite resolve) rows).map some
  | none => .ok none

def rewrite (resolve : Resolver) (s : Step) : Run Step :=
  (resolve s.text).andThen fun text =>
    (rewriteRows resolve s.rows).map fun rows => { s with text := text, rows := rows }

def rewriteAll (resolve : Resolver) (steps : List Step) : Run (List Step) :=
  Run.each (rewrite resolve) steps

end Step

/-- An argument that is left out stays so. -/
def Argument.rewrite (resolve : Resolver) (a : Argument) : Run Argument :=
  match a.value with
  | some t => (resolve t).map fun t => { a with value := some t }
  | none => .ok a

def Argument.rewriteAll (resolve : Resolver) (arguments : List Argument) : Run (List Argument) :=
  Run.each (Argument.rewrite resolve) arguments

end Fixtures
