import Fixtures.Text.Basic

/-! # Steps

A step is one line of fixture text with what is attached to it: comments, a
table of cells and a block of text.
-/

namespace Fixtures

structure Row where
  comments : List Text
  cells : List Text
  line : Option Nat
  deriving DecidableEq, Repr

structure DocBlock where
  contentType : Option Text
  content : Text
  line : Nat
  deriving DecidableEq, Repr

structure Step where
  keyword : Text
  text : Text
  line : Nat
  comments : List Text
  /-- the table, if there is one -/
  rows : Option (List Row)
  docBlock : Option DocBlock
  deriving DecidableEq, Repr

/-- A piece of a step's text: where it starts, and its text unless it is left out. -/
structure Argument where
  offset : Nat
  value : Option Text
  deriving DecidableEq, Repr

/-- The cells of the table; without a table there are none. -/
def Step.cells (s : Step) : List (List Text) := (s.rows.getD []).map Row.cells

end Fixtures
