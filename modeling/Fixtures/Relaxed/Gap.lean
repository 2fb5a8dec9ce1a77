import Fixtures.Relaxed.Character

/-! # White space inside a scalar

White space between two pieces of a scalar on one line is kept. If it spans a
line end, the line is folded: one line feed becomes a space, and of several the
first is dropped.
-/

namespace Fixtures.Relaxed

/-- White space that has been read; its texts are backwards. -/
structure Gap where
  /-- the blanks before any line end -/
  blanks : Text
  /-- whether a line has ended -/
  broken : Bool
  /-- the first line end, unless it was escaped -/
  first : Option Char
  /-- the line ends after it -/
  more : Text

namespace Gap

def none : Gap := ⟨[], false, .none, []⟩

/-- An escaped line end, which leaves nothing behind. -/
def escaped : Gap := ⟨[], true, .none, []⟩

def blank (g : Gap) (c : Char) : Gap :=
  if g.broken then g else { g with blanks := c :: g.blanks }

def lineEnd (g : Gap) (c : Char) : Gap :=
  if g.broken then { g with more := c :: g.more } else ⟨[], true, some c, []⟩

/-- What is left of the white space, backwards. -/
def folded (g : Gap) : Text :=
  if !g.broken then g.blanks
  else
    match g.first with
    | some '\n' => if g.more.isEmpty then [' '] else g.more
    | some c => g.more ++ [c]
    | .none => g.more

end Gap

end Fixtures.Relaxed
