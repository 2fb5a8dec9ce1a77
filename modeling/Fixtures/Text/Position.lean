import Fixtures.Text.Basic

/-! # Positions in a text

A position is a number of bytes from the start. `find?` gives the one at which a
pattern first occurs, and a text is changed between two positions or at one.
-/

namespace Fixtures.Text

/-- A text parted at byte `n`, behind characters that have been seen; they are
kept backwards. -/
def splitFrom : (seen : Text) → (n : Nat) → Text → Text × Text
  | seen, _, [] => (seen.reverse, [])
  | seen, n, c :: cs =>
    if c.utf8Size ≤ n then splitFrom (c :: seen) (n - c.utf8Size) cs else (seen.reverse, c :: cs)

/-- The characters of a text that end at byte `n` or before it, and the others. -/
def splitAtByte (n : Nat) (t : Text) : Text × Text := splitFrom [] n t

def find? (p t : Text) : Option Nat := (cut? p t).map fun sides => byteSize sides.1

/-- The text with `r` in the place of what stands from byte `i` up to byte `j`. -/
def replaceRange (i j : Nat) (r t : Text) : Text := (splitAtByte i t).1 ++ r ++ (splitAtByte j t).2

def insertAt (i : Nat) (r t : Text) : Text := replaceRange i i r t

end Fixtures.Text
