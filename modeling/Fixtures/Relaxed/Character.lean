import Fixtures.Json.Reader

/-! # Characters of the relaxed notation

A text is prepared before it is read: every character must be printable, and
the line ends become line feeds. Line and paragraph separators end lines too,
but stay what they are.
-/

namespace Fixtures.Relaxed

def isPrintable (c : Char) : Bool :=
  let n := c.toNat
  n == 0x9 || n == 0xA || n == 0xD || (0x20 ≤ n && n ≤ 0x7E) || n == 0x85 ||
    (0xA0 ≤ n && n ≤ 0xD7FF) || (0xE000 ≤ n && n ≤ 0xFFFD) || 0x10000 ≤ n

/-- Carriage returns, alone or before a line feed, and next-line characters
become line feeds. -/
def unifyBreaks : Text → Text
  | [] => []
  | '\r' :: '\n' :: rest => '\n' :: unifyBreaks rest
  | c :: rest => (if c = '\r' ∨ c = '\u0085' then '\n' else c) :: unifyBreaks rest

def prepare (t : Text) : Option Text := if t.all isPrintable then some (unifyBreaks t) else none

def isBreak (c : Char) : Bool := c == '\n' || c == '\u2028' || c == '\u2029'

def isBlank (c : Char) : Bool := c == ' ' || c == '\t'

def endsWord : Text → Bool
  | [] => true
  | c :: _ => isBlank c || isBreak c

def endsLine : Text → Bool
  | [] => true
  | c :: _ => isBreak c

/-- Letters, digits, `_` and `-`, which make up names. -/
def isName (c : Char) : Bool := c.isAlphanum || c == '_' || c == '-'

/-- Whether a line starts with three of `c` and nothing joined to them. -/
def isMarker (c : Char) : Text → Bool
  | a :: b :: d :: rest => a == c && b == c && d == c && endsWord rest
  | _ => false

/-- Whether a line, from its start, begins or ends a document. -/
def isDocumentMarker (line : Text) : Bool := isMarker '-' line || isMarker '.' line

end Fixtures.Relaxed
