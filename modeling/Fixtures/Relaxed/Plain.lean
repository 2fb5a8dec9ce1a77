import Fixtures.Relaxed.Gap

/-! # Plain scalars

A scalar without quotes goes on over lines, as long as they are indented
further than their surroundings, up to a colon before white space, a comment
after white space, or, between brackets, a flow indicator.
-/

namespace Fixtures.Relaxed

structure Plain where
  /-- the text so far, backwards -/
  text : Text
  gap : Gap
  column : Nat

structure PlainScalar where
  text : Text
  rest : Text
  /-- whether it ended on a new line -/
  broken : Bool

namespace Plain

def isFlowIndicator (c : Char) : Bool :=
  c == ',' || c == '[' || c == ']' || c == '{' || c == '}'

/-- Whether white space has been read since the last piece. -/
def afterGap (p : Plain) : Bool := p.gap.broken || !p.gap.blanks.isEmpty

/-- Whether the white space before a character ends the scalar: the line is not
indented enough, or starts a comment or a document marker. -/
def leaves (p : Plain) (flow : Bool) (indent : Int) (c : Char) (cs : Text) : Bool :=
  (p.gap.broken && !flow && Int.ofNat p.column < indent) || (p.afterGap && c == '#') ||
    (p.gap.broken && p.column == 0 && isDocumentMarker (c :: cs))

def ends (flow : Bool) (c : Char) (cs : Text) : Bool :=
  (c == ':' && endsWord cs) || (flow && isFlowIndicator c)

/-- A colon joined to a flow indicator is refused between brackets. -/
def isMisplacedColon (flow : Bool) (c : Char) (cs : Text) : Bool :=
  flow && c == ':' && (cs.head?.any fun d => isFlowIndicator d || d == '?')

def finish (p : Plain) (rest : Text) : PlainScalar := ⟨p.text.reverse, rest, p.gap.broken⟩

def read (flow : Bool) (indent : Int) : Plain → Text → Option PlainScalar
  | p, [] => some (p.finish [])
  | p, c :: cs =>
    if isBreak c then read flow indent ⟨p.text, p.gap.lineEnd c, 0⟩ cs
    else if isBlank c then
      if p.gap.broken && Int.ofNat p.column < indent && c == '\t' then none
      else read flow indent ⟨p.text, p.gap.blank c, p.column + 1⟩ cs
    else if p.leaves flow indent c cs then some (p.finish (c :: cs))
    else if isMisplacedColon flow c cs then none
    else if ends flow c cs then some (p.finish (c :: cs))
    else read flow indent ⟨c :: (p.gap.folded ++ p.text), .none, p.column + 1⟩ cs

end Plain

/-- A plain scalar that starts at a column; its further lines are indented by at
least `indent`. -/
def plain? (flow : Bool) (indent : Int) (column : Nat) (t : Text) : Option PlainScalar :=
  Plain.read flow indent ⟨[], .none, column⟩ t

end Fixtures.Relaxed
