import Fixtures.Decimal.Natural

/-! # Network addresses

A version 4 address is four numbers below 256, written in decimal between
dots. An address of any other form is kept as it is written.
-/

namespace Fixtures

inductive Address
  | v4 (a b c d : Fin 256)
  | other (text : Text)
  deriving DecidableEq, Repr

namespace Address

/-- A number below 256: one to three digits, without a leading zero. -/
def octet? (t : Text) : Option (Fin 256) :=
  if t.head? = some '0' ∧ t.length ≠ 1 then none
  else (Decimal.nat? t).bind fun n => if h : n < 256 then some ⟨n, h⟩ else none

def ofText (t : Text) : Address :=
  match (Text.pieces ['.'] t.length t).map octet? with
  | [some a, some b, some c, some d] => .v4 a b c d
  | _ => .other t

def text : Address → Text
  | .v4 a b c d =>
    Decimal.digits a ++ '.' :: Decimal.digits b ++ '.' :: Decimal.digits c ++ '.' ::
      Decimal.digits d
  | .other t => t

def text4? : Address → Option Text
  | .v4 a b c d => some (text (.v4 a b c d))
  | .other _ => none

end Address

end Fixtures
