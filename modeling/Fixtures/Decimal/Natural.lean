import Fixtures.Text.Basic

/-! # Natural numbers in decimal
-/

namespace Fixtures.Decimal

def digits (n : Nat) : Text := Nat.toDigits 10 n

def digitValue (c : Char) : Nat := c.toNat - '0'.toNat

/-- The number that a text of decimal digits stands for; leading zeros are
allowed. -/
def nat? (t : Text) : Option Nat :=
  if t.isEmpty || !t.all Char.isDigit then none
  else some (t.foldl (fun n c => 10 * n + digitValue c) 0)

/-- A number of 64 bits, perhaps after a plus sign. -/
def unsigned64? (t : Text) : Option Nat :=
  let body := match t with
    | '+' :: rest => rest
    | _ => t
  (nat? body).filter (· < Nat.pow 2 64)

end Fixtures.Decimal
