import Fixtures.Decimal.Binary64
import Fixtures.Decimal.Natural

/-! # Shortest decimals

The fewest decimal digits that are read back as a given number. For one, two,
… seventeen digits the two neighbours of the number on that decimal grid are
tried; the first grid with a hit wins, and of two hits the nearer one.
-/

namespace Fixtures

structure Decimal where
  coefficient : Nat
  exponent : Int
  deriving DecidableEq, Repr

namespace Decimal

def ratio (d : Decimal) : Nat × Nat :=
  match d.exponent with
  | .ofNat k => (d.coefficient * Nat.pow 10 k, 1)
  | .negSucc k => (d.coefficient, Nat.pow 10 (k + 1))

def width (n : Nat) : Nat := (digits n).length

end Decimal

namespace Binary64

/-- Whether a ratio rounds to a positive number. The neighbours' midpoints
count if the mantissa is even; below a power of two the neighbours are closer. -/
def absorbs (x : Binary64) (num den : Nat) : Bool :=
  let v := x.ratio
  -- all distances are in quarters of the last place, over one denominator
  let ulp := downBy (-x.exponent) 1 1
  let target := 4 * v.1 * ulp.2 * den
  let point := 4 * num * v.2 * ulp.2
  let place := ulp.1 * v.2 * den
  let above := 2 * place
  let below := if x.mantissa = Nat.pow 2 52 && leastExponent < x.exponent then place else 2 * place
  if x.mantissa % 2 = 0 then target ≤ point + below && point ≤ target + above
  else target < point + below && point < target + above

def leading (num den : Nat) : Int :=
  if den ≤ num then Int.ofNat (Decimal.width (num / den)) - 1
  else
    let k := Decimal.width (den / num)
    -- num / den lies between 10 ^ -k and 10 ^ (1 - k)
    if den ≤ num * Nat.pow 10 (k - 1) then 1 - Int.ofNat k else -Int.ofNat k

/-- The nearer hit on the grid of multiples of `10 ^ e`. -/
def onGrid? (x : Binary64) (e : Int) : Option Decimal :=
  let v := x.ratio
  let scaled : Nat × Nat :=
    match e with
    | .ofNat k => (v.1, v.2 * Nat.pow 10 k)
    | .negSucc k => (v.1 * Nat.pow 10 (k + 1), v.2)
  let low := scaled.1 / scaled.2
  let hit (n : Nat) : Bool :=
    let r := Decimal.ratio ⟨n, e⟩
    n != 0 && x.absorbs r.1 r.2
  let r := scaled.1 % scaled.2
  let lowNearer := 2 * r < scaled.2 || (2 * r == scaled.2 && low % 2 == 0)
  match hit low, hit (low + 1) with
  | true, true => some ⟨if lowNearer then low else low + 1, e⟩
  | true, false => some ⟨low, e⟩
  | false, true => some ⟨low + 1, e⟩
  | false, false => none

/-- The shortest decimal of the magnitude of a number. A hit on a power of ten
is written with one digit. -/
def shortest (x : Binary64) : Decimal :=
  if x.isZero then ⟨0, 0⟩
  else
    let v := x.ratio
    let top := leading v.1 v.2
    match (List.range 17).findSome? fun n => x.onGrid? (top - Int.ofNat n) with
    | some d => if d.coefficient % 10 = 0 then ⟨d.coefficient / 10, d.exponent + 1⟩ else d
    | none => ⟨0, 0⟩

end Binary64

end Fixtures
