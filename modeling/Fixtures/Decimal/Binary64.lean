/-! # Finite binary64 numbers

A number is a sign, a mantissa below 2 ^ 53 and a power of two. `ofRatio`
rounds any ratio to the nearest such number, and products and quotients are
rounded ratios.
-/

namespace Fixtures

/-- The number `± mantissa · 2 ^ exponent`. The mantissa is at least 2 ^ 52
unless the exponent is -1074, the least one. -/
structure Binary64 where
  negative : Bool
  mantissa : Nat
  exponent : Int
  deriving DecidableEq, Repr, Inhabited

namespace Binary64

def leastExponent : Int := -1074

def greatestExponent : Int := 971

/-- The nearest integer to `num / den`; of two nearest ones, the even one. -/
def roundDiv (num den : Nat) : Nat :=
  let q := num / den
  let r := num % den
  if 2 * r < den then q
  else if den < 2 * r then q + 1
  else if q % 2 = 0 then q else q + 1

/-- The quotient of `num / den` by a power of two, as a ratio. -/
def downBy (e : Int) (num den : Nat) : Nat × Nat :=
  match e with
  | .ofNat k => (num, den * Nat.pow 2 k)
  | .negSucc k => (num * Nat.pow 2 (k + 1), den)

def zero (negative : Bool) : Binary64 := ⟨negative, 0, leastExponent⟩

def isZero (x : Binary64) : Bool := x.mantissa == 0

/-- The number nearest to `± num / den`, or nothing if it would be too large. -/
def ofRatio (negative : Bool) (num den : Nat) : Option Binary64 :=
  if num = 0 || den = 0 then some (zero negative)
  else
    let guess : Int := Int.ofNat num.log2 - Int.ofNat den.log2 - 52
    let fits (e : Int) : Bool := let r := downBy e num den; Nat.pow 2 52 * r.2 ≤ r.1
    let e := max (if fits guess then guess else guess - 1) leastExponent
    let r := downBy e num den
    let m := roundDiv r.1 r.2
    let x : Binary64 := if m = Nat.pow 2 53 then ⟨negative, Nat.pow 2 52, e + 1⟩ else ⟨negative, m, e⟩
    if x.exponent ≤ greatestExponent then some x else none

def ofNat (n : Nat) : Option Binary64 := ofRatio false n 1

def ratio (x : Binary64) : Nat × Nat := downBy (-x.exponent) x.mantissa 1

def neg (x : Binary64) : Binary64 := { x with negative := !x.negative }

def mul (x y : Binary64) : Option Binary64 :=
  ofRatio (x.negative != y.negative) (x.ratio.1 * y.ratio.1) (x.ratio.2 * y.ratio.2)

def div (x y : Binary64) : Option Binary64 :=
  ofRatio (x.negative != y.negative) (x.ratio.1 * y.ratio.2) (x.ratio.2 * y.ratio.1)

/-- The number nearest to `± digits · 10 ^ e`. Powers far outside the range are
not computed. -/
def ofDecimal (negative : Bool) (digits : Nat) (e : Int) : Option Binary64 :=
  let size : Int := Int.ofNat (Nat.log2 digits / 3) + e
  if digits = 0 then some (zero negative)
  else if 400 < e then none
  else if size < -400 then some (zero negative)
  else
    match e with
    | .ofNat k => ofRatio negative (digits * Nat.pow 10 k) 1
    | .negSucc k => ofRatio negative digits (Nat.pow 10 (k + 1))

/-- Equality of numbers, which does not tell the two zeros apart. -/
def same (x y : Binary64) : Bool := x == y || (x.isZero && y.isZero)

end Binary64

end Fixtures
