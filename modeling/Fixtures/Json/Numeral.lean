import Fixtures.Decimal.Natural
import Fixtures.Json.SyntaxError
import Fixtures.Json.Value

/-! # Numerals

A numeral is read one character at a time. Its digits make up a 64-bit
significand; digits that would overflow it are dropped, and count only for the
power of ten. A numeral with a point, an exponent or dropped digits is the
significand as a real number, multiplied or divided by that power of ten.
-/

namespace Fixtures.Json

/-- How far a numeral has been read. -/
inductive Numeral
  /-- after a minus sign -/
  | sign
  /-- after a leading zero -/
  | zero (negative : Bool)
  | whole (negative : Bool) (significand : Nat)
  /-- in the whole part, after dropped digits -/
  | long (negative : Bool) (significand : Nat) (exponent : Int)
  /-- after the point -/
  | point (negative : Bool) (significand : Nat) (exponent : Int)
  | fraction (negative : Bool) (significand : Nat) (exponent : Int)
  /-- in the fraction, after dropped digits -/
  | fine (negative : Bool) (significand : Nat) (exponent : Int)
  /-- after the exponent mark -/
  | mark (negative : Bool) (significand : Nat) (exponent : Int)
  /-- after the sign of the exponent -/
  | power (negative : Bool) (significand : Nat) (exponent : Int) (up : Bool)
  | powerDigits (negative : Bool) (significand : Nat) (exponent : Int) (up : Bool) (digits : Nat)
  /-- in an exponent so low that the number is zero -/
  | vanishing (negative : Bool)
  deriving DecidableEq, Repr

namespace Numeral

def digit? (c : Char) : Option Nat :=
  if c.isDigit then some (Decimal.digitValue c) else none

def isMark (c : Char) : Bool := c == 'e' || c == 'E'

def greatestSignificand : Nat := Nat.pow 2 64 - 1

def greatestPower : Nat := Nat.pow 2 31 - 1

def start? (c : Char) : Option Numeral :=
  if c = '-' then some sign
  else if c = '0' then some (zero false)
  else (digit? c).map (whole false)

/-- The numeral after one more character, or nothing if it ends before it. -/
def step (n : Numeral) (c : Char) : Except Fault (Option Numeral) :=
  match n with
  | sign =>
    if c = '0' then .ok (some (zero true))
    else
      match digit? c with
      | some d => .ok (some (whole true d))
      | none => .error (.on .invalidNumber)
  | zero neg =>
    if c.isDigit then .error (.on .invalidNumber)
    else if c = '.' then .ok (some (point neg 0 0))
    else if isMark c then .ok (some (mark neg 0 0))
    else .ok none
  | whole neg s =>
    match digit? c with
    | some d =>
      if 10 * s + d ≤ greatestSignificand then .ok (some (whole neg (10 * s + d)))
      else .ok (some (long neg s 1))
    | none =>
      if c = '.' then .ok (some (point neg s 0))
      else if isMark c then .ok (some (mark neg s 0))
      else .ok none
  | long neg s e =>
    if c.isDigit then .ok (some (long neg s (e + 1)))
    else if c = '.' then .ok (some (point neg s e))
    else if isMark c then .ok (some (mark neg s e))
    else .ok none
  | point neg s e =>
    match digit? c with
    | some d =>
      if 10 * s + d ≤ greatestSignificand then .ok (some (fraction neg (10 * s + d) (e - 1)))
      else .ok (some (fine neg s e))
    | none => .error (.on .invalidNumber)
  | fraction neg s e =>
    match digit? c with
    | some d =>
      if 10 * s + d ≤ greatestSignificand then .ok (some (fraction neg (10 * s + d) (e - 1)))
      else .ok (some (fine neg s e))
    | none => if isMark c then .ok (some (mark neg s e)) else .ok none
  | fine neg s e =>
    if c.isDigit then .ok (some (fine neg s e))
    else if isMark c then .ok (some (mark neg s e))
    else .ok none
  | mark neg s e =>
    if c = '+' then .ok (some (power neg s e true))
    else if c = '-' then .ok (some (power neg s e false))
    else
      match digit? c with
      | some d => .ok (some (powerDigits neg s e true d))
      | none => .error (.on .invalidNumber)
  | power neg s e up =>
    match digit? c with
    | some d => .ok (some (powerDigits neg s e up d))
    | none => .error (.on .invalidNumber)
  | powerDigits neg s e up p =>
    match digit? c with
    | some d =>
      if 10 * p + d ≤ greatestPower then .ok (some (powerDigits neg s e up (10 * p + d)))
      else if s ≠ 0 && up then .error (.on .numberOutOfRange)
      else .ok (some (vanishing neg))
    | none => .ok none
  | vanishing neg => if c.isDigit then .ok (some (vanishing neg)) else .ok none

/-- The number `x · 10 ^ e`, by one rounded operation for each 308 places. -/
def scale (x : Binary64) (e : Int) : (steps : Nat) → Option Binary64
  | 0 => some x
  | steps + 1 =>
    if x.isZero then some x
    else
      match e with
      | .ofNat k =>
        if k ≤ 308 then (Binary64.ofNat (Nat.pow 10 k)).bind x.mul else none
      | .negSucc k =>
        if k + 1 ≤ 308 then (Binary64.ofNat (Nat.pow 10 (k + 1))).bind x.div
        else ((Binary64.ofNat (Nat.pow 10 308)).bind x.div).bind fun y => scale y (e + 308) steps

def real? (neg : Bool) (s : Nat) (e : Int) : Except Cause Number :=
  -- a significand has at most 20 digits, so a third division leaves zero
  match (Binary64.ofNat s).bind fun x => scale x e 4 with
  | some x => .ok (.real { x with negative := neg })
  | none => .error .numberOutOfRange

/-- An integer that does not fit into 64 bits, and minus zero, are real numbers. -/
def integer (neg : Bool) (s : Nat) : Except Cause Number :=
  if !neg then .ok (.int s)
  else if s = 0 || Nat.pow 2 63 < s then real? true s 0
  else .ok (.int (-s))

def value : Numeral → Except Cause Number
  | sign => .error .endInValue
  | zero neg => integer neg 0
  | whole neg s => integer neg s
  | long neg s e => real? neg s e
  | point _ _ _ => .error .endInValue
  | fraction neg s e => real? neg s e
  | fine neg s e => real? neg s e
  | mark _ _ _ => .error .endInValue
  | power _ _ _ _ => .error .endInValue
  | powerDigits neg s e up p => real? neg s (if up then e + p else e - p)
  | vanishing neg => .ok (.real (.zero neg))

end Numeral

end Fixtures.Json
