import Fixtures.Decimal.Natural
import Fixtures.Json.Printer
import Fixtures.Json.Reader
import Fixtures.Relaxed.Tag

/-! # Scalars

What the text of a scalar stands for: nothing, a truth value, a number or the
text itself. Integers may be written in four bases; a number with leading zeros
is a text.
-/

namespace Fixtures.Relaxed

inductive Scalar
  | null
  | bool (b : Bool)
  | int (n : Int)
  | real (x : Binary64)
  /-- an infinity, or not a number -/
  | nonFinite
  | text (t : Text)
  deriving DecidableEq, Repr

namespace Scalar

def isNull (t : Text) : Bool := ["null", "Null", "NULL", "~"].any (·.toList == t)

def bool? (t : Text) : Option Bool :=
  if ["true", "True", "TRUE"].any (·.toList == t) then some true
  else if ["false", "False", "FALSE"].any (·.toList == t) then some false
  else none

/-! ## Integers -/

def digits? (base : Nat) : (value : Nat) → Text → Option Nat
  | n, [] => some n
  | n, c :: cs =>
    match Json.Reader.hexValue? c with
    | some d => if d < base then digits? base (base * n + d) cs else none
    | none => none

def natural? (base : Nat) (t : Text) : Option Nat := if t.isEmpty then none else digits? base 0 t

def hasLeadingZero (t : Text) : Bool :=
  let body := match t with
    | '-' :: rest => rest
    | '+' :: rest => rest
    | _ => t
  match body with
  | '0' :: rest => !rest.isEmpty && rest.all Char.isDigit
  | _ => false

def magnitude? : Text → Option Nat
  | '0' :: 'x' :: rest => natural? 16 rest
  | '0' :: 'o' :: rest => natural? 8 rest
  | '0' :: 'b' :: rest => natural? 2 rest
  | t => if hasLeadingZero t then none else natural? 10 t

def integer? (t : Text) : Option Int :=
  match t with
  | '+' :: rest => (magnitude? rest).map Int.ofNat
  | '-' :: rest => (magnitude? rest).map fun n => -Int.ofNat n
  | _ => (magnitude? t).map Int.ofNat

/-! ## Real numbers -/

/-- Splits off a sign; true stands for minus. -/
def sign : Text → Bool × Text
  | '-' :: rest => (true, rest)
  | '+' :: rest => (false, rest)
  | t => (false, t)

/-- A signed exponent after its mark, or none at all. -/
def exponent? : Text → Option Int
  | [] => some 0
  | c :: rest =>
    if c = 'e' ∨ c = 'E' then
      let s := sign rest
      (natural? 10 s.2).map fun n => if s.1 then -Int.ofNat n else Int.ofNat n
    else none

/-- A decimal with a sign: digits, perhaps with a point before, among or after
them, and perhaps an exponent. The sign comes with the digits and the power of
ten. -/
def decimal? (t : Text) : Option (Bool × Nat × Int) :=
  let (negative, t) := sign t
  let whole := t.takeWhile Char.isDigit
  let rest := t.dropWhile Char.isDigit
  let fraction := match rest with
    | '.' :: rest => rest.takeWhile Char.isDigit
    | _ => []
  let rest := match rest with
    | '.' :: rest => rest.dropWhile Char.isDigit
    | _ => rest
  match natural? 10 (whole ++ fraction), exponent? rest with
  | some n, some e => some (negative, n, e - Int.ofNat fraction.length)
  | _, _ => none

def real? (t : Text) : Option Scalar :=
  let body := match t with
    | '+' :: rest => rest
    | _ => t
  let doubleSign := t.head? = some '+' && (body.head? = some '+' || body.head? = some '-')
  if doubleSign then none
  else if [".inf", ".Inf", ".INF"].any (·.toList == body) then some .nonFinite
  else if ["-.inf", "-.Inf", "-.INF", ".nan", ".NaN", ".NAN"].any (·.toList == t) then
    some .nonFinite
  else
    match decimal? body with
    | some (negative, n, e) => (Binary64.ofDecimal negative n e).map .real
    | none => none

/-! ## Any scalar -/

/-- Integers of 64 bits are integers, those of 128 bits are refused, and larger
ones in decimal are real numbers. -/
def isRefused (n : Int) : Bool := !Number.inRange n && -Int.pow 2 127 ≤ n && n < Int.pow 2 128

/-- What a plain scalar stands for, or nothing if it is refused. -/
def ofPlain? (t : Text) : Option Scalar :=
  if t.isEmpty || isNull t then some .null
  else
    match bool? t, integer? t with
    | some b, _ => some (.bool b)
    | none, some n =>
      if Number.inRange n then some (.int n)
      else if isRefused n then none
      else some ((real? t).getD (.text t))
    | none, none => some (if hasLeadingZero t then .text t else (real? t).getD (.text t))

/-- What a scalar stands for by the look of it. -/
def untagged? (plain : Bool) (t : Text) : Option Scalar :=
  if plain then ofPlain? t else some (.text t)

/-- What a scalar of a core type stands for; its text must be of that type. -/
def ofCore? (type : CoreType) (t : Text) : Option Scalar :=
  match type with
  | .bool => (bool? t).map .bool
  | .int => ((integer? t).filter Number.inRange).map .int
  | .float => real? t
  | .null => if isNull t then some .null else none

/-- What a scalar with a tag stands for. A tag of the document's own says nothing
about that, and a foreign one makes it a text. -/
def ofTagged? (tag : Option Tag) (plain : Bool) (t : Text) : Option Scalar :=
  match tag with
  | none => untagged? plain t
  | some (.own _) => untagged? plain t
  | some .illegible => untagged? plain t
  | some (.core type) => ofCore? type t
  | some .foreign => some (.text t)

/-- Whether two keys are one; the two zeros are. -/
def same : Scalar → Scalar → Bool
  | .real x, .real y => x.same y
  | a, b => a == b

def name? : Scalar → Option Text
  | .bool true => some "true".toList
  | .bool false => some "false".toList
  | .int n => some (Number.text (.int n))
  | .real x => some (Number.text (.real x))
  | .text t => some t
  | _ => none

def json : Scalar → Json
  | .null => .null
  | .bool b => .bool b
  | .int n => .num (.int n)
  | .real x => .num (.real x)
  | .nonFinite => .null
  | .text t => .str t

end Scalar

end Fixtures.Relaxed
