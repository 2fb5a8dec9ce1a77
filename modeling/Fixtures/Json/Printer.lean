import Fixtures.Decimal.Natural
import Fixtures.Decimal.Shortest
import Fixtures.Json.Value

/-! # Writing JSON

Compact text, without blanks. A real number has its shortest digits, in
positional notation up to the sixteenth place before and the fifth place after
the point, and otherwise with an exponent.
-/

namespace Fixtures

structure RealFormat where
  /-- the least and the greatest leading exponent written without an exponent -/
  least : Int
  greatest : Int
  mark : Char

/-- From `0.00001` to `1000000000000000.0`; outside, as `1e-6` and `1e+16`. -/
def Number.realFormat : RealFormat := ⟨-5, 15, 'e'⟩

namespace RealFormat

/-- A decimal with a point, at least one digit on either side of it. -/
def positional (ds : Text) (leading : Int) : Text :=
  match leading with
  | .ofNat k =>
    let whole := ds.take (k + 1) ++ List.replicate (k + 1 - ds.length) '0'
    let fraction := ds.drop (k + 1)
    whole ++ '.' :: (if fraction.isEmpty then ['0'] else fraction)
  | .negSucc k => '0' :: '.' :: (List.replicate k '0' ++ ds)

/-- One digit, the other digits after a point, and a signed exponent. -/
def scientific (mark : Char) (ds : Text) (leading : Int) : Text :=
  let sign := if leading < 0 then '-' else '+'
  let tail := if ds.length ≤ 1 then [] else '.' :: ds.drop 1
  ds.take 1 ++ tail ++ mark :: sign :: Decimal.digits leading.natAbs

def text (f : RealFormat) (x : Binary64) : Text :=
  let d := x.shortest
  let ds := Decimal.digits d.coefficient
  let leading := d.exponent + Int.ofNat ds.length - 1
  let magnitude :=
    if f.least ≤ leading && leading ≤ f.greatest then positional ds leading
    else scientific f.mark ds leading
  if x.negative then '-' :: magnitude else magnitude

end RealFormat

def Number.text : Number → Text
  | .int (.ofNat n) => Decimal.digits n
  | .int (.negSucc n) => '-' :: Decimal.digits (n + 1)
  | .real x => realFormat.text x

namespace Json

def hexDigit (n : Nat) : Char := Nat.digitChar n

def escape (c : Char) : Text :=
  match c with
  | '"' => ['\\', '"']
  | '\\' => ['\\', '\\']
  | '\x08' => ['\\', 'b']
  | '\t' => ['\\', 't']
  | '\n' => ['\\', 'n']
  | '\x0c' => ['\\', 'f']
  | '\r' => ['\\', 'r']
  | _ =>
    if c.toNat < 0x20 then
      ['\\', 'u', '0', '0', hexDigit (c.toNat / 16), hexDigit (c.toNat % 16)]
    else [c]

def quote (t : Text) : Text := '"' :: (t.flatMap escape ++ ['"'])

mutual

def render : Json → Text
  | .null => ['n', 'u', 'l', 'l']
  | .bool true => ['t', 'r', 'u', 'e']
  | .bool false => ['f', 'a', 'l', 's', 'e']
  | .num n => n.text
  | .str s => quote s
  | .arr [] => ['[', ']']
  | .arr (v :: rest) => '[' :: (render v ++ renderItems rest)
  | .obj [] => ['{', '}']
  | .obj ((k, v) :: rest) => '{' :: (quote k ++ ':' :: (render v ++ renderFields rest))

def renderItems : List Json → Text
  | [] => [']']
  | v :: rest => ',' :: (render v ++ renderItems rest)

def renderFields : List (Text × Json) → Text
  | [] => ['}']
  | (k, v) :: rest => ',' :: (quote k ++ ':' :: (render v ++ renderFields rest))

end

/-- A string stands for itself; any other value for its JSON text. -/
def toText : Json → Text
  | .str s => s
  | v => v.render

end Json

end Fixtures
