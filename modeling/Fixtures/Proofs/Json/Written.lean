import Fixtures.Json.Reader

/-!
# JSON as it is written

A JSON text with everything that its value does not tell: the white space, the
escapes, the digits of the numbers, and the fields that a later one of their name
replaces. Every part brings along why it is one, so each tree is the tree of a
text that can be read, and its value needs no check.
-/

namespace Fixtures.Json

/-! ## Parts of a text -/

structure Blanks where
  text : Text
  blank : ∀ c ∈ text, Reader.isSpace c = true

structure HexDigit where
  char : Char
  value : Nat
  reads : Reader.hexValue? char = some value

theorem HexDigit.value_lt (d : HexDigit) : d.value < 16 := by
  obtain ⟨c, n, h⟩ := d
  unfold Reader.hexValue? at h
  split at h
  · rename_i hc
    simp only [Char.isDigit, Bool.and_eq_true, decide_eq_true_eq] at hc
    have hle : c.toNat ≤ 57 := hc.2
    have h0 : '0'.toNat = 48 := rfl
    simp only [Option.some.injEq, Decimal.digitValue] at h
    simp only
    omega
  split at h
  · rename_i hc
    simp only [Bool.and_eq_true, decide_eq_true_eq] at hc
    have hle : c.toNat ≤ 102 := hc.2
    have ha : 'a'.toNat = 97 := rfl
    simp only [Option.some.injEq] at h
    simp only
    omega
  split at h
  · rename_i hc
    simp only [Bool.and_eq_true, decide_eq_true_eq] at hc
    have hle : c.toNat ≤ 70 := hc.2
    have ha : 'A'.toNat = 65 := rfl
    simp only [Option.some.injEq] at h
    simp only
    omega
  · cases h

structure Code where
  first : HexDigit
  second : HexDigit
  third : HexDigit
  fourth : HexDigit

namespace Code

def text (n : Code) : Text := [n.first.char, n.second.char, n.third.char, n.fourth.char]

def value (n : Code) : Nat :=
  16 * (16 * (16 * n.first.value + n.second.value) + n.third.value) + n.fourth.value

theorem value_lt (n : Code) : n.value < 0x10000 := by
  have h₁ := n.first.value_lt
  have h₂ := n.second.value_lt
  have h₃ := n.third.value_lt
  have h₄ := n.fourth.value_lt
  unfold value
  omega

end Code

def isRaw (c : Char) : Bool := c != '"' && c != '\\' && 0x20 ≤ c.toNat

/-- How a character of a string is written. -/
inductive Piece
  | char (c : Char) (h : isRaw c = true)
  | escape (letter c : Char) (h : Reader.escaped? letter = some c)
  | code (n : Code) (hl : Reader.isLeading n.value = false) (ht : Reader.isTrailing n.value = false)
  | pair (lead trail : Code) (hl : Reader.isLeading lead.value = true)
      (ht : Reader.isTrailing trail.value = true)

namespace Piece

def text : Piece → Text
  | char c _ => [c]
  | escape letter _ _ => ['\\', letter]
  | code n _ _ => '\\' :: 'u' :: n.text
  | pair lead trail _ _ => '\\' :: 'u' :: (lead.text ++ '\\' :: 'u' :: trail.text)

def value : Piece → Char
  | char c _ => c
  | escape _ c _ => c
  | code n _ _ => Char.ofNat n.value
  | pair lead trail _ _ =>
    Char.ofNat (0x10000 + (lead.value - 0xD800) * 0x400 + (trail.value - 0xDC00))

def isPair : Piece → Bool
  | pair _ _ _ _ => true
  | _ => false

end Piece

def bodyOf (ps : List Piece) : Text := ps.flatMap Piece.text

def stringOf (ps : List Piece) : Text := ps.map Piece.value

@[simp] theorem bodyOf_nil : bodyOf [] = [] := rfl

@[simp] theorem bodyOf_cons (p : Piece) (ps : List Piece) : bodyOf (p :: ps) = p.text ++ bodyOf ps :=
  rfl

@[simp] theorem stringOf_cons (p : Piece) (ps : List Piece) :
    stringOf (p :: ps) = p.value :: stringOf ps := rfl

namespace Numeral

/-- A numeral after some more characters that all belong to it. -/
def after? (n : Numeral) : Text → Option Numeral
  | [] => some n
  | c :: cs =>
    match n.step c with
    | .ok (some n) => n.after? cs
    | _ => none

/-- The number that a text stands for which is a numeral and nothing else. -/
def read? : Text → Option Number
  | [] => none
  | c :: cs => ((start? c).bind (after? · cs)).bind (·.value.toOption)

end Numeral

structure WrittenNumber where
  text : Text
  number : Number
  reads : Numeral.read? text = some number

structure WrittenName where
  before : Blanks
  name : List Piece
  beforeColon : Blanks
  afterColon : Blanks

def WrittenName.text (k : WrittenName) : Text :=
  k.before.text ++ '"' :: (bodyOf k.name ++ '"' :: (k.beforeColon.text ++ ':' :: k.afterColon.text))

/-! ## Values -/

mutual

inductive Written
  | null
  | bool (b : Bool)
  | number (n : WrittenNumber)
  | string (ps : List Piece)
  | emptyArray (inside : Blanks)
  | array (items : WrittenItems)
  | emptyObject (inside : Blanks)
  | object (fields : WrittenFields)

inductive WrittenItems
  | last (before : Blanks) (v : Written) (after : Blanks)
  | cons (before : Blanks) (v : Written) (after : Blanks) (rest : WrittenItems)

inductive WrittenFields
  | last (name : WrittenName) (v : Written) (after : Blanks)
  | cons (name : WrittenName) (v : Written) (after : Blanks) (rest : WrittenFields)

end

mutual

def Written.text : Written → Text
  | .null => ['n', 'u', 'l', 'l']
  | .bool true => ['t', 'r', 'u', 'e']
  | .bool false => ['f', 'a', 'l', 's', 'e']
  | .number n => n.text
  | .string ps => '"' :: (bodyOf ps ++ ['"'])
  | .emptyArray inside => '[' :: (inside.text ++ [']'])
  | .array items => '[' :: (items.text ++ [']'])
  | .emptyObject inside => '{' :: (inside.text ++ ['}'])
  | .object fields => '{' :: (fields.text ++ ['}'])

def WrittenItems.text : WrittenItems → Text
  | .last before v after => before.text ++ (v.text ++ after.text)
  | .cons before v after rest => before.text ++ (v.text ++ (after.text ++ ',' :: rest.text))

def WrittenFields.text : WrittenFields → Text
  | .last name v after => name.text ++ (v.text ++ after.text)
  | .cons name v after rest => name.text ++ (v.text ++ (after.text ++ ',' :: rest.text))

end

mutual

def Written.value : Written → Json
  | .null => .null
  | .bool b => .bool b
  | .number n => .num n.number
  | .string ps => .str (stringOf ps)
  | .emptyArray _ => .arr []
  | .array items => .arr items.values
  | .emptyObject _ => .obj []
  | .object fields => .obj (fields.enter [])

def WrittenItems.values : WrittenItems → List Json
  | .last _ v _ => [v.value]
  | .cons _ v _ rest => v.value :: rest.values

/-- The fields after some others; of several with one name the last one counts. -/
def WrittenFields.enter : WrittenFields → Table Json → Table Json
  | .last k v _, fields => Table.insert (stringOf k.name) v.value fields
  | .cons k v _ rest, fields => rest.enter (Table.insert (stringOf k.name) v.value fields)

end

mutual

def Written.depth : Written → Nat
  | .emptyArray _ => 1
  | .array items => items.depth + 1
  | .emptyObject _ => 1
  | .object fields => fields.depth + 1
  | _ => 0

def WrittenItems.depth : WrittenItems → Nat
  | .last _ v _ => v.depth
  | .cons _ v _ rest => max v.depth rest.depth

def WrittenFields.depth : WrittenFields → Nat
  | .last _ v _ => v.depth
  | .cons _ v _ rest => max v.depth rest.depth

end

def WrittenFields.names : WrittenFields → List Text
  | .last k _ _ => [stringOf k.name]
  | .cons k _ _ rest => stringOf k.name :: rest.names

/-- A whole text, which nests no deeper than the reader goes. -/
structure WrittenDocument where
  before : Blanks
  root : Written
  after : Blanks
  shallow : root.depth ≤ Reader.depthLimit

namespace WrittenDocument

def text (d : WrittenDocument) : Text := d.before.text ++ (d.root.text ++ d.after.text)

def value (d : WrittenDocument) : Json := d.root.value

end WrittenDocument

end Fixtures.Json
