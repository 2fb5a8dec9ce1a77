import Fixtures.Relaxed.Gap

/-! # Quoted scalars

In single quotes only the quote itself is special, and is written twice. In
double quotes a backslash starts an escape, and may stand before a line end.
-/

namespace Fixtures.Relaxed

inductive QuotedPlace
  | inside
  /-- after a single quote, which may be the first of two -/
  | quote
  | backslash
  /-- with so many hexadecimal digits to come -/
  | hex (left value : Nat)

structure Quoted where
  /-- the text so far, backwards -/
  text : Text
  gap : Gap
  /-- whether a line has just started -/
  lineStart : Bool
  place : QuotedPlace

namespace Quoted

def start : Quoted := ⟨[], .none, false, .inside⟩

def push (q : Quoted) (c : Char) : Quoted :=
  ⟨c :: (q.gap.folded ++ q.text), .none, false, .inside⟩

def goTo (q : Quoted) (place : QuotedPlace) : Quoted :=
  ⟨q.gap.folded ++ q.text, .none, false, place⟩

def escaped? : Char → Option Char
  | '0' => some '\x00'
  | 'a' => some '\x07'
  | 'b' => some '\x08'
  | 't' => some '\t'
  | '\t' => some '\t'
  | 'n' => some '\n'
  | 'v' => some '\x0b'
  | 'f' => some '\x0c'
  | 'r' => some '\r'
  | 'e' => some '\x1b'
  | ' ' => some ' '
  | '"' => some '"'
  | '/' => some '/'
  | '\\' => some '\\'
  | 'N' => some '\u0085'
  | '_' => some '\u00a0'
  | 'L' => some '\u2028'
  | 'P' => some '\u2029'
  | _ => none

/-- How many digits follow the letter of a numeric escape. -/
def hexLength? : Char → Option Nat
  | 'x' => some 2
  | 'u' => some 4
  | 'U' => some 8
  | _ => none

/-- The character with a number, which must not be a surrogate. -/
def char? (n : Nat) : Option Char :=
  if (0xD800 ≤ n ∧ n ≤ 0xDFFF) ∨ 0x10FFFF < n then none else some (Char.ofNat n)

/-- The rest of a scalar, from inside its quotes: its text, and what follows the
closing quote. -/
def read (single : Bool) : Quoted → Text → Option (Text × Text)
  | q, [] =>
    match q.place with
    | .quote => some (q.text.reverse, [])
    | _ => none
  | q, c :: cs =>
    match q.place with
    | .quote =>
      if c = '\'' then read single (q.push '\'') cs else some (q.text.reverse, c :: cs)
    | .backslash =>
      if isBreak c then read single ⟨q.text, .escaped, true, .inside⟩ cs
      else
        match escaped? c, hexLength? c with
        | some d, _ => read single (q.push d) cs
        | none, some n => read single (q.goTo (.hex n 0)) cs
        | none, none => none
    | .hex left value =>
      match Json.Reader.hexValue? c with
      | none => none
      | some d =>
        if left ≤ 1 then
          match char? (16 * value + d) with
          | some x => read single (q.push x) cs
          | none => none
        else read single (q.goTo (.hex (left - 1) (16 * value + d))) cs
    | .inside =>
      if isBreak c then read single { q with gap := q.gap.lineEnd c, lineStart := true } cs
      else if isBlank c then read single { q with gap := q.gap.blank c, lineStart := false } cs
      else if q.lineStart && isDocumentMarker (c :: cs) then none
      else if single then
        if c = '\'' then read single (q.goTo .quote) cs else read single (q.push c) cs
      else if c = '"' then some ((q.gap.folded ++ q.text).reverse, cs)
      else if c = '\\' then read single (q.goTo .backslash) cs
      else read single (q.push c) cs

end Quoted

def quoted? (single : Bool) (t : Text) : Option (Text × Text) := Quoted.read single .start t

end Fixtures.Relaxed
