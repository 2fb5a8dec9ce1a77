import Fixtures.Text.Basic

/-! # Where and why a text is not JSON
-/

namespace Fixtures.Json

/-- A place in a text: lines from one, and bytes within the line. -/
structure Position where
  line : Nat
  column : Nat
  deriving DecidableEq, Repr

namespace Position

/-- The place `n` bytes after another, along a text. -/
def advance (p : Position) : Text → Nat → Position
  | [], n => ⟨p.line, p.column + n⟩
  | c :: cs, n =>
    if c.utf8Size ≤ n then
      let q : Position := if c = '\n' then ⟨p.line + 1, 0⟩ else ⟨p.line, p.column + c.utf8Size⟩
      q.advance cs (n - c.utf8Size)
    else ⟨p.line, p.column + n⟩

def ofOffset (t : Text) (n : Nat) : Position := advance ⟨1, 0⟩ t n

end Position

inductive Cause
  | endInValue
  | endInList
  | endInObject
  | endInString
  | expectedValue
  | expectedWord
  | expectedColon
  | expectedItem
  | expectedField
  | keyNotString
  | trailingComma
  | trailingCharacters
  | invalidNumber
  | numberOutOfRange
  | controlCharacter
  | invalidEscape
  | loneSurrogate
  | brokenSurrogate
  | tooDeep
  deriving DecidableEq, Repr

def Cause.message : Cause → String
  | .endInValue => "EOF while parsing a value"
  | .endInList => "EOF while parsing a list"
  | .endInObject => "EOF while parsing an object"
  | .endInString => "EOF while parsing a string"
  | .expectedValue => "expected value"
  | .expectedWord => "expected ident"
  | .expectedColon => "expected `:`"
  | .expectedItem => "expected `,` or `]`"
  | .expectedField => "expected `,` or `\x7d`"
  | .keyNotString => "key must be a string"
  | .trailingComma => "trailing comma"
  | .trailingCharacters => "trailing characters"
  | .invalidNumber => "invalid number"
  | .numberOutOfRange => "number out of range"
  | .controlCharacter => "control character (\\u0000-\\u001F) found while parsing a string"
  | .invalidEscape => "invalid escape"
  | .loneSurrogate => "lone leading surrogate in hex escape"
  | .brokenSurrogate => "unexpected end of hex escape"
  | .tooDeep => "recursion limit exceeded"

structure SyntaxError where
  cause : Cause
  position : Position
  deriving DecidableEq, Repr

def SyntaxError.message (e : SyntaxError) : String :=
  e.cause.message ++ " at line " ++ toString e.position.line ++
    " column " ++ toString e.position.column

/-- A fault at a character: its cause, and how many bytes of the character have
been read when it is noticed. -/
structure Fault where
  cause : Cause
  within : Nat
  deriving DecidableEq, Repr

def Fault.on (cause : Cause) : Fault := ⟨cause, 1⟩

end Fixtures.Json
