import Fixtures.Relaxed.Character

/-! # Tokens

What a relaxed text consists of. Indentation appears as the start and the end
of block collections.
-/

namespace Fixtures.Relaxed

inductive Token
  | version (major minor : Nat)
  | tagDirective (handle : Text) (lead : List UInt8)
  | documentStart
  | documentEnd
  | blockSequence
  | blockMapping
  | blockEnd
  | openBracket
  | closeBracket
  | openBrace
  | closeBrace
  | comma
  /-- a dash before an item -/
  | dash
  /-- what follows is a key -/
  | key
  /-- what follows is a value -/
  | value
  | alias (name : Text)
  | anchor (name : Text)
  | tag (handle : Text) (suffix : List UInt8)
  | scalar (plain : Bool) (text : Text)
  deriving DecidableEq, Repr

end Fixtures.Relaxed
