import Fixtures.Text.Basic

/-! # Placeholders

A placeholder is a marker, an interior and a closing brace. The marker names
the domain its value is looked up in; the interior is read by the domain's own
rule. `Placeholder.text` writes a placeholder down again.
-/

namespace Fixtures

/-- Where the value of a placeholder comes from. -/
inductive Domain
  /-- a named property, as in `${name}` or `${name.toUpper}` -/
  | property
  /-- a value kept during the run, as in `!{key}` -/
  | stored
  /-- something evaluated, as in `@{IP.eth0}` -/
  | code
  deriving DecidableEq, Repr

namespace Domain

def sigil : Domain → Char
  | .property => '$'
  | .stored => '!'
  | .code => '@'

def marker (d : Domain) : Text := [d.sigil, '{']

/-- The domains in the order in which a round serves them. -/
def all : List Domain := [.property, .stored, .code]

def ofSigil? (c : Char) : Option Domain := all.find? (·.sigil == c)

end Domain

def hasMarker (t : Text) : Bool := Domain.all.any fun d => Text.has d.marker t

structure Placeholder where
  domain : Domain
  /-- the property, key or capability -/
  token : Text
  /-- the case modifier of a property, the argument of a capability -/
  modifier : Option Text
  deriving DecidableEq, Repr

namespace Placeholder

def interior (p : Placeholder) : Text :=
  match p.modifier with
  | some m => p.token ++ '.' :: m
  | none => p.token

def text (p : Placeholder) : Text := p.domain.marker ++ p.interior ++ ['}']

end Placeholder

end Fixtures
