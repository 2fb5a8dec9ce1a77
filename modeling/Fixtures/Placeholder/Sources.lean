import Fixtures.Network.Address
import Fixtures.Placeholder.Error
import Fixtures.Text.Case

/-! # Looking up a placeholder

`Sources` are what a resolution reads from: properties, stored values and the
addresses of network interfaces. `Sources.lookup` gives the value of one
placeholder.
-/

namespace Fixtures

structure Sources where
  property : Text → Option Text
  stored : Text → Option Text
  addresses : Text → Option (List Address)

inductive Folding
  | none
  | lower
  | upper
  deriving DecidableEq, Repr

namespace Folding

/-- A modifier that names no folding leaves the value as it is. -/
def ofModifier : Option Text → Folding
  | some m =>
    if m = "toLower".toList then .lower else if m = "toUpper".toList then .upper else .none
  | Option.none => .none

def apply : Folding → Text → Text
  | .none, t => t
  | .lower, t => t.lower
  | .upper, t => t.upper

end Folding

namespace Sources

/-- The first version 4 address of an interface. -/
def ipv4 (s : Sources) (interface : Text) : Except ResolutionError Text :=
  match s.addresses interface with
  | none => .error (.interfaceUnavailable interface)
  | some as =>
    match as.findSome? Address.text4? with
    | some t => .ok t
    | none => .error (.noIpv4Address interface)

/-- A property that is not set is empty, a key must be stored, and the only
capability is the address of an interface. -/
def lookup (s : Sources) (p : Placeholder) : Except ResolutionError Text :=
  match p.domain with
  | .property => .ok ((Folding.ofModifier p.modifier).apply ((s.property p.token).getD []))
  | .stored =>
    match s.stored p.token with
    | some v => .ok v
    | none => .error (.missingKey p.token)
  | .code =>
    match p.modifier with
    | none => .error (.missingArgument p.text)
    | some argument =>
      if p.token = "IP".toList then s.ipv4 argument else .error (.unknownCapability p.token)

end Sources

end Fixtures
