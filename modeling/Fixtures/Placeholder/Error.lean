import Fixtures.Placeholder.Basic

/-! # Why a placeholder has no value
-/

namespace Fixtures

inductive ResolutionError
  /-- The text does not start with a marker. -/
  | unknownDomain (text : Text)
  /-- No brace closes the marker of this domain in the text. -/
  | unterminated (domain : Domain) (text : Text)
  /-- A capability without an argument. -/
  | missingArgument (text : Text)
  | interfaceUnavailable (interface : Text)
  | noIpv4Address (interface : Text)
  | unknownCapability (name : Text)
  | missingKey (key : Text)
  /-- More placeholders than the limit allows. -/
  | limitExceeded (limit : Nat)
  deriving DecidableEq, Repr

def ResolutionError.message : ResolutionError → String
  | .unknownDomain t => "Unknown placeholder domain: " ++ String.ofList t
  | .unterminated d t =>
    "Unterminated placeholder starting with '" ++ String.ofList d.marker ++ "' in: " ++ String.ofList t
  | .missingArgument t => "Interface not defined in placeholder: " ++ String.ofList t
  | .interfaceUnavailable i => "Interface " ++ String.ofList i ++ " not available"
  | .noIpv4Address i => "Interface " ++ String.ofList i ++ " has no IPv4 address"
  | .unknownCapability n => "Property not defined: " ++ String.ofList n
  | .missingKey k => "Key not found in registry: " ++ String.ofList k
  | .limitExceeded n =>
    "Substitution limit of " ++ toString n ++ " exceeded, placeholder values may reference themselves"

end Fixtures
