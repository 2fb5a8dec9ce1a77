import Fixtures.Table
import Fixtures.Text.Basic

/-! # Properties

Properties of a run may be laid over the environment of the process. An entry
of the environment is a text `name=value`, and is looked up as such: a name
that holds an equals sign may match an entry whose value starts with the rest.
-/

namespace Fixtures

structure Properties where
  own : Table Text
  /-- the entries of the environment, if it is looked at -/
  environment : List Text

namespace Properties

/-- Properties without an environment. -/
def ofTable (own : Table Text) : Properties := ⟨own, []⟩

def entry (name value : Text) : Text := name ++ '=' :: value

/-- A name is not empty and holds no null character. -/
def environmentValue? (entries : List Text) (name : Text) : Option Text :=
  if name.isEmpty || name.contains '\x00' then none
  else entries.findSome? (Text.after? (entry name []))

def get? (p : Properties) (name : Text) : Option Text :=
  match Table.get? name p.own with
  | some v => some v
  | none => environmentValue? p.environment name

def set (name value : Text) (p : Properties) : Properties :=
  { p with own := Table.insert name value p.own }

end Properties

end Fixtures
