import Fixtures.Text.Basic

/-! # Command lines

What the command line can ask for. `Word.ofText` tells options from plain
words; a lone dash is a plain word.
-/

namespace Fixtures.CommandLine

inductive Command
  | resolve (text : Text) (stored properties : List (Text × Text))
  | edit (name kind : Text) (rows : List Text) (resources : Option Text)
  deriving DecidableEq, Repr

inductive Interruption
  | help
  | version
  /-- a command line that is not understood -/
  | misuse
  deriving DecidableEq, Repr

structure Invocation where
  settings : Option Text
  command : Command
  deriving DecidableEq, Repr

inductive Word
  | plain (t : Text)
  /-- two dashes alone, after which all words are plain -/
  | separator
  /-- a long option, perhaps with a value after an equals sign -/
  | long (name : Text) (value : Option Text)
  /-- short options, of which the first one is read -/
  | short (first : Char)
  deriving DecidableEq, Repr

def Word.ofText : Text → Word
  | ['-', '-'] => .separator
  | '-' :: '-' :: rest =>
    match Text.cut? ['='] rest with
    | some (name, value) => .long name (some value)
    | none => .long rest none
  | '-' :: c :: _ => .short c
  | t => .plain t

inductive OptionName
  | config
  | set
  | property
  | kind
  | row
  | resources
  deriving DecidableEq, Repr

namespace OptionName

def all : List OptionName := [.config, .set, .property, .kind, .row, .resources]

def name : OptionName → String
  | .config => "config"
  | .set => "set"
  | .property => "property"
  | .kind => "kind"
  | .row => "row"
  | .resources => "resources"

end OptionName

/-- A part of the command line: up to the command, or after it. -/
inductive Part
  | outer
  | resolve
  | edit
  deriving DecidableEq, Repr

namespace Part

def options : Part → List OptionName
  | .outer => [.config]
  | .resolve => [.config, .set, .property]
  | .edit => [.config, .kind, .row, .resources]

def option? (p : Part) (name : Text) : Option OptionName :=
  p.options.find? fun o => o.name.toList == name

end Part

end Fixtures.CommandLine
