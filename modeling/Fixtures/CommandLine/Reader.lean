import Fixtures.CommandLine.Basic

/-! # Reading command lines

Words are read from left to right, and the first thing that is wrong or asks for
help decides. An option that is no list is given at most once in a part. A
settings file may be given before and after the command, and the latter counts;
if neither is given, the environment may name one.
-/

namespace Fixtures.CommandLine

structure Given where
  config : Option Text
  stored : List (Text × Text)
  properties : List (Text × Text)
  kind : Option Text
  rows : List Text
  resources : Option Text
  word : Option Text
  deriving DecidableEq, Repr

namespace Given

def nothing : Given := ⟨none, [], [], none, [], none, none⟩

/-- A name and a value around the first equals sign; the name is not empty. -/
def pair? (t : Text) : Option (Text × Text) :=
  (Text.cut? ['='] t).filter fun p => !p.1.isEmpty

def once? (old : Option Text) (value : Text) : Option (Option Text) :=
  if old.isSome then none else some (some value)

/-- A path is not empty. -/
def path? (old : Option Text) (value : Text) : Option (Option Text) :=
  if value.isEmpty then none else once? old value

def option? (g : Given) (o : OptionName) (value : Text) : Option Given :=
  match o with
  | .config => (path? g.config value).map fun v => { g with config := v }
  | .set => (pair? value).map fun p => { g with stored := g.stored ++ [p] }
  | .property => (pair? value).map fun p => { g with properties := g.properties ++ [p] }
  | .kind => (once? g.kind value).map fun v => { g with kind := v }
  | .row => some { g with rows := g.rows ++ [value] }
  | .resources => (path? g.resources value).map fun v => { g with resources := v }

def word? (g : Given) (t : Text) : Option Given :=
  (once? g.word t).map fun v => { g with word := v }

end Given

def orMisuse {α : Type} : Option α → Except Interruption α
  | some a => .ok a
  | none => .error .misuse

def readPlain (g : Given) : List Text → Except Interruption Given
  | [] => .ok g
  | t :: rest => (orMisuse (g.word? t)).bind fun g => readPlain g rest

/-- Reads a part, where an option may wait for its value. The outer part ends
before the first plain word. -/
def readPart (p : Part) :
    (waiting : Option OptionName) → Given → List Text → Except Interruption (Given × List Text)
  | none, g, [] => .ok (g, [])
  | some _, _, [] => .error .misuse
  | some o, g, t :: rest =>
    match Word.ofText t with
    | .plain value => (orMisuse (g.option? o value)).bind fun g => readPart p none g rest
    | _ => .error .misuse
  | none, g, t :: rest =>
    match Word.ofText t with
    | .plain t =>
      if p = .outer then .ok (g, t :: rest)
      else (orMisuse (g.word? t)).bind fun g => readPart p none g rest
    | .separator =>
      if p = .outer then .error .misuse else (readPlain g rest).map fun g => (g, [])
    | .short 'h' => .error .help
    | .short 'V' => .error (if p = .outer then .version else .misuse)
    | .short _ => .error .misuse
    | .long name value =>
      if name = "help".toList then .error (if value.isSome then .misuse else .help)
      else if name = "version".toList && p = .outer then
        .error (if value.isSome then .misuse else .version)
      else
        match p.option? name, value with
        | some o, some v => (orMisuse (g.option? o v)).bind fun g => readPart p none g rest
        | some o, none => readPart p (some o) g rest
        | none, _ => .error .misuse

/-- The words of a request for help name at most one command. -/
def isHelp : List Text → Bool
  | [] => true
  | [t] => ["resolve", "mutate", "help"].any (·.toList == t)
  | _ => false

def command? (p : Part) (g : Given) : Option Command :=
  match p, g.word with
  | .resolve, some t => some (.resolve t g.stored g.properties)
  | .edit, some t => some (.edit t (g.kind.getD "string".toList) g.rows g.resources)
  | _, _ => none

/-- The settings file of the two parts and the environment. One in the environment
must not be empty where a part gives none. -/
def settingsFile (outer inner environment : Option Text) : Except Interruption (Option Text) :=
  if environment = some [] && (outer.isNone || inner.isNone) then .error .misuse
  else .ok ((inner.or outer).or environment)

def readCommand (p : Part) (outer : Given) (environment : Option Text) (words : List Text) :
    Except Interruption Invocation :=
  match readPart p none .nothing words with
  | .error i => .error i
  | .ok (inner, _) =>
    match settingsFile outer.config inner.config environment, command? p inner with
    | .ok settings, some c => .ok ⟨settings, c⟩
    | _, _ => .error .misuse

def read (environment : Option Text) (words : List Text) : Except Interruption Invocation :=
  match readPart .outer none .nothing words with
  | .error i => .error i
  | .ok (_, []) => .error .misuse
  | .ok (outer, name :: rest) =>
    if name = "resolve".toList then readCommand .resolve outer environment rest
    else if name = "mutate".toList then readCommand .edit outer environment rest
    else if name = "help".toList then .error (if isHelp rest then .help else .misuse)
    else .error .misuse

end Fixtures.CommandLine
