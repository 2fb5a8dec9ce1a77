import Fixtures.Relaxed.Block
import Fixtures.Relaxed.Directive
import Fixtures.Relaxed.Plain
import Fixtures.Relaxed.Quoted

/-! # Layout

From a text to its tokens. Outside brackets the indentation counts: a line that
is indented further opens a block, and one that is indented less closes blocks.
A key is only known by the colon after it, so every place where a key may start
is kept until the line ends, and the key token goes in front of it afterwards.
-/

namespace Fixtures.Relaxed

/-- A place where a key may have started. -/
structure KeyStart where
  /-- how many tokens stand before it -/
  before : Nat
  index : Nat
  line : Nat
  column : Nat
  /-- whether nothing but a key can stand there -/
  required : Bool

structure Layout where
  /-- what is not read yet -/
  rest : Text
  /-- bytes read -/
  index : Nat
  /-- lines read, and characters within the line -/
  line : Nat
  column : Nat
  /-- the column of the innermost block; -1 outside of any -/
  indent : Int
  outerIndents : List Int
  keyAllowed : Bool
  /-- the last place between the innermost brackets where a key may have started -/
  key : Option KeyStart
  /-- the same for what surrounds each open bracket -/
  outerKeys : List (Option KeyStart)
  /-- the tokens so far, backwards -/
  tokens : List Token
  size : Nat

namespace Layout

def inFlow (s : Layout) : Bool := !s.outerKeys.isEmpty

/-! ## Going on in the text -/

def skip (s : Layout) : Nat → Layout
  | 0 => s
  | n + 1 =>
    match s.rest with
    | [] => s
    | c :: cs =>
      let index := s.index + c.utf8Size
      let next :=
        if isBreak c then { s with rest := cs, index := index, line := s.line + 1, column := 0 }
        else { s with rest := cs, index := index, column := s.column + 1 }
      next.skip n

def start (t : Text) : Layout := ⟨t, 0, 0, 0, -1, [], true, none, [], [], 0⟩

/-- Goes on to where only `rest` is left. -/
def moveTo (s : Layout) (rest : Text) : Layout := s.skip (s.rest.length - rest.length)

def byteOrderMark : Char := '\uFEFF'

/-- What follows white space and comments, and whether a key may start there.
Outside brackets a line end allows a key, and a tab is no indentation. A byte order
mark at the start of a line is passed over. -/
def spaceFrom (flow : Bool) : (lineStart keyAllowed comment : Bool) → Text → Text × Bool
  | _, allowed, _, [] => ([], allowed)
  | lineStart, allowed, comment, c :: cs =>
    if isBreak c then spaceFrom flow true (allowed || !flow) false cs
    else if comment || c = '#' then spaceFrom flow false allowed true cs
    else if c = ' ' || (c = '\t' && (flow || !allowed)) || (lineStart && c = byteOrderMark) then
      spaceFrom flow false allowed false cs
    else (c :: cs, allowed)

def space (s : Layout) : Layout :=
  let r := spaceFrom s.inFlow (s.column == 0) s.keyAllowed false s.rest
  { s.moveTo r.1 with keyAllowed := r.2 }

/-! ## Tokens and blocks -/

def emit (s : Layout) (t : Token) : Layout := { s with tokens := t :: s.tokens, size := s.size + 1 }

def insert (s : Layout) (n : Nat) (t : Token) : Layout :=
  { s with
    tokens := s.tokens.take (s.size - n) ++ t :: s.tokens.drop (s.size - n), size := s.size + 1 }

def leaveBlocks (column : Int) : List Int → Layout → Layout
  | [], s => s
  | outer :: rest, s =>
    if column < s.indent then
      leaveBlocks column rest { s.emit .blockEnd with indent := outer, outerIndents := rest }
    else s

def leave (s : Layout) (column : Int) : Layout :=
  if s.inFlow then s else leaveBlocks column s.outerIndents s

/-- Enters a block, behind the first `n` tokens, if a column is further in. -/
def enter (s : Layout) (column : Nat) (n : Nat) (t : Token) : Layout :=
  if s.inFlow || Int.ofNat column ≤ s.indent then s
  else { s.insert n t with indent := column, outerIndents := s.indent :: s.outerIndents }

/-! ## Places of keys -/

/-- Drops a place that is on another line or more than 1024 bytes back. -/
def expire (s : Layout) : Option KeyStart → Option (Option KeyStart)
  | none => some none
  | some k =>
    if k.line < s.line || k.index + 1024 < s.index then if k.required then none else some none
    else some (some k)

def expireKeys (s : Layout) : Option Layout :=
  match s.expire s.key, s.outerKeys.mapM s.expire with
  | some key, some outerKeys => some { s with key := key, outerKeys := outerKeys }
  | _, _ => none

def dropKey (s : Layout) : Option Layout :=
  if s.key.any (·.required) then none else some { s with key := none }

/-- Keeps the present place, if a key may start there. -/
def saveKey (s : Layout) : Option Layout :=
  if s.keyAllowed then
    s.dropKey.map fun s =>
      let required := !s.inFlow && s.indent == Int.ofNat s.column
      { s with key := some ⟨s.size, s.index, s.line, s.column, required⟩ }
  else some s

/-! ## One token -/

/-- Reads a token, up to where only `rest` is left. -/
def read (s : Layout) (t : Token) (rest : Text) (keyAllowed : Bool) : Layout :=
  { s.moveTo rest with keyAllowed := keyAllowed, tokens := t :: s.tokens, size := s.size + 1 }

/-- A token that may be a key or begin one. -/
def word (s : Layout) (found : Option (Token × Text)) : Option Layout :=
  match s.saveKey, found with
  | some s, some (t, rest) => some (s.read t rest false)
  | _, _ => none

/-- A sign that cannot be in a key. -/
def separator (s : Layout) (t : Token) (keyAllowed : Bool) : Option Layout :=
  s.dropKey.map (·.read t (s.rest.drop 1) keyAllowed)

/-- A token that stands at the start of a line outside all blocks. -/
def documentToken (s : Layout) (found : Option (Token × Text)) : Option Layout :=
  match (s.leave (-1)).dropKey, found with
  | some s, some (t, rest) => some (s.read t rest false)
  | _, _ => none

def openFlow (s : Layout) (t : Token) : Option Layout :=
  match s.saveKey with
  | some s =>
    let s := s.read t (s.rest.drop 1) true
    some { s with key := none, outerKeys := s.key :: s.outerKeys }
  | none => none

def closeFlow (s : Layout) (t : Token) : Option Layout :=
  match s.separator t false with
  | some s =>
    match s.outerKeys with
    | [] => some s
    | k :: rest => some { s with key := k, outerKeys := rest }
  | none => none

/-- Enters a block at a sign that begins an item, a key or a value of it. -/
def enterHere (s : Layout) (block : Token) : Option Layout :=
  if s.inFlow then some s
  else if s.keyAllowed then some (s.enter s.column s.size block)
  else none

def dash (s : Layout) : Option Layout :=
  (s.enterHere .blockSequence).bind (·.separator .dash true)

def question (s : Layout) : Option Layout :=
  (s.enterHere .blockMapping).bind (·.separator .key (!s.inFlow))

/-- The colon before a value. If a key may have started before it, it did. -/
def colon (s : Layout) : Option Layout :=
  match s.key with
  | some k =>
    let s := (s.insert k.before .key).enter k.column k.before .blockMapping
    some { s.read .value (s.rest.drop 1) false with key := none }
  | none => (s.enterHere .blockMapping).map (·.read .value (s.rest.drop 1) (!s.inFlow))

def blockScalar (s : Layout) (literal : Bool) : Option Layout :=
  match s.dropKey, block? literal s.indent (s.rest.drop 1) with
  | some s, some (text, rest) => some (s.read (.scalar false text) rest true)
  | _, _ => none

def quotedScalar (s : Layout) (single : Bool) : Option Layout :=
  s.word ((quoted? single (s.rest.drop 1)).map fun r => (.scalar false r.1, r.2))

def plainScalar (s : Layout) : Option Layout :=
  match s.saveKey, plain? s.inFlow (s.indent + 1) s.column s.rest with
  | some s, some p => some (s.read (.scalar true p.text) p.rest p.broken)
  | _, _ => none

/-- Signs with a meaning of their own, which do not start a plain scalar. -/
def isIndicator (c : Char) : Bool := "-?:,[]\x7b\x7d#&*!|>'\"%@`".toList.elem c

/-- Whether a plain scalar starts with a character that another follows. A dash
joined to something is no indicator, nor a question mark or colon outside
brackets. -/
def startsPlain (flow : Bool) (c : Char) (cs : Text) : Bool :=
  !(isBlank c || isBreak c || isIndicator c) ||
    (c = '-' && !(cs.head?.any isBlank)) || (!flow && (c = '?' || c = ':') && !endsWord cs)

def token (s : Layout) (c : Char) (cs : Text) : Option Layout :=
  let opensWord := s.inFlow || endsWord cs
  if s.column = 0 && c = '%' then s.documentToken (directive? cs)
  else if s.column = 0 && isMarker '-' (c :: cs) then
    s.documentToken (some (.documentStart, cs.drop 2))
  else if s.column = 0 && isMarker '.' (c :: cs) then
    s.documentToken (some (.documentEnd, cs.drop 2))
  else if c = '[' then s.openFlow .openBracket
  else if c = '{' then s.openFlow .openBrace
  else if c = ']' then s.closeFlow .closeBracket
  else if c = '}' then s.closeFlow .closeBrace
  else if c = ',' then s.separator .comma true
  else if c = '-' && endsWord cs then s.dash
  else if c = '?' && opensWord then s.question
  else if c = ':' && opensWord then s.colon
  else if c = '*' then s.word ((anchorName? cs).map fun r => (.alias r.1, r.2))
  else if c = '&' then s.word ((anchorName? cs).map fun r => (.anchor r.1, r.2))
  else if c = '!' then s.word (tag? s.inFlow (c :: cs))
  else if c = '|' && !s.inFlow then s.blockScalar true
  else if c = '>' && !s.inFlow then s.blockScalar false
  else if c = '\'' then s.quotedScalar true
  else if c = '"' then s.quotedScalar false
  else if startsPlain s.inFlow c cs then s.plainScalar
  else none

def settle (s : Layout) : Option Layout := s.space.expireKeys.map fun s => s.leave s.column

def finish (s : Layout) : Option (List Token) :=
  (s.leave (-1)).dropKey.map fun s => s.tokens.reverse

/-- Every round but the last reads at least one character. -/
def run : (rounds : Nat) → Layout → Option (List Token)
  | 0, _ => none
  | rounds + 1, s =>
    match s.settle with
    | none => none
    | some s =>
      match s.rest with
      | [] => s.finish
      | c :: cs => (s.token c cs).bind (run rounds)

end Layout

def tokens? (t : Text) : Option (List Token) := Layout.run (t.length + 1) (.start t)

end Fixtures.Relaxed
