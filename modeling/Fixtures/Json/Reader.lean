import Fixtures.Json.Numeral

/-! # Reading JSON

A reader is a machine that takes one character at a time. It keeps the
containers that are open, innermost first, and a state that says what may
follow. `Json.parse` runs it over a text; a fault is reported at the byte where
the machine notices it. Of a value that is passed over only the form counts: it
may be nested as deep as it likes, its numbers may be too large, and its strings
may hold lone surrogates.
-/

namespace Fixtures.Json

/-- A container that is not closed yet. -/
inductive Frame
  /-- an array with its items so far, last first -/
  | array (items : List Json)
  /-- an object with its fields so far and the name that was read last -/
  | object (fields : List (Text × Json)) (key : Text)

/-- How far an escape in a string has been read. -/
inductive Escape
  | none
  | backslash
  /-- four bytes of hexadecimal digits, perhaps after a leading surrogate -/
  | hex (taken value : Nat) (good : Bool) (lead : Option Nat)
  /-- after a leading surrogate -/
  | pairBackslash (lead : Nat)
  | pairLetter (lead : Nat)

inductive State
  /-- a value, also after a colon -/
  | value
  /-- the first item of an array or its end -/
  | firstItem
  /-- an item after a comma -/
  | item
  /-- the first name of an object or its end -/
  | firstKey
  /-- a name after a comma -/
  | key
  | colon
  /-- a comma or the end of a container -/
  | next
  /-- nothing but blanks -/
  | done (v : Json)
  /-- the rest of a word -/
  | word (rest : Text) (v : Json)
  | numeral (n : Numeral)
  /-- a string with its characters so far, last first -/
  | string (isKey : Bool) (seen : Text) (escape : Escape)

structure Reader where
  frames : List Frame
  state : State
  /-- how many containers were open where a value started that is passed over -/
  passing : Option Nat

/-- What is done with the fields of objects. -/
structure Policy where
  /-- how a field is entered into an object -/
  enter : Text → Json → List (Text × Json) → List (Text × Json)
  /-- whether the field that was named last is passed over -/
  passes : List Frame → Bool

namespace Reader

/-- Containers nest at most this deep. -/
def depthLimit : Nat := 127

def isSpace (c : Char) : Bool := c == ' ' || c == '\n' || c == '\t' || c == '\r'

def start : Reader := ⟨[], .value, none⟩

def goTo (r : Reader) (s : State) : Reader := { r with state := s }

/-- A complete value goes into the innermost container. -/
def deliver (p : Policy) (r : Reader) (v : Json) : Reader :=
  let passing := if r.passing = some r.frames.length then none else r.passing
  match r.frames with
  | [] => ⟨[], .done v, passing⟩
  | .array items :: rest => ⟨.array (v :: items) :: rest, .next, passing⟩
  | .object fields key :: rest => ⟨.object (p.enter key v fields) key :: rest, .next, passing⟩

def openFrame (r : Reader) (f : Frame) (s : State) : Except Fault Reader :=
  if r.passing.isSome || r.frames.length < depthLimit then .ok ⟨f :: r.frames, s, r.passing⟩
  else .error (.on .tooDeep)

def begin (r : Reader) (c : Char) : Except Fault Reader :=
  match c with
  | '"' => .ok (r.goTo (.string false [] .none))
  | '[' => r.openFrame (.array []) .firstItem
  | '{' => r.openFrame (.object [] []) .firstKey
  | 't' => .ok (r.goTo (.word ['r', 'u', 'e'] (.bool true)))
  | 'f' => .ok (r.goTo (.word ['a', 'l', 's', 'e'] (.bool false)))
  | 'n' => .ok (r.goTo (.word ['u', 'l', 'l'] .null))
  | _ =>
    match Numeral.start? c with
    | some n => .ok (r.goTo (.numeral n))
    | none => .error (.on .expectedValue)

/-- Passes over the value that starts here, if the policy says so. -/
def settle (p : Policy) (r : Reader) : Reader :=
  if r.passing.isNone && p.passes r.frames then { r with passing := some r.frames.length } else r

def close (p : Policy) (r : Reader) : Reader :=
  match r.frames with
  | .array items :: rest => deliver p { r with frames := rest } (.arr items.reverse)
  | .object fields _ :: rest => deliver p { r with frames := rest } (.obj fields)
  | [] => r

def follow (p : Policy) (r : Reader) (c : Char) : Except Fault Reader :=
  if isSpace c then .ok r
  else
    match r.frames with
    | [] => .error (.on .trailingCharacters)
    | .array _ :: _ =>
      if c = ',' then .ok (r.goTo .item)
      else if c = ']' then .ok (r.close p)
      else .error (.on .expectedItem)
    | .object _ _ :: _ =>
      if c = ',' then .ok (r.goTo .key)
      else if c = '}' then .ok (r.close p)
      else .error (.on .expectedField)

/-- A complete string is a value or the name of the next field. -/
def endString (p : Policy) (r : Reader) (isKey : Bool) (seen : Text) : Reader :=
  match isKey, r.frames with
  | true, .object fields _ :: rest => ⟨.object fields seen.reverse :: rest, .colon, r.passing⟩
  | _, _ => deliver p r (.str seen.reverse)

/-- What the character after a backslash stands for; `u` is not one of them. -/
def escaped? : Char → Option Char
  | '"' => some '"'
  | '\\' => some '\\'
  | '/' => some '/'
  | 'b' => some '\x08'
  | 'f' => some '\x0c'
  | 'n' => some '\n'
  | 'r' => some '\r'
  | 't' => some '\t'
  | _ => none

def hexValue? (c : Char) : Option Nat :=
  if c.isDigit then some (Decimal.digitValue c)
  else if 'a' ≤ c && c ≤ 'f' then some (c.toNat - 'a'.toNat + 10)
  else if 'A' ≤ c && c ≤ 'F' then some (c.toNat - 'A'.toNat + 10)
  else none

def isLeading (n : Nat) : Bool := 0xD800 ≤ n && n ≤ 0xDBFF

def isTrailing (n : Nat) : Bool := 0xDC00 ≤ n && n ≤ 0xDFFF

/-- Four hexadecimal digits, perhaps the second half of a surrogate pair. -/
def endHex (seen : Text) (n : Nat) (lead : Option Nat) : Except Fault (Text × Escape) :=
  match lead with
  | none =>
    if isTrailing n then .error (.on .loneSurrogate)
    else if isLeading n then .ok (seen, .pairBackslash n)
    else .ok (Char.ofNat n :: seen, .none)
  | some l =>
    if isTrailing n then
      .ok (Char.ofNat (0x10000 + (l - 0xD800) * 0x400 + (n - 0xDC00)) :: seen, .none)
    else .error (.on .loneSurrogate)

/-- A character inside a string, other than the closing quote. In a string that is
passed over, an escaped character is left out. -/
def inString (passing : Bool) (seen : Text) (e : Escape) (c : Char) :
    Except Fault (Text × Escape) :=
  match e with
  | .none =>
    if c = '\\' then .ok (seen, .backslash)
    else if c.toNat < 0x20 then .error (.on .controlCharacter)
    else .ok (c :: seen, .none)
  | .backslash =>
    if c = 'u' then .ok (seen, .hex 0 0 true none)
    else
      match escaped? c with
      | some d => .ok (d :: seen, .none)
      | none => .error (.on .invalidEscape)
  | .hex taken n good lead =>
    -- four bytes are taken before any of them is judged
    let digit := hexValue? c
    let good := good && digit.isSome
    let n := 16 * n + digit.getD 0
    if taken + c.utf8Size < 4 then .ok (seen, .hex (taken + c.utf8Size) n good lead)
    else if good then if passing then .ok (seen, .none) else endHex seen n lead
    else .error ⟨.invalidEscape, 4 - taken⟩
  | .pairBackslash l =>
    if c = '\\' then .ok (seen, .pairLetter l) else .error (.on .brokenSurrogate)
  | .pairLetter l =>
    if c = 'u' then .ok (seen, .hex 0 0 true (some l)) else .error (.on .brokenSurrogate)

/-- The name of a field must start with a quote. -/
def beginKey (r : Reader) (c : Char) : Except Fault Reader :=
  if c = '"' then .ok (r.goTo (.string true [] .none)) else .error (.on .keyNotString)

/-- A character in a numeral, or the first one after it. -/
def inNumeral (p : Policy) (r : Reader) (n : Numeral) (c : Char) : Except Fault Reader :=
  match n.step c with
  | .ok (some n) => .ok (r.goTo (.numeral n))
  | .ok none =>
    match n.value with
    | .ok x => (deliver p r (.num x)).follow p c
    | .error cause =>
      if r.passing.isSome then (deliver p r .null).follow p c else .error ⟨cause, 0⟩
  | .error f =>
    if r.passing.isSome && f.cause = .numberOutOfRange then .ok (r.goTo (.numeral (.vanishing false)))
    else .error f

/-- The machine after one character. -/
def step (p : Policy) (r : Reader) (c : Char) : Except Fault Reader :=
  match r.state with
  | .value => if isSpace c then .ok r else (r.settle p).begin c
  | .firstItem =>
    if isSpace c then .ok r
    else if c = ']' then .ok (r.close p)
    else r.begin c
  | .item =>
    if isSpace c then .ok r
    else if c = ']' then .error (.on .trailingComma)
    else r.begin c
  | .firstKey =>
    if isSpace c then .ok r
    else if c = '}' then .ok (r.close p)
    else r.beginKey c
  | .key =>
    if isSpace c then .ok r
    else if c = '}' then .error (.on .trailingComma)
    else r.beginKey c
  | .colon =>
    if isSpace c then .ok r
    else if c = ':' then .ok (r.goTo .value)
    else .error (.on .expectedColon)
  | .next => r.follow p c
  | .done _ => r.follow p c
  | .word [] _ => .error (.on .expectedWord)
  | .word (x :: rest) v =>
    if c = x then .ok (if rest.isEmpty then deliver p r v else r.goTo (.word rest v))
    else .error (.on .expectedWord)
  | .numeral n => r.inNumeral p n c
  | .string isKey seen e =>
    match e, c with
    | .none, '"' => .ok (r.endString p isKey seen)
    | _, _ =>
      match inString r.passing.isSome seen e c with
      | .error f => .error f
      | .ok (seen, e) => .ok (r.goTo (.string isKey seen e))

def finish (r : Reader) : Except Cause Json :=
  match r.state with
  | .done v => .ok v
  | .value => .error .endInValue
  | .item => .error .endInValue
  | .key => .error .endInValue
  | .word _ _ => .error .endInValue
  | .firstItem => .error .endInList
  | .firstKey => .error .endInObject
  | .colon => .error .endInObject
  | .string _ _ _ => .error .endInString
  | .next =>
    match r.frames with
    | .array _ :: _ => .error .endInList
    | _ => .error .endInObject
  | .numeral n =>
    match n.value with
    | .error cause => .error cause
    | .ok x =>
      match r.frames with
      | [] => .ok (.num x)
      | .array _ :: _ => .error .endInList
      | .object _ _ :: _ => .error .endInObject

/-- Runs the machine over a text. A fault comes with the number of bytes that
have been read. -/
def run (p : Policy) : Reader → Text → Except (Cause × Nat) Json
  | r, [] =>
    match r.finish with
    | .ok v => .ok v
    | .error cause => .error (cause, 0)
  | r, c :: cs =>
    match r.step p c with
    | .error f => .error (f.cause, f.within)
    | .ok r =>
      match run p r cs with
      | .ok v => .ok v
      | .error (cause, n) => .error (cause, c.utf8Size + n)

def read (p : Policy) (t : Text) : Except SyntaxError Json :=
  match run p start t with
  | .ok v => .ok v
  | .error (cause, n) => .error ⟨cause, .ofOffset t n⟩

end Reader

/-- Of several fields with one name the last one counts, and none is passed over. -/
def Policy.plain : Policy := ⟨fun k v fields => Table.insert k v fields, fun _ => false⟩

def parse (t : Text) : Except SyntaxError Json := Reader.read .plain t

end Fixtures.Json
