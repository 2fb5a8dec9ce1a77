import Fixtures.Relaxed.Token

/-! # Tags and anchors

The tokens made of names: `&anchor`, `*alias`, `!tag`, `!handle!suffix` and
`!<verbatim>`. A tag is written in ASCII, and its percent escapes stand for bytes.
Its bytes tell tags of the document's own, which start with a mark, from those of
the core types and from foreign ones.
-/

namespace Fixtures.Relaxed

def isTagSign (c : Char) : Bool :=
  isName c || [';', '/', '?', ':', '@', '&', '=', '+', '$', '.', '%', '!', '~', '*', '\'', '(', ')'].elem c

/-- Signs of a tag that would end it between brackets, unless it is verbatim. -/
def isFlowSign (c : Char) : Bool := c == ',' || c == '[' || c == ']'

/-- How many bytes follow a first byte in one character, by its leading bits. -/
def followers? (first : Nat) : Option Nat :=
  if first < 0x80 then some 0
  else if 0xC0 ≤ first && first < 0xE0 then some 1
  else if 0xE0 ≤ first && first < 0xF0 then some 2
  else if 0xF0 ≤ first && first < 0xF8 then some 3
  else none

/-- How many bytes are due after an escaped one, if so many were due before. -/
def dueAfter? (due byte : Nat) : Option Nat :=
  match due with
  | 0 => followers? byte
  | due + 1 => if 0x80 ≤ byte && byte < 0xC0 then some due else none

/-- The bytes of a tag with its escapes read, of which so many are still due. The
escapes of one character must follow each other. -/
def tagBytes? : (due : Nat) → Text → Option (List UInt8)
  | 0, [] => some []
  | _ + 1, [] => none
  | due, '%' :: a :: b :: rest =>
    match Json.Reader.hexValue? a, Json.Reader.hexValue? b with
    | some x, some y =>
      (dueAfter? due (16 * x + y)).bind fun due =>
        (tagBytes? due rest).map (UInt8.ofNat (16 * x + y) :: ·)
    | _, _ => none
  | 0, c :: rest => if c = '%' then none else (tagBytes? 0 rest).map (UInt8.ofNat c.toNat :: ·)
  | _ + 1, _ :: _ => none

/-- The bytes that count in a tag, which are those before the first zero. -/
def tagContent? (t : Text) : Option (List UInt8) := (tagBytes? 0 t).map (·.takeWhile (· != 0))

/-- The rest of a tag, which may be empty only if something precedes it. -/
def tagRest? (verbatim mayBeEmpty : Bool) (t : Text) : Option (List UInt8 × Text) :=
  let ok (c : Char) : Bool := isTagSign c || (verbatim && isFlowSign c)
  let signs := t.takeWhile ok
  if signs.isEmpty && !mayBeEmpty then none
  else (tagContent? signs).map fun bytes => (bytes, t.dropWhile ok)

/-- A tag handle, from its first mark: marks and the name between them. -/
def handle (t : Text) : Text × Text :=
  let name := (t.drop 1).takeWhile isName
  let rest := (t.drop 1).dropWhile isName
  if rest.head? = some '!' then ('!' :: (name ++ ['!']), rest.drop 1) else ('!' :: name, rest)

/-- A handle in the proper sense has a mark at its end as well. -/
def isHandle (h : Text) : Bool := 2 ≤ h.length && h.getLast? == some '!'

def asciiBytes (t : Text) : List UInt8 := t.map fun c => UInt8.ofNat c.toNat

def tagParts? (t : Text) : Option (Text × List UInt8 × Text) :=
  match t with
  | '!' :: '<' :: rest =>
    match tagRest? true false rest with
    | some (suffix, '>' :: rest) => some ([], suffix, rest)
    | _ => none
  | _ =>
    let (h, rest) := handle t
    if isHandle h then
      (tagRest? false false rest).map fun r => (h, r.1, r.2)
    else
      match tagRest? false true rest with
      | none => none
      | some (more, rest) =>
        let suffix := asciiBytes (h.drop 1) ++ more
        if suffix.isEmpty then some ([], asciiBytes ['!'], rest) else some (['!'], suffix, rest)

/-- A tag ends before white space, or between brackets before a comma. -/
def tag? (flow : Bool) (t : Text) : Option (Token × Text) :=
  match tagParts? t with
  | none => none
  | some (h, suffix, rest) =>
    if endsWord rest || (flow && rest.head? == some ',') then some (.tag h suffix, rest) else none

def anchorName? (t : Text) : Option (Text × Text) :=
  let name := t.takeWhile isName
  let rest := t.dropWhile isName
  let ended := endsWord rest ||
    rest.head?.any fun c => ['?', ':', ',', ']', '}', '%', '@', '\x60'].elem c
  if name.isEmpty || !ended then none else some (name, rest)

/-! ## What tags say -/

inductive CoreType
  | bool
  | int
  | float
  | null
  deriving DecidableEq, Repr

inductive Tag
  /-- a tag of the document's own, such as `!name` -/
  | own (name : Text)
  /-- like a tag of the document's own, but its bytes are no text -/
  | illegible
  | core (type : CoreType)
  | foreign
  deriving DecidableEq, Repr

namespace Tag

def coreLead : List UInt8 := asciiBytes "tag:yaml.org,2002:".toList

def coreType? (bytes : List UInt8) : Option CoreType :=
  let is (name : String) : Bool := bytes == coreLead ++ asciiBytes name.toList
  if is "bool" then some .bool
  else if is "int" then some .int
  else if is "float" then some .float
  else if is "null" then some .null
  else none

/-- The name after the mark of a tag. A second mark is passed over unless it is all
of the name, and the mark alone is its own name. -/
def ownName : Text → Text
  | [] => ['!']
  | '!' :: c :: rest => c :: rest
  | name => name

/-- A tag in full; its own name is what follows a mark. -/
def ofBytes (bytes : List UInt8) : Tag :=
  match bytes with
  | 0x21 :: rest =>
    match String.fromUTF8? ⟨rest.toArray⟩ with
    | some name => .own (ownName name.toList)
    | none => .illegible
  | _ =>
    match coreType? bytes with
    | some type => .core type
    | none => .foreign

def name? : Tag → Option Text
  | .own name => some name
  | _ => none

end Tag

end Fixtures.Relaxed
