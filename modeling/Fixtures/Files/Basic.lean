import Fixtures.Text.Basic

/-! # Files

The files that names lead to, below one working directory. A name is a path
with `/` between its components; `.` and empty components stay where they are,
and `..` goes up, also out of the working directory, where nothing is known to
exist but directories.
-/

namespace Fixtures

inductive FileContent
  | text (t : Text)
  /-- bytes that are no text -/
  | binary
  | directory
  deriving DecidableEq, Repr

/-- Each file by the components of its name. The directories above a file exist
without an entry of their own. -/
abbrev Files := List (List Text × FileContent)

inductive FileError
  | notFound
  | notDirectory
  | isDirectory
  | notText
  | nameTooLong
  /-- a name with a zero character in it -/
  | invalidName
  /-- any other cause, in words -/
  | other (cause : String)
  deriving DecidableEq, Repr

/-- How the text of a named file is read. -/
abbrev FileReader := Text → Except FileError Text

def FileError.message : FileError → String
  | .notFound => "No such file or directory (os error 2)"
  | .notDirectory => "Not a directory (os error 20)"
  | .isDirectory => "Is a directory (os error 21)"
  | .notText => "stream did not contain valid UTF-8"
  | .nameTooLong => "File name too long (os error 36)"
  | .invalidName => "file name contained an unexpected NUL byte"
  | .other cause => cause

namespace FileContent

/-- Bytes are a text if they are its UTF-8 form. -/
def ofBytes (bytes : List UInt8) : FileContent :=
  match String.fromUTF8? ⟨bytes.toArray⟩ with
  | some s => .text s.toList
  | none => .binary

end FileContent

namespace Files

def components (name : Text) : List Text := Text.pieces ['/'] name.length name

/-- Whether a component leads nowhere else. -/
def staysPut (c : Text) : Bool := c.isEmpty || c == ['.']

def add (name : Text) (content : FileContent) (files : Files) : Files :=
  ((components name).filter (!staysPut ·), content) :: files

def longestComponent : Nat := 255

def longestName : Nat := 4095

/-- What is at a place below the working directory. -/
def at? (files : Files) (place : List Text) : Option FileContent :=
  match files.lookup place with
  | some content => some content
  | none =>
    if place.isEmpty || files.any (fun f => place.isPrefixOf f.1) then some .directory else none

/-- The content that components lead to from a place; no place stands for
everything outside of the working directory. -/
def walk (files : Files) : (place : Option (List Text)) → List Text → Except FileError FileContent
  | none, [] => .ok .directory
  | some place, [] =>
    match files.at? place with
    | some content => .ok content
    | none => .error .notFound
  | none, c :: rest =>
    if staysPut c ∨ c = ['.', '.'] then walk files none rest
    else if longestComponent < c.byteSize then .error .nameTooLong
    else .error .notFound
  | some place, c :: rest =>
    match files.at? place with
    | some .directory =>
      if staysPut c then walk files (some place) rest
      else if c = ['.', '.'] then
        walk files (if place.isEmpty then none else some place.dropLast) rest
      else if longestComponent < c.byteSize then .error .nameTooLong
      else walk files (some (place ++ [c])) rest
    | some _ => .error .notDirectory
    | none => .error .notFound

def find (files : Files) (name : Text) : Except FileError FileContent :=
  if name.elem '\x00' then .error .invalidName
  else if longestName < name.byteSize then .error .nameTooLong
  else
    match name with
    | [] => .error .notFound
    | '/' :: rest => files.walk none (components rest)
    | _ => files.walk (some []) (components name)

def read (files : Files) : FileReader := fun name =>
  match files.find name with
  | .ok (.text t) => .ok t
  | .ok .binary => .error .notText
  | .ok .directory => .error .isDirectory
  | .error e => .error e

def join (directory name : Text) : Text :=
  if name.head? = some '/' || directory.isEmpty then name
  else if directory.getLast? = some '/' then directory ++ name
  else directory ++ '/' :: name

end Files

end Fixtures
