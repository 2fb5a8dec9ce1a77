import Fixtures.CommandLine.Execution

/-! # The program

Reads the files that the command line asks for, runs it, and writes what it
gives.
-/

namespace Fixtures.Program

def fileError : IO.Error → FileError
  | .noFileOrDirectory _ _ _ => .notFound
  | .inappropriateType _ code details =>
    if code = 20 then .notDirectory else if code = 21 then .isDirectory else .other details
  | e => .other (toString e)

def readFile (name : Text) : IO (Except FileError Text) := do
  try
    let bytes ← IO.FS.readBinFile (String.ofList name)
    match FileContent.ofBytes bytes.toList with
    | .text t => return .ok t
    | _ => return .error .notText
  catch e => return .error (fileError e)

def withFile (files : FileReader) (name : Text) : IO FileReader := do
  let content ← readFile name
  return fun n => if n = name then content else files n

def environment : IO (List Text) := do
  match ← readFile "/proc/self/environ".toList with
  | .ok t => return Text.pieces ['\x00'] t.length t
  | .error _ => return []

def neededFiles (environment : List Text) (words : List Text) : IO FileReader := do
  let nothing : FileReader := fun _ => .error .notFound
  let configured := Properties.environmentValue? environment CommandLine.settingsVariable
  match CommandLine.read configured words with
  | .error _ => return nothing
  | .ok i =>
    let files ← match i.settings with
      | some path => withFile nothing path
      | none => pure nothing
    match i.settingsIn files with
    | .error _ => return files
    | .ok settings =>
      match i.command.file? settings with
      | some name => withFile files name
      | none => return files

def run (arguments : List String) : IO UInt32 := do
  let words := arguments.map String.toList
  let environment ← environment
  let files ← neededFiles environment words
  let e := CommandLine.run ⟨files, environment, fun _ => none⟩ words
  IO.print (String.ofList e.output)
  IO.eprint (String.ofList e.errorOutput)
  return UInt32.ofNat e.code

end Fixtures.Program

def main (arguments : List String) : IO UInt32 := Fixtures.Program.run arguments
