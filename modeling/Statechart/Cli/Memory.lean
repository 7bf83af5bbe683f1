import Statechart.Cli.Session

namespace Statechart.Cli

structure Memory where
  input : ByteArray
  files : List (String × ByteArray)
  programs : String → List String → String → Drawing

structure Trace where
  code : Nat
  output : String
  errors : String
  files : List (String × ByteArray)

namespace Memory

def missing : String := "No such file or directory (os error 2)"

def isFolder : String := "Is a directory (os error 21)"

def notFolder : String := "Not a directory (os error 20)"

/-- The parts of a path, those that stay where they are left out. -/
def parts (path : String) : List String :=
  ((Text.split '/' path.toList).map String.ofList).filter fun p => p ≠ "" ∧ p ≠ "."

def endsAsFolder (path : String) : Bool :=
  let last := (Text.split '/' path.toList).getLast?
  last = some [] || last = some ['.'] || last = some ['.', '.']

def find? (files : List (String × ByteArray)) (path : List String) : Option (String × ByteArray) :=
  files.find? fun f => parts f.1 = path

def holds (files : List (String × ByteArray)) (path : List String) : Bool :=
  path.all (· = "..") || files.any fun f => path.isPrefixOf (parts f.1) && parts f.1 ≠ path

def crosses (files : List (String × ByteArray)) (path : List String) : Bool :=
  (List.range path.length).any fun n => (find? files (path.take n)).isSome

def obstacle? (files : List (String × ByteArray)) (path : String) : Option String :=
  let ps := parts path
  if holds files ps then some isFolder
  else if crosses files ps then some notFolder
  else if !holds files ps.dropLast then some missing
  else if endsAsFolder path then
    some (if (find? files ps).isSome then notFolder else isFolder)
  else none

def readFile (files : List (String × ByteArray)) (path : String) : Except String ByteArray :=
  match obstacle? files path with
  | some reason =>
    .error (if reason = isFolder ∧ !holds files (parts path) then missing else reason)
  | none =>
    match find? files (parts path) with
    | some f => .ok f.2
    | none => .error missing

def writeFile (files : List (String × ByteArray)) (path : String) (content : ByteArray) :
    Except String (List (String × ByteArray)) :=
  match obstacle? files path with
  | some reason => .error reason
  | none =>
    match find? files (parts path) with
    | some f => .ok (files.map fun g => if g.1 = f.1 then (f.1, content) else g)
    | none => .ok (files ++ [(Text.joined "/" (parts path), content)])

def run (m : Memory) (t : Trace) : Session → Trace
  | .exit code => { t with code := code }
  | .print text next => run m { t with output := t.output ++ text } next
  | .report text next => run m { t with errors := t.errors ++ text } next
  | .read .standardInput next => run m t (next (.ok m.input))
  | .read (.file path) next => run m t (next (readFile t.files path))
  | .write path content next =>
    match writeFile t.files path content with
    | .error e => run m t (next (.error e))
    | .ok files => run m { t with files := files } (next (.ok ()))
  | .draw program arguments graph next => run m t (next (m.programs program arguments graph))

def after (m : Memory) (s : Session) : Trace :=
  run m ⟨0, "", "", m.files⟩ s

def written (m : Memory) (t : Trace) : List (String × ByteArray) :=
  t.files.filter fun f => (find? m.files (parts f.1)).all fun g => g.2.data ≠ f.2.data

end Memory

end Statechart.Cli
