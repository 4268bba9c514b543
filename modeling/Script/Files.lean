/-! Files and the paths that lead to them: a path is followed name by name, and the first name
that leads nowhere decides what is wrong with it. -/

namespace Script

/-- Why a file cannot be read or made. -/
inductive FileFault where
  | missing
  | denied
  | notFolder
  | isFolder
  | nameTooLong
  deriving Repr, DecidableEq

namespace FileFault

/-- The number by which the operating system knows a fault. -/
def number : FileFault → Nat
  | .missing => 2
  | .denied => 13
  | .notFolder => 20
  | .isFolder => 21
  | .nameTooLong => 36

def description : FileFault → String
  | .missing => "No such file or directory"
  | .denied => "Permission denied"
  | .notFolder => "Not a directory"
  | .isFolder => "Is a directory"
  | .nameTooLong => "File name too long"

def message (fault : FileFault) : String :=
  fault.description ++ " (os error " ++ toString fault.number ++ ")"

def all : List FileFault := [.missing, .denied, .notFolder, .isFolder, .nameTooLong]

theorem mem_all (fault : FileFault) : fault ∈ all := by cases fault <;> decide

def ofNumber? (number : Nat) : Option FileFault := all.find? (·.number = number)

theorem ofNumber?_number (fault : FileFault) : ofNumber? fault.number = some fault := by
  cases fault <;> decide

end FileFault

/-- A path taken apart: where it starts, the names to follow, and whether it insists on ending at
a folder. Doubled slashes are as good as one. -/
structure Path where
  fromRoot : Bool
  names : List String
  toFolder : Bool
  deriving Repr, DecidableEq

namespace Path

/-- The longest path there is, in bytes. -/
def longest : Nat := 4095

/-- The longest name there is, in bytes. -/
def longestName : Nat := 255

/-- The pieces of a text between its slashes, the first of them apart. -/
def pieces : List Char → List Char × List (List Char)
  | [] => ([], [])
  | char :: rest =>
    let (first, more) := pieces rest
    if char = '/' then ([], first :: more) else (char :: first, more)

theorem slash_not_mem_pieces (chars : List Char) :
    '/' ∉ (pieces chars).1 ∧ ∀ piece ∈ (pieces chars).2, '/' ∉ piece := by
  induction chars with
  | nil => simp [pieces]
  | cons char rest ih =>
    by_cases slash : char = '/'
    · simpa [pieces, slash] using ih
    · simpa [pieces, slash, Ne.symm slash] using ih

def ofString (text : String) : Path :=
  let (first, more) := pieces text.toList
  { fromRoot := text.toList.head? = some '/'
    names := ((first :: more).filter fun piece => !piece.isEmpty).map String.ofList
    toFolder := text.toList.getLast? = some '/' }

/-- The path that a text stands for; nothing has the empty path. -/
def read (text : String) : Except FileFault Path :=
  if text.isEmpty then .error .missing
  else if longest < text.utf8ByteSize then .error .nameTooLong
  else .ok (ofString text)

end Path

/-- A place in the tree of folders: the names that lead to it, the innermost first. -/
abbrev Place := List String

/-- What stands at a place. -/
inductive Entry where
  | folder
  | file (content : List UInt8)
  deriving Repr, DecidableEq

/-- A tree of folders and files, and the folder where a path starts that does not start at the
root. -/
structure Files where
  entries : List (Place × Entry)
  working : Place

namespace Files

/-- What stands at a place; at the root there is always a folder. -/
def find? (files : Files) : Place → Option Entry
  | [] => some .folder
  | place => files.entries.lookup place

/-- The place to which a name leads from a place. That place has to be a folder, but nothing needs
to stand where the name leads. -/
def step (files : Files) (place : Place) (name : String) : Except FileFault Place :=
  match files.find? place with
  | none => .error .missing
  | some (.file _) => .error .notFolder
  | some .folder =>
    if name = "." then .ok place
    else if name = ".." then .ok place.tail
    else if Path.longestName < name.utf8ByteSize then .error .nameTooLong
    else .ok (name :: place)

def start (files : Files) (path : Path) : Place := if path.fromRoot then [] else files.working

/-- The place to which a path leads, whether something stands there or not. -/
def follow (files : Files) (path : Path) : Except FileFault Place :=
  path.names.foldlM files.step (files.start path)

/-- The folders on the way to a place. -/
def foldersTo : Place → List (Place × Entry)
  | [] => []
  | _ :: around => (around, .folder) :: foldersTo around

/-- Nothing but a folder to work in. -/
def ofWorking (working : Place) : Files := ⟨(working, .folder) :: foldersTo working, working⟩

/-- The place at which a file is put. -/
def placeOf (files : Files) (path : String) : Place :=
  (Path.ofString path).names.reverse ++ files.start (Path.ofString path)

/-- Puts a file at a path, and the folders that lead to it. -/
def put (files : Files) (path : String) (content : List UInt8) : Files :=
  let place := files.placeOf path
  { files with entries := (place, .file content) :: files.entries ++ foldersTo place }

/-- What was put last stands at its place, unless that is the root. -/
theorem find?_put (files : Files) (path : String) (content : List UInt8)
    (named : files.placeOf path ≠ []) :
    (files.put path content).find? (files.placeOf path) = some (.file content) := by
  unfold find? put
  split
  · contradiction
  · simp

/-- The content of the file at a path. -/
def content (files : Files) (path : String) : Except FileFault (List UInt8) := do
  let path ← Path.read path
  match files.find? (← files.follow path) with
  | none => .error .missing
  | some .folder => .error .isFolder
  | some (.file content) => if path.toFolder then .error .notFolder else .ok content

/-- The place of the file that is made at a path, or emptied if it is there already. Where the
path insists on a folder, the folder around it is refused in its stead. -/
def placeToWrite (files : Files) (path : String) : Except FileFault Place := do
  let path ← Path.read path
  match path.names.getLast? with
  | none => .error .isFolder
  | some last =>
    let around ← files.follow { path with names := path.names.dropLast }
    let place ← files.step around (if path.toFolder then "." else last)
    if files.find? place = some .folder then .error .isFolder else .ok place

end Files

end Script
