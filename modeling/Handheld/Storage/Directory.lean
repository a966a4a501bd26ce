namespace Handheld.Storage

/-- Why a file could not be read, as the operating system puts it. -/
structure Failure where
  code : Nat
  description : String
  deriving DecidableEq, Repr, Inhabited

namespace Failure

def message (f : Failure) : String :=
  s!"{f.description} (os error {f.code})"

def notFound : Failure := ⟨2, "No such file or directory"⟩

def notDirectory : Failure := ⟨20, "Not a directory"⟩

def isDirectory : Failure := ⟨21, "Is a directory"⟩

def permissionDenied : Failure := ⟨13, "Permission denied"⟩

def nameTooLong : Failure := ⟨36, "File name too long"⟩

/-- The failure with an error code; `description` stands in where the code is a rare one. -/
def ofCode (code : Nat) (description : String) : Failure :=
  ([notFound, permissionDenied, notDirectory, isDirectory, nameTooLong].find? (·.code = code)).getD
    ⟨code, description⟩

end Failure

/-- How files are read: the bytes of the file at a path, or why there are none. -/
abbrev Reader (m : Type → Type) := String → m (Except Failure (Array UInt8))

/-- What a name in a directory stands for. -/
inductive Entry
  | file (bytes : Array UInt8)
  | directory
  deriving DecidableEq, Repr, Inhabited

/-- A working directory: the entries below it with their paths, part by part. -/
structure Directory where
  entries : List (List String × Entry) := []
  deriving DecidableEq, Repr, Inhabited

namespace Directory

/-- The longest name of an entry and the longest path, in bytes. -/
def maxName : Nat := 255

def maxPath : Nat := 4095

/-- The parts of a path. -/
def parts (path : String) : List String :=
  path.splitOn "/"

/-- Adds an entry; a later one of the same path counts for more. -/
def add (d : Directory) (path : String) (e : Entry) : Directory :=
  ⟨(parts path, e) :: d.entries⟩

/-- The entry with exactly these parts. -/
def entry? (d : Directory) (place : List String) : Option Entry :=
  if place.isEmpty then some .directory else d.entries.lookup place

/-- Follows a path from a directory of which nothing but its existence is known: names lead
    nowhere there. -/
def followOutside : List String → Except Failure Entry
  | [] => .ok .directory
  | part :: rest =>
    if part = "" ∨ part = "." ∨ part = ".." then followOutside rest
    else if maxName < part.utf8ByteSize then .error .nameTooLong
    else .error .notFound

/-- Follows a path from the entry at `place`. Every part but the last must lead to a directory;
    empty parts and dots stay where they are, and two dots go back up. -/
def follow (d : Directory) (place : List String) (here : Entry) :
    List String → Except Failure Entry
  | [] => .ok here
  | part :: rest =>
    match here with
    | .file _ => .error .notDirectory
    | .directory =>
      if part = "" ∨ part = "." then follow d place here rest
      else if part = ".." then
        if place.isEmpty then followOutside rest else follow d place.dropLast .directory rest
      else if maxName < part.utf8ByteSize then .error .nameTooLong
      else
        match d.entry? (place ++ [part]) with
        | some e => follow d (place ++ [part]) e rest
        | none => .error .notFound

/-- What a path leads to. One that starts with a slash starts outside. -/
def entryAt (d : Directory) (path : String) : Except Failure Entry :=
  if path = "" then .error .notFound
  else if maxPath < path.utf8ByteSize then .error .nameTooLong
  else if path.startsWith "/" then followOutside (parts path)
  else d.follow [] .directory (parts path)

/-- The bytes of the file that a path leads to. -/
def read (d : Directory) (path : String) : Except Failure (Array UInt8) :=
  match d.entryAt path with
  | .ok (.file bytes) => .ok bytes
  | .ok .directory => .error .isDirectory
  | .error e => .error e

end Directory

end Handheld.Storage
