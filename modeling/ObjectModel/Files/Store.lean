import ObjectModel.Text.Bytes

/-!
# A directory of files

Files are named byte strings in one directory. A path names a file of the directory, the directory
itself, or nothing that can be opened. Main statement: which bytes a file holds after a write.
-/

namespace ObjectModel

/-- What a path names. -/
inductive Location where
  | directory
  | file (name : String)
  deriving DecidableEq, Repr

namespace Location

def longestName : Nat := 255

def longestPath : Nat := 4095

/-- The names that a path leads through; empty ones and the name of the current directory lead
nowhere. -/
def steps (path : String) : List String :=
  (path.splitOn "/").filter fun name => name ≠ "" ∧ name ≠ "."

/-- What a path names. Only files of the directory itself can be reached, a path that ends like a
directory's names no file, and a zero character stands in no path. What lies above the directory is
a directory as well. -/
def ofPath? (path : String) : Option Location :=
  if path.isEmpty ∨ path.contains '\x00' ∨ longestPath < path.utf8ByteSize then none
  else
    let steps := steps path
    if steps.all (· = "..") then some .directory
    else match steps with
      | [name] =>
        if path.startsWith "/" ∨ path.endsWith "/" ∨ path.endsWith "/."
            ∨ longestName < name.utf8ByteSize then none
        else some (.file name)
      | _ => none

end Location

/-- The files of the directory, by name. -/
structure FileStore where
  entries : List (String × ByteArray) := []

namespace FileStore

def get? (store : FileStore) (name : String) : Option ByteArray := store.entries.lookup name

def contents (store : FileStore) (name : String) : ByteArray := (store.get? name).getD .empty

def replace (name : String) (bytes : ByteArray) :
    List (String × ByteArray) → List (String × ByteArray)
  | [] => [(name, bytes)]
  | (other, old) :: rest =>
    if other = name then (name, bytes) :: rest else (other, old) :: replace name bytes rest

def put (store : FileStore) (name : String) (bytes : ByteArray) : FileStore :=
  ⟨replace name bytes store.entries⟩

/-- Contents with bytes written at a position; a gap before it is filled with zeros. -/
def overwrite (contents : ByteArray) (position : Nat) (bytes : Bytes) : ByteArray :=
  contents.extract 0 position ++
    (List.replicate (position - contents.size) 0 ++ bytes).toByteArray ++
    contents.extract (position + bytes.length) contents.size

end FileStore

end ObjectModel
