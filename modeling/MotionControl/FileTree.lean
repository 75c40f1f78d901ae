/-!
# Files, folders and paths

- `PathError`: why a path cannot be opened, with its wording.
- `FileTree`: what stands at a place, and `Files`: a tree as seen from one of its folders.
- `Files.read`: the bytes of the file at a path.
- `Files.checkWritable`: whether a file can be written at a path.
-/

namespace MotionControl

/-- Why a path cannot be opened. -/
inductive PathError where
  | missing
  /-- The path goes on behind something that is no folder. -/
  | notFolder
  /-- A folder stands where a file is needed. -/
  | folder
  | tooLong
  | other (reason : String)
  deriving Repr, DecidableEq

namespace PathError

/-- What the operating system says about it. -/
def message : PathError → String
  | missing => "No such file or directory (os error 2)"
  | notFolder => "Not a directory (os error 20)"
  | folder => "Is a directory (os error 21)"
  | tooLong => "File name too long (os error 36)"
  | other reason => reason

/-- The error with a number of the operating system and a text of its own. -/
def ofCode (code : UInt32) (text : String) : PathError :=
  match code with
  | 2 => missing
  | 20 => notFolder
  | 21 => folder
  | 36 => tooLong
  | _ => other (text ++ " (os error " ++ toString code ++ ")")

end PathError

/-- What stands at a place. -/
inductive FileTree where
  | file (content : ByteArray)
  | folder (entries : List (String × FileTree))
  deriving Inhabited

namespace FileTree

/-- It has entries of its own. -/
def isFolder : FileTree → Bool
  | folder _ => true
  | file _ => false

/-- The longest name of a file, in bytes. -/
def longestName : Nat := 255

/-- The longest path, in bytes. -/
def longestPath : Nat := 4095

/-- A place and the folders around it, from the inside out. -/
abbrev Trail := List FileTree

/-- Goes from a place to what a name means there.  Nothing lies outside the root. -/
def enter (trail : Trail) (name : String) : Except PathError Trail :=
  match trail with
  | .folder entries :: outer =>
    if name = "" ∨ name = "." then .ok trail
    else if name = ".." then .ok (if outer.isEmpty then trail else outer)
    else if longestName < name.utf8ByteSize then .error .tooLong
    else
      match entries.find? (·.1 = name) with
      | some (_, place) => .ok (place :: trail)
      | none => .error .missing
  | _ => .error .notFolder

/-- Follows names from the root on. -/
def follow (root : FileTree) (names : List String) : Except PathError Trail :=
  names.foldlM enter [root]

end FileTree

/-- A tree of files as seen from the folder with the names `here`. -/
structure Files where
  root : FileTree
  here : List String

namespace Files

/-- The names that a path consists of, from the root on. -/
def names (files : Files) (path : String) : Except PathError (List String) :=
  if path.isEmpty then .error .missing
  else if FileTree.longestPath < path.utf8ByteSize then .error .tooLong
  else
    let names := path.splitOn "/"
    .ok (if names.head? = some "" then names else files.here ++ names)

/-- The bytes of the file at a path. -/
def read (files : Files) (path : String) : Except PathError ByteArray := do
  match ← files.root.follow (← files.names path) with
  | .file content :: _ => .ok content
  | _ => .error .folder

/-- Whether a file can be written at a path: it is there already, or only its last name
is missing.  A slash at the end asks for a folder. -/
def checkWritable (files : Files) (path : String) : Except PathError Unit := do
  let names := (← files.names path).reverse
  match names.dropWhile (·.isEmpty) with
  | [] => .error .folder
  | name :: outer =>
    let trail ← files.root.follow outer.reverse
    if names.head? = some "" ∧ trail.head?.any FileTree.isFolder then .error .folder
    else
      match FileTree.enter trail name with
      | .ok (.folder _ :: _) => .error .folder
      | .ok _ | .error .missing => .ok ()
      | .error e => .error e

end Files

end MotionControl
