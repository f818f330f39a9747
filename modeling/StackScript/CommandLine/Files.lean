set_option autoImplicit false

/-!
# Files

A session reads files through `Files`, a function on paths. `FileTree.read` is such a function: it
follows a path part by part, from the root or from the working directory, and the first part that
cannot be followed decides the error. Names and paths have limits, which are counted in bytes.
-/

namespace StackScript.CommandLine

/-! ## Reading -/

/-- Why a file could not be read. -/
inductive ReadError
  | notFound
  | permissionDenied
  | notADirectory
  | isADirectory
  | nameTooLong
  | notText
  | other (message : String)
deriving DecidableEq, Inhabited

/-- The wording of a read error. -/
def ReadError.message : ReadError → String
  | notFound => "No such file or directory (os error 2)"
  | permissionDenied => "Permission denied (os error 13)"
  | notADirectory => "Not a directory (os error 20)"
  | isADirectory => "Is a directory (os error 21)"
  | nameTooLong => "File name too long (os error 36)"
  | notText => "stream did not contain valid UTF-8"
  | other message => message

/-- What reading a file gives. -/
abbrev Content : Type := Except ReadError ByteArray

/-- The content of a file, as text. -/
def Content.text : Content → Except ReadError String
  | .error e => .error e
  | .ok bytes =>
    match String.fromUTF8? bytes with
    | some text => .ok text
    | none => .error .notText

/-- What can be read under each path. -/
abbrev Files : Type := String → Content

/-! ## File trees -/

/-- Files under the names that lead to them from the root, and a working directory. -/
structure FileTree where
  files : List (List String × ByteArray) := []
  workingDirectory : List String := []

namespace FileTree

/-- The most bytes in one name. -/
def nameLimit : Nat := 255

/-- The most bytes in a path. -/
def pathLimit : Nat := 4095

/-- Where a path leads: to a file, or to the directory with some names. -/
inductive Place
  | file (bytes : ByteArray)
  | directory (names : List String)

/-- The parts of a path between its slashes. -/
def parts (path : String) : List String := path.splitOn "/"

/-- Parts that stay in the directory they are met in. -/
def stays (part : String) : Bool := part == "" || part == "."

/-- The tree with one more file, under a path from the working directory. -/
def insert (tree : FileTree) (path : String) (bytes : ByteArray) : FileTree :=
  let names := tree.workingDirectory ++ (parts path).filter (!stays ·)
  { tree with files := (names, bytes) :: tree.files }

/-- Whether names lead to a directory: the working directory, or one on the way to it or to a
file. -/
def isDirectory (tree : FileTree) (names : List String) : Bool :=
  names.isPrefixOf tree.workingDirectory || tree.files.any fun (path, _) => names.isPrefixOf path

/-- What has a name in a directory. A name beyond the limit is refused before it is looked up. -/
def child (tree : FileTree) (directory : List String) (name : String) : Except ReadError Place :=
  let names := directory ++ [name]
  if nameLimit < name.utf8ByteSize then .error .nameTooLong
  else
    match tree.files.lookup names with
    | some bytes => .ok (.file bytes)
    | none => if tree.isDirectory names then .ok (.directory names) else .error .notFound

/-- Follows one part of a path. Nothing follows a file, not even the end of a path after a slash;
the root is the directory above itself. -/
def follow (tree : FileTree) : Place → String → Except ReadError Place
  | .file _, _ => .error .notADirectory
  | .directory names, part =>
    if stays part then .ok (.directory names)
    else if part = ".." then .ok (.directory names.dropLast)
    else tree.child names part

/-- Where the parts of a path are followed from: the root, if the path begins with a slash. -/
def start (tree : FileTree) : List String → Place
  | "" :: _ => .directory []
  | _ => .directory tree.workingDirectory

/-- Where a path leads. The empty path leads nowhere, and a path beyond the limit is not followed
at all. -/
def locate (tree : FileTree) (path : String) : Except ReadError Place :=
  if path = "" then .error .notFound
  else if pathLimit < path.utf8ByteSize then .error .nameTooLong
  else (parts path).foldlM tree.follow (tree.start (parts path))

/-- The content of the file that a path leads to. -/
def read (tree : FileTree) : Files := fun path =>
  match tree.locate path with
  | .error e => .error e
  | .ok (.file bytes) => .ok bytes
  | .ok (.directory _) => .error .isADirectory

end FileTree

end StackScript.CommandLine
