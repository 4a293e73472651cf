/-! A tree of files, and reading text files by their path. -/

namespace Strapdown

/-- Why a path cannot be read as text. -/
inductive ReadFailure
  | notFound
  | notDirectory
  | isDirectory
  | nameTooLong
  | nulInPath
  | notText
  /-- A failure that only the system can name. -/
  | system (description : String)
deriving DecidableEq

def ReadFailure.message : ReadFailure → String
  | notFound => "No such file or directory (os error 2)"
  | notDirectory => "Not a directory (os error 20)"
  | isDirectory => "Is a directory (os error 21)"
  | nameTooLong => "File name too long (os error 36)"
  | nulInPath => "file name contained an unexpected NUL byte"
  | notText => "stream did not contain valid UTF-8"
  | system description => description

/-- The text of a file's bytes. -/
def textOf (bytes : ByteArray) : Except ReadFailure String :=
  match String.fromUTF8? bytes with
  | some text => .ok text
  | none => .error .notText

inductive FileTree
  | file (bytes : ByteArray)
  | directory (entries : List (String × FileTree))

namespace FileTree

/-- The longest name of a file, in bytes. -/
def maxName : Nat := 255

/-- The longest path, in bytes. -/
def maxPath : Nat := 4095

/-- Follows the names of a path from the first of the given directories; the others enclose it. -/
def walk : List FileTree → List String → Except ReadFailure FileTree
  | [], _ => .error .notFound
  | here :: _, [] => .ok here
  | file _ :: _, _ :: _ => .error .notDirectory
  | directory entries :: outer, name :: names =>
    if name = "" ∨ name = "." then walk (directory entries :: outer) names
    else if name = ".." then walk (if outer.isEmpty then [directory entries] else outer) names
    else if maxName < name.utf8ByteSize then .error .nameTooLong
    else match entries.lookup name with
      | none => .error .notFound
      | some next => walk (next :: directory entries :: outer) names
termination_by _ names => names

/-- The text at a path, which is taken from the root or from a directory directly below it. -/
def read (root here : FileTree) (path : String) : Except ReadFailure String := do
  if path.contains '\x00' then throw .nulInPath
  if path.isEmpty then throw .notFound
  if maxPath < path.utf8ByteSize then throw .nameTooLong
  let start := if path.startsWith "/" then [root] else [here, root]
  match ← walk start (path.splitOn "/") with
  | file bytes => textOf bytes
  | directory _ => throw .isDirectory

end FileTree
end Strapdown
