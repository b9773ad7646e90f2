import Notebook.Text.Split

/-! Files and directories. -/
namespace Notebook

inductive PathFault where
  | notFound
  | notDirectory
  | isDirectory
  | tooLong
  | zeroByte
  | notText
deriving Repr, DecidableEq

def PathFault.message : PathFault → String
  | notFound => "No such file or directory (os error 2)"
  | notDirectory => "Not a directory (os error 20)"
  | isDirectory => "Is a directory (os error 21)"
  | tooLong => "File name too long (os error 36)"
  | zeroByte => "file name contained an unexpected NUL byte"
  | notText => "stream did not contain valid UTF-8"

/-- A file or directory: the names that lead to it from the root. -/
abbrev Place := List String

/-- Files by their places, and directories that may be empty. All that leads to one of them is a
directory too. -/
structure FileTree where
  files : List (Place × ByteArray) := []
  directories : List Place := []

namespace FileTree

def nameLimit : Nat := 255

def file? (tree : FileTree) (place : Place) : Option ByteArray :=
  tree.files.lookup place

def isDirectory (tree : FileTree) (place : Place) : Bool :=
  place.isEmpty || tree.directories.any (place.isPrefixOf ·) ||
    tree.files.any fun f => place.isPrefixOf f.1 && place.length < f.1.length

def parts (path : String) : List String :=
  (Text.split (· == '/') path.toList).map String.ofList

/-- Follows the parts of a path from a place. Only a directory can be left, and the root is its own
parent. -/
def follow (tree : FileTree) : Place → (parts : List String) → Except PathFault Place
  | place, [] => .ok place
  | place, part :: parts =>
    if !tree.isDirectory place then .error .notDirectory
    else if part = "" || part = "." then tree.follow place parts
    else if part = ".." then tree.follow place.dropLast parts
    else if nameLimit < part.utf8ByteSize then .error .tooLong
    else
      let next := place ++ [part]
      if (tree.file? next).isSome || tree.isDirectory next then tree.follow next parts
      else .error .notFound

def steps : Place → (parts : List String) → List Place
  | place, [] => [place]
  | place, part :: parts =>
    if part = "" || part = "." then steps place parts
    else if part = ".." then place :: steps place.dropLast parts
    else place :: steps (place ++ [part]) parts

def textAt (tree : FileTree) (place : Place) : Except PathFault String :=
  match tree.file? place with
  | none => .error .isDirectory
  | some bytes =>
    match String.fromUTF8? bytes with
    | some text => .ok text
    | none => .error .notText

def put (tree : FileTree) (place : Place) (bytes : ByteArray) : FileTree :=
  { tree with files := (place, bytes) :: tree.files.filter (·.1 != place) }

/-- Where a new or replaced file goes: the part `name` of a path after the parts `above`, with a
slash after it or not. -/
def slot (tree : FileTree) (start : Place) (above : List String) (name : String)
    (hasSlash : Bool) : Except PathFault Place := do
  let directory ← tree.follow start above
  if !tree.isDirectory directory then .error .notDirectory
  else if name = "." || name = ".." || hasSlash then .error .isDirectory
  else if nameLimit < name.utf8ByteSize then .error .tooLong
  else if tree.isDirectory (directory ++ [name]) then .error .isDirectory
  else .ok (directory ++ [name])

end FileTree

end Notebook
