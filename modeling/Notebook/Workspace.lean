import Notebook.FileTree

/-! Paths as they are seen from a working directory. -/
namespace Notebook

structure Workspace where
  directory : Place
  files : FileTree

namespace Workspace

def pathLimit : Nat := 4095

def start (w : Workspace) (path : String) : Place :=
  if path.toList.head? = some '/' then [] else w.directory

/-- Refuses a path that is never looked up: one with a zero byte, an empty or an overlong one. -/
def allowed (path : String) : Except PathFault Unit :=
  if path.toList.contains '\x00' then .error .zeroByte
  else if path.isEmpty then .error .notFound
  else if pathLimit < path.utf8ByteSize then .error .tooLong
  else .ok ()

/-- The place that a path leads to, however long the path is. -/
def resolve (w : Workspace) (path : String) : Except PathFault Place :=
  if path.isEmpty then .error .notFound
  else w.files.follow (w.start path) (FileTree.parts path)

def locate (w : Workspace) (path : String) : Except PathFault Place := do
  allowed path
  w.resolve path

def along (w : Workspace) (path : String) : List Place :=
  FileTree.steps (w.start path) (FileTree.parts path)

def isFile (w : Workspace) (path : String) : Bool :=
  match w.locate path with
  | .ok place => (w.files.file? place).isSome
  | .error _ => false

def read (w : Workspace) (path : String) : Except PathFault String := do
  w.files.textAt (← w.locate path)

def target (w : Workspace) (path : String) : Except PathFault Place := do
  allowed path
  let parts := FileTree.parts path
  match parts.reverse.dropWhile (· == "") with
  | [] => .error .isDirectory
  | name :: above =>
    w.files.slot (w.start path) above.reverse name (above.length + 1 < parts.length)

def stem (place : Place) : String :=
  String.join (place.map ("/" ++ ·))

def absolute (place : Place) : String :=
  if place.isEmpty then "/" else stem place

end Workspace

end Notebook
