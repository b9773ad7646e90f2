import Notebook.CommandLine.Log
import Notebook.Listing
import Notebook.Workspace

/-! Actions on files and on the standard streams, which may fail. What has been printed and written
before a failure is not taken back. -/
namespace Notebook.CommandLine

inductive Fault where
  | compile (error : Error)
  | path (fault : PathFault)
  | key (fault : KeyFault)
  | documentNotFound (document : String)
  | outsideRoot (document root : String)
deriving Repr, DecidableEq

def Fault.message : Fault → String
  | compile error => error.report
  | path fault => fault.message
  | key fault => fault.message
  | documentNotFound document => "Document not found: " ++ document
  | outsideRoot document root => "Document " ++ document ++ " is not inside root " ++ root

inductive Report where
  | usage (text : String)
  | log (text : String)
  | failed (fault : Fault)
  | compiled (resource : Resource) (output : String) (bytes : Nat)
  | listed (chunks : Nat) (document : String)
deriving Repr, DecidableEq

-- How long a command takes is not known to it.
def Report.text (elapsed : String) : Report → String
  | usage text => text
  | log text => text
  | failed fault => "Error: " ++ fault.message ++ "\n"
  | compiled resource output bytes =>
    "\x1b[32mCompiled\x1b[0m " ++ resource.text ++ " → " ++ output ++ " \x1b[2m(" ++
      toString bytes ++ " bytes, " ++ elapsed ++ ")\x1b[0m\n"
  | listed chunks document =>
    "\x1b[1m" ++ toString chunks ++ " chunks\x1b[0m in " ++ document ++ "\n"

/-- What actions change: the files, the two streams, and the paths that have been looked up. -/
structure World where
  workspace : Workspace
  stdout : String := ""
  reports : List Report := []
  paths : List String := []

namespace World

def print (text : String) (s : World) : World :=
  { s with stdout := s.stdout ++ text }

def report (r : Report) (s : World) : World :=
  { s with reports := s.reports ++ [r] }

def lookUp (paths : List String) (s : World) : World :=
  { s with paths := s.paths ++ paths }

def put (place : Place) (bytes : ByteArray) (s : World) : World :=
  { s with workspace := { s.workspace with files := s.workspace.files.put place bytes } }

end World

/-- An action may fail. It leaves a world in either case. -/
abbrev Shell := ExceptT Fault (StateM World)

namespace Shell

def lift {α : Type} (result : Except Fault α) : Shell α :=
  match result with
  | .ok a => pure a
  | .error fault => throw fault

def ofPath {α : Type} (result : Except PathFault α) : Shell α :=
  lift (result.mapError .path)

def ofCompile {α : Type} (result : Except Error α) : Shell α :=
  lift (result.mapError .compile)

def workspace : Shell Workspace :=
  return (← get).workspace

def print (text : String) : Shell Unit :=
  modify (·.print text)

def report (r : Report) : Shell Unit :=
  modify (·.report r)

def lookUp (paths : List String) : Shell Unit :=
  modify (·.lookUp paths)

def put (place : Place) (bytes : ByteArray) : Shell Unit :=
  modify (·.put place bytes)

def isFile (path : String) : Shell Bool := do
  lookUp [path]
  return (← workspace).isFile path

def resolve (path : String) : Shell Place := do
  lookUp [path]
  ofPath ((← workspace).resolve path)

def read (path : String) : Shell String := do
  lookUp [path]
  ofPath ((← workspace).read path)

/-- Opens a file for writing. It is empty after that, whether there was one before or not. -/
def create (path : String) : Shell Place := do
  lookUp [path]
  let place ← ofPath ((← workspace).target path)
  put place .empty
  return place

/-- Writes a file. Only its opening can fail. -/
def write (path text : String) : Shell Unit := do
  let place ← create path
  put place text.toUTF8

end Shell

end Notebook.CommandLine
