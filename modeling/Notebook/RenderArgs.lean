import Notebook.Json.Basic
import Notebook.Text.Blank

/-! The arguments of a renderer. -/
namespace Notebook

/-- Keys in the order of their first appearance, each with its value if it has one. -/
structure RenderArgs where
  entries : List (String × Option String) := []
deriving Repr, DecidableEq

namespace RenderArgs

def size (args : RenderArgs) : Nat :=
  args.entries.length

def isEmpty (args : RenderArgs) : Bool :=
  args.entries.isEmpty

def setFirst (key : String) (value : Option String) : List (String × Option String) → List (String × Option String)
  | [] => [(key, value)]
  | e :: entries => if e.1 = key then (e.1, value) :: entries else e :: setFirst key value entries

def insert (args : RenderArgs) (key : String) (value : Option String) : RenderArgs :=
  ⟨setFirst key value args.entries⟩

def get? (args : RenderArgs) (key : String) : Option (Option String) :=
  args.entries.lookup key

/-- The key and value that one piece of an argument list writes. What follows a second equals sign
is ignored, and a piece without a key writes nothing. -/
def setting? (piece : List Char) : Option (String × Option String) :=
  match Text.split (· == '=') (Text.trim piece) with
  | [] => none
  | key :: parts => (Text.nonBlank? key).map fun key =>
    (key, parts.head?.map fun value => String.ofList (Text.trim value))

def parse (list : List Char) : RenderArgs :=
  ((Text.split (· == ',') list).filterMap setting?).foldl
    (fun args e => args.insert e.1 e.2) {}

def toJson (args : RenderArgs) : Json :=
  .object (args.entries.filterMap fun e => e.2.map fun value => (e.1, .string value))

end RenderArgs

end Notebook
