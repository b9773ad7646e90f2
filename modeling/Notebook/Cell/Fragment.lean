import Notebook.Text.Quoted
import Notebook.Text.Split

/-! The statements that make up the body of a module. -/
namespace Notebook

/-- The body of a cell: a function over its inputs, or an arrow with parameters of its own. -/
inductive CellBody where
  | function (isAsync isGenerator : Bool) (code : String)
  | arrow (params : List String) (expression : String)
deriving Repr, DecidableEq

structure Cell where
  name : Option String
  /-- Whether an observer is registered under the name. -/
  observed : Bool
  inputs : List String
  body : CellBody
deriving Repr, DecidableEq

structure ImportBinding where
  name : String
  /-- The name it gets in this module, if not its own. -/
  newName : Option String
  /-- The constant that holds the child module. -/
  moduleBinding : String
deriving Repr, DecidableEq

inductive Fragment where
  | define (cell : Cell)
  | bring (binding : ImportBinding)
deriving Repr, DecidableEq

namespace Cell

def make (name : Option String) (inputs : List String) (body : CellBody) : Cell :=
  ⟨name, name.isSome, inputs, body⟩

def hide (hidden : Bool) (cell : Cell) : Cell :=
  if hidden then { cell with observed := false } else cell

def viewValue (view value : String) (hidden : Bool) : Cell :=
  (make (some value) ["Generators", view] (.arrow ["G", "_"] "G.input(_)")).hide hidden

/-- The parameters that stand for the inputs: spaces become underscores. -/
def params (cell : Cell) : List String :=
  cell.inputs.map fun input =>
    String.ofList (input.toList.map fun c => if c = ' ' then '_' else c)

def observer (cell : Cell) : String :=
  match cell.observed, cell.name with
  | true, some name => "observer(" ++ Text.quoted name ++ ")"
  | _, _ => ""

def function (cell : Cell) : String :=
  match cell.body with
  | .function isAsync isGenerator code =>
    (if isAsync then "async " else "") ++ "function" ++ (if isGenerator then "*" else "") ++
      "(" ++ Text.joined ", " cell.params ++ ") \x7b " ++ code ++ "\x7d"
  | .arrow params expression => "(" ++ Text.joined ", " params ++ ") => " ++ expression

def text (cell : Cell) : String :=
  "main.variable(" ++ cell.observer ++ ").define(" ++
    cell.name.elim "" (fun name => Text.quoted name ++ ", ") ++
    "[" ++ Text.joined ", " (cell.inputs.map Text.quoted) ++ "], " ++ cell.function ++ ")"

end Cell

def ImportBinding.text (binding : ImportBinding) : String :=
  "main.import(" ++ Text.quoted binding.name ++ ", " ++
    binding.newName.elim "" (fun newName => Text.quoted newName ++ ", ") ++ binding.moduleBinding ++ ")"

def Fragment.text : Fragment → String
  | define cell => cell.text
  | bring binding => binding.text

end Notebook
