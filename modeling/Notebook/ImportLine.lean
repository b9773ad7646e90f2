import Notebook.Error
import Notebook.Text.Blank
import Notebook.Text.Word

/-! The lines of an `imports` chunk.

A line imports a symbol, `{ [viewof] name [as [viewof] new-name] } from module`, or loads a file,
`name load origin`. Words are divided by white space, and what stands around the parts that are
read is ignored. -/
namespace Notebook

structure ModuleImport where
  name : String
  newName : Option String
  specifier : String
  /-- Whether the symbol is a view. -/
  viewOf : Bool
deriving Repr, DecidableEq

def ModuleImport.localName (i : ModuleImport) : String :=
  i.newName.getD i.name

structure FetchImport where
  name : String
  origin : String
deriving Repr, DecidableEq

inductive ImportLine where
  | fromModule (i : ModuleImport)
  | load (i : FetchImport)
deriving Repr, DecidableEq

namespace ImportLine

def afterBlanks? (cs : List Char) : Option (List Char) :=
  if cs.head?.any Text.isBlank then some (Text.trimStart cs) else none

def afterKeyword? (keyword cs : List Char) : Option (List Char) :=
  ((afterBlanks? cs).bind (Text.after? keyword)).bind afterBlanks?

def untilBreak (cs : List Char) : List Char :=
  cs.takeWhile (· != '\n')

/-- The symbol that ends at the first brace before a `from`, and the module after it. Both stand on
one line. -/
def symbolAndModule? : List Char → Option (List Char × List Char)
  | [] => none
  | c :: cs =>
    match if c = '}' then afterKeyword? "from".toList cs else none with
    | some rest => some ([], untilBreak rest)
    | none =>
      if c = '\n' then none
      else (symbolAndModule? cs).map fun (symbol, module) => (c :: symbol, module)

def moduleClause? : List Char → Option (List Char × List Char)
  | [] => none
  | c :: cs =>
    match if c = '{' then symbolAndModule? cs else none with
    | some parts => some parts
    | none => moduleClause? cs

def word? (cs : List Char) : Option (List Char) :=
  let word := cs.takeWhile Text.isWord
  if word.isEmpty then none else some word

def newName? (cs : List Char) : Option (List Char) :=
  (afterKeyword? "as".toList cs).bind fun rest =>
    match ((Text.after? "viewof".toList rest).bind afterBlanks?).bind word? with
    | some word => some word
    | none => word? rest

/-- The rest of a name up to the first `as` with a new name, or to the end if there is none. -/
def names : List Char → List Char × Option (List Char)
  | [] => ([], none)
  | c :: cs =>
    match newName? (c :: cs) with
    | some newName => ([], some newName)
    | none =>
      let (name, newName) := names cs
      (c :: name, newName)

/-- The ways to read `viewof` and white space before a name, in order of preference; the last is to
read neither. -/
def viewStarts (cs : List Char) : List (Bool × List Char) :=
  match Text.after? "viewof".toList cs with
  | none => [(false, cs)]
  | some rest =>
    let blanks := (rest.takeWhile Text.isBlank).length
    (List.range blanks).map (fun i => (true, rest.drop (blanks - i))) ++ [(false, cs)]

def symbolStarts (cs : List Char) : List (Bool × List Char) :=
  let inner := match cs with
    | c :: rest => if Text.isBlank c then viewStarts rest else []
    | [] => []
  inner ++ viewStarts cs

def symbol? (cs : List Char) : Option (Bool × List Char × Option (List Char)) :=
  (symbolStarts cs).findSome? fun (viewOf, rest) =>
    match rest with
    | [] => none
    | c :: cs =>
      let (name, newName) := names cs
      some (viewOf, c :: name, newName)

def nameAndOrigin? : List Char → Option (List Char × List Char)
  | [] => none
  | c :: cs =>
    match afterKeyword? "load".toList (c :: cs) with
    | some rest => some ([], untilBreak rest)
    | none =>
      if c = '\n' then none
      else (nameAndOrigin? cs).map fun (name, origin) => (c :: name, origin)

/-- The name and the origin around the first `load` of a text. The rest of a line that was `tried`
from its start is passed over: there is no `load` in it either. -/
def loadFrom? (tried : Bool) : List Char → Option (List Char × List Char)
  | [] => none
  | c :: cs =>
    match if tried then none else nameAndOrigin? (c :: cs) with
    | some parts => some parts
    | none => loadFrom? (c != '\n') cs

def loadClause? (cs : List Char) : Option (List Char × List Char) :=
  loadFrom? false cs

def moduleImport? (symbol module : List Char) : Option ImportLine := do
  let (viewOf, name, newName) ← symbol? symbol
  let name ← Text.nonBlank? name
  let specifier ← Text.nonBlank? module
  return .fromModule ⟨name, newName.map String.ofList, specifier, viewOf⟩

def fetchImport? (name origin : List Char) : Option ImportLine := do
  let name ← Text.nonBlank? name
  let origin ← Text.nonBlank? origin
  return .load ⟨name, origin⟩

/-- A line as an import. One that has the form of a symbol import is never a load. -/
def read? (cs : List Char) : Option ImportLine :=
  match moduleClause? cs with
  | some (symbol, module) => moduleImport? symbol module
  | none => (loadClause? cs).bind fun (name, origin) => fetchImport? name origin

def parse (cs : List Char) : Except Error ImportLine :=
  match read? cs with
  | some line => .ok line
  | none => .error (.importSyntax (String.ofList (Text.trim cs)))

/-- The imports that the lines of a text write. A blank line is malformed. -/
def parseAll (text : String) : Except Error (List ImportLine) :=
  (Text.lines text.toList).mapM parse

end ImportLine

end Notebook
