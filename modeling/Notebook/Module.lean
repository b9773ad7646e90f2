import Notebook.Cell.Fragment
import Notebook.Resource
import Notebook.Text.Blank
import Notebook.Yaml.Value

/-! Generated modules and their source texts. -/
namespace Notebook

/-- An imported module, ready to be placed in the module that imports it. -/
structure ChildModule where
  specifier : String
  resource : Resource
  level : String
  binding : String
  defineName : String
  source : String
  definitions : List String
deriving Repr, DecidableEq

/-- A pass over names: those that it has met, and those that it has met again. -/
structure Repeats where
  seen : List String := []
  found : List String := []
deriving Repr, DecidableEq

namespace Repeats

def meet (r : Repeats) (name : String) : Bool × Repeats :=
  if r.seen.contains name then (false, r) else (true, { r with seen := name :: r.seen })

def visit (r : Repeats) (name : String) : Repeats :=
  let (isNew, r) := r.meet name
  if !isNew && !r.found.contains name then { r with found := r.found ++ [name] } else r

end Repeats

structure GeneratedModule where
  level : String
  defineName : String
  frontmatter : Yaml.Mapping := []
  children : List ChildModule
  body : List Fragment
  definitions : List String
deriving Repr, DecidableEq

namespace GeneratedModule

def isRoot (m : GeneratedModule) : Bool :=
  m.level.isEmpty

/-- The functions that the source defines more than once. Levels are joined without a separator,
so two modules can get one name if a document imports more than ten. -/
def duplicates (m : GeneratedModule) : List String :=
  (m.definitions.foldl Repeats.visit {}).found

def importedText (m : GeneratedModule) : String :=
  Text.trimmed (Text.joined "\n" (m.children.map fun c => Text.trimmed c.source))

def instanceText (c : ChildModule) : String :=
  "  const " ++ c.binding ++ " = runtime.module(" ++ c.defineName ++ ")"

/-- The source up to the body: the imported modules, the head of the defining function, and the
constants that hold the imported modules. -/
def preamble (m : GeneratedModule) : String :=
  "\n// Imported modules\n" ++ m.importedText ++
    "\n\n// Transpiled user markdown to JavaScript\nexport" ++
    (if m.isRoot then " default " else " ") ++ "function " ++ m.defineName ++
    "(runtime, observer) \x7b\n  const main = runtime.module()\n" ++
    Text.joined "\n" (m.children.map instanceText) ++ "\n"

def postamble : String :=
  "\n  return main\n\x7d"

/-- The source text: preamble, statements and end, trimmed and without blank parts, each on lines
of its own. -/
def source (m : GeneratedModule) : String :=
  let parts := m.preamble :: m.body.map Fragment.text ++ [postamble]
  Text.joined "\n" (parts.filterMap fun part => Text.nonBlank? part.toList)

end GeneratedModule

end Notebook
