import Notebook.Cell.Fragment
import Notebook.Cell.Name
import Notebook.Cell.Script
import Notebook.Chunk.Basic
import Notebook.Config
import Notebook.ImportLine
import Notebook.Registry

/-! The statements that the chunks of a document generate. -/
namespace Notebook

inductive ChunkKind where
  | markdown
  | html
  | script
  | imports
deriving Repr, DecidableEq

def ChunkKind.ofType (type : String) : Except Error ChunkKind :=
  if type = "md" then .ok .markdown
  else if type = "html" then .ok .html
  else if type = "js" || type = "javascript" then .ok .script
  else if type = "imports" then .ok .imports
  else .error (.unknownChunkType type)

/-- What the statements of a document depend on besides its chunks. -/
structure Site where
  resource : Resource := {}
  level : String := ""
  config : Config := {}
deriving Repr, DecidableEq

def childBinding (level label : String) : String :=
  "child" ++ level ++ label

namespace Chunk

def templateFragments (chunk : Chunk) (tag : String) : List Fragment :=
  let name := CellName.parse chunk.name
  let code := Script.wrap (Script.template tag chunk.content) {} none
  [.define ((Cell.make name.name (tag :: chunk.inputs) (.function false false code)).hide name.hidden)]

def renderCall? (chunk : Chunk) : Option RenderCall :=
  chunk.renderer.map (⟨·, chunk.renderArgs⟩)

def scriptInputs (chunk : Chunk) : List String :=
  if chunk.renderer.isSome && !chunk.inputs.contains "render" then chunk.inputs ++ ["render"]
  else chunk.inputs

def scriptFragments (chunk : Chunk) : List Fragment :=
  let name := CellName.parse chunk.name
  let traits := ScriptTraits.analyze chunk.content
  let code := Script.wrap chunk.content traits chunk.renderCall?
  let body := CellBody.function traits.isAsync traits.isGenerator code
  let cell := (Cell.make name.name chunk.scriptInputs body).hide name.hidden
  let companion := match name.name, name.viewValue? with
    | some view, some value => [Fragment.define (Cell.viewValue view value name.hidden)]
    | _, _ => []
  .define cell :: companion

end Chunk

namespace ImportLine

def symbolFragments (i : ModuleImport) (binding : String) (hidden : Bool) : List Fragment :=
  if i.viewOf then
    [.bring ⟨"viewof " ++ i.name, i.newName.map ("viewof " ++ ·), binding⟩,
      .define (Cell.viewValue ("viewof " ++ i.localName) i.localName hidden)]
  else [.bring ⟨i.name, i.newName, binding⟩]

def fetchCell (site : Site) (i : FetchImport) (hidden : Bool) : Cell :=
  let url := site.config.rawUrl site.resource i.origin
  let code := "\n  return fetch(" ++ Text.quoted url ++ ")\n"
  (Cell.make (some i.name) [] (.function false false code)).hide hidden

def fragments (site : Site) (hidden : Bool) (registry : Registry) :
    ImportLine → List Fragment × Registry
  | fromModule i =>
    let (entry, registry) := registry.register i.specifier
    (symbolFragments i (childBinding site.level entry.label) hidden, registry)
  | load i => ([.define (fetchCell site i hidden)], registry)

def allFragments (site : Site) (hidden : Bool) :
    List ImportLine → Registry → List Fragment × Registry
  | [], registry => ([], registry)
  | line :: lines, registry =>
    let (first, registry) := line.fragments site hidden registry
    let (rest, registry) := allFragments site hidden lines registry
    (first ++ rest, registry)

end ImportLine

namespace Chunk

/-- The statements of an `imports` chunk. All its lines are read before a module is registered. -/
def importFragments (site : Site) (chunk : Chunk) (registry : Registry) :
    Except Error (List Fragment × Registry) := do
  let lines ← ImportLine.parseAll chunk.content
  return ImportLine.allFragments site (CellName.parse chunk.name).hidden lines registry

def generate (site : Site) (chunk : Chunk) (registry : Registry) :
    Except Error (List Fragment × Registry) := do
  match ← ChunkKind.ofType chunk.type with
  | .markdown => return (chunk.templateFragments "md", registry)
  | .html => return (chunk.templateFragments "html", registry)
  | .script => return (chunk.scriptFragments, registry)
  | .imports => chunk.importFragments site registry

def generateAll (site : Site) : List Chunk → Registry → Except Error (List Fragment × Registry)
  | [], registry => return ([], registry)
  | chunk :: chunks, registry => do
    let (first, registry) ← chunk.generate site registry
    let (rest, registry) ← generateAll site chunks registry
    return (first ++ rest, registry)

end Chunk

end Notebook
