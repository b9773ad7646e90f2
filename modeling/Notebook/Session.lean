import Notebook.Body

/-! Work on chunks with one registry, which is changed in place. What has been registered before an
error stays registered, and after an error the work can go on with the next chunk. -/
namespace Notebook

abbrev Session := ExceptT Error (StateM Registry)

def Session.on {A : Type} (session : Session A) (registry : Registry) : Except Error A × Registry :=
  session.run.run registry

namespace ImportLine

def bindModule (site : Site) (specifier : String) : Session String := do
  let entry ← modifyGet (·.register specifier)
  return childBinding site.level entry.label

def perform (site : Site) (hidden : Bool) : ImportLine → Session (List Fragment)
  | fromModule i => return symbolFragments i (← bindModule site i.specifier) hidden
  | load i => return [.define (fetchCell site i hidden)]

def performAll (site : Site) (hidden : Bool) : List ImportLine → Session (List Fragment)
  | [] => return []
  | line :: lines => do
    let first ← line.perform site hidden
    let rest ← performAll site hidden lines
    return first ++ rest

end ImportLine

namespace Chunk

def perform (site : Site) (chunk : Chunk) : Session (List Fragment) := do
  match ← ChunkKind.ofType chunk.type with
  | .markdown => return chunk.templateFragments "md"
  | .html => return chunk.templateFragments "html"
  | .script => return chunk.scriptFragments
  | .imports =>
    let lines ← ImportLine.parseAll chunk.content
    ImportLine.performAll site (CellName.parse chunk.name).hidden lines

/-- The steps of chunks that are performed in order: each with its answer and the registry after it. -/
def performEach (site : Site) : List Chunk → Registry → List (Except Error (List Fragment) × Registry)
  | [], _ => []
  | chunk :: chunks, registry =>
    let step := (chunk.perform site).on registry
    step :: performEach site chunks step.2

end Chunk

end Notebook
