import Notebook.Body
import Notebook.Content
import Notebook.Library
import Notebook.Module

/-! Compiling a document and all that it imports. -/
namespace Notebook

structure Document where
  text : String
  resource : Resource
deriving Repr, DecidableEq

/-- The module of a document with the modules of its imports. -/
inductive ModuleTree where
  | node (module : GeneratedModule) (imports : List ModuleTree)

def ModuleTree.module : ModuleTree → GeneratedModule
  | node module _ => module

def ModuleTree.imports : ModuleTree → List ModuleTree
  | node _ imports => imports

/-- A computation that keeps a journal and may fail. -/
abbrev Compile := ExceptT Error (StateM Journal)

namespace Compile

def note (n : Note) : Compile Unit :=
  modify fun j => { j with notes := j.notes ++ [n] }

def notes (ns : List Note) : Compile Unit :=
  modify fun j => { j with notes := j.notes ++ ns }

def call (c : Call) : Compile Unit :=
  modify fun j => { j with calls := j.calls ++ [c] }

def lift {α : Type} (result : Except Error α) : Compile α :=
  match result with
  | .ok a => pure a
  | .error e => throw e

def locate (library : Library) (specifier : String) (origin : Resource) : Compile Resource := do
  let before := (← get).calls
  call (.locate specifier origin)
  match library.locate before specifier origin with
  | .ok resource => do
    note (.located specifier resource)
    return resource
  | .error cause => throw (.resolution specifier cause)

def fetch (library : Library) (resource : Resource) : Compile String := do
  let before := (← get).calls
  note (.fetching resource)
  call (.fetch resource)
  match library.fetch before resource with
  | .ok text => return text
  | .error cause => throw (.fetch resource cause)

end Compile

def importNotes (site : Site) : List Chunk → Registry → List Note
  | [], _ => []
  | chunk :: chunks, registry =>
    match chunk.generate site registry with
    | .error _ => []
    | .ok (fragments, after) =>
      (if chunk.type = "imports" then [.registered fragments.length after.size] else []) ++
        importNotes site chunks after

structure Compiler where
  library : Library
  config : Config := {}

namespace Compiler

def childOf (level : String) (entry : RegistryEntry) (resource : Resource)
    (module : GeneratedModule) : ChildModule where
  specifier := entry.specifier
  resource := resource
  level := entry.level level
  binding := childBinding level entry.label
  defineName := module.defineName
  source := module.source
  definitions := module.definitions

/-- The library within reach: none of its documents once imports are nested too deeply. -/
def reachable (c : Compiler) (inner : Option (Document → String → Compile ModuleTree)) : Library :=
  if inner.isSome then c.library else c.library.limited 0

def importModule (c : Compiler) (inner : Option (Document → String → Compile ModuleTree))
    (origin : Resource) (level : String) (entry : RegistryEntry) :
    Compile (ChildModule × ModuleTree) := do
  let library := c.reachable inner
  let resource ← Compile.locate library entry.specifier origin
  let text ← Compile.fetch library resource
  match inner with
  | none => throw (.fetch resource Library.limitReached)
  | some compile =>
    let tree ← compile ⟨text, resource⟩ (entry.level level)
    return (childOf level entry resource tree.module, tree)

/-- Compiles one document at a level, with `inner` for its imports. These are followed one after the
other, each down to its own imports, since a library answers at once. -/
def compileWith (c : Compiler) (inner : Option (Document → String → Compile ModuleTree))
    (document : Document) (level : String) : Compile ModuleTree := do
  Compile.note (.compiling document.resource level)
  let content ← Compile.lift (Content.ofText document.text)
  Compile.note (.discovered content.chunks.length)
  let site : Site := ⟨document.resource, level, c.config⟩
  Compile.notes (importNotes site content.chunks {})
  let (body, registry) ← Compile.lift (Chunk.generateAll site content.chunks {})
  let imports ← registry.entries.mapM (c.importModule inner document.resource level)
  let children := imports.map Prod.fst
  Compile.note
    (.compiled document.resource content.chunks.length body.length children.length)
  let defineName := c.config.defineStem ++ level
  let module : GeneratedModule :=
    { level := level
      defineName := defineName
      frontmatter := content.frontmatter
      children := children
      body := body
      definitions := children.flatMap ChildModule.definitions ++ [defineName] }
  return .node module (imports.map Prod.snd)

/-- Compiles a document at a level with all that it imports. A chain of imports is followed over at
most `depth` documents; a fetch beyond that fails. -/
def compileTree (c : Compiler) : (depth : Nat) → Document → String → Compile ModuleTree
  | 0 => c.compileWith none
  | depth + 1 => c.compileWith (some (c.compileTree depth))

def compileModule (c : Compiler) (depth : Nat) (document : Document) (level : String) :
    Compile GeneratedModule := do
  return (← c.compileTree depth document level).module

/-- The source of a document compiled as the root. Names that collide are noted. -/
def compile (c : Compiler) (depth : Nat) (document : Document) : Compile String := do
  let module ← c.compileModule depth document ""
  Compile.notes (module.duplicates.map fun name => .collision name document.resource)
  return module.source

def compileResource (c : Compiler) (depth : Nat) (resource : Resource) : Compile String := do
  let text ← Compile.fetch c.library resource
  c.compile depth ⟨text, resource⟩

end Compiler

end Notebook
