import Notebook.RenderArgs

/-! The parts of a notebook. -/
namespace Notebook

/-- A stretch of prose or a fenced block of a notebook, numbered by its place. -/
structure Chunk where
  index : Nat
  type : String
  name : Option String := none
  inputs : List String := []
  renderer : Option String := none
  renderArgs : RenderArgs := {}
  content : String
deriving Repr, DecidableEq

namespace Chunk

def markdown (index : Nat) (content : String) : Chunk :=
  { index := index, type := "md", content := content }

def field (key : String) (present : Bool) (value : Json) : List (String × Json) :=
  if present then [(key, value)] else []

def toJson (chunk : Chunk) : Json :=
  .object <|
    [("index", .number (toString chunk.index)), ("type", .string chunk.type)] ++
    field "name" chunk.name.isSome (.string (chunk.name.getD "")) ++
    field "inputs" (!chunk.inputs.isEmpty) (.array (chunk.inputs.map .string)) ++
    field "renderer" chunk.renderer.isSome (.string (chunk.renderer.getD "")) ++
    field "render_args" (!chunk.renderArgs.isEmpty) chunk.renderArgs.toJson ++
    [("content", .string chunk.content)]

end Chunk

end Notebook
