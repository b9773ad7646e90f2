import Notebook.Chunk.Basic
import Notebook.Chunk.Fence

/-! The chunks of a text: its fenced blocks and the prose around them. -/
namespace Notebook

inductive Segment where
  | prose (text : List Char)
  | fenced (fence : Fence)
deriving Repr, DecidableEq

namespace Fence

def typeAndName (header : List Char) : String × Option String :=
  match Text.cutAt? ['#'] header with
  | some (type, name) => (String.ofList (Text.trim type), Text.nonBlank? name)
  | none => (String.ofList (Text.trim header), none)

def toChunk (fence : Fence) (index : Nat) : Chunk where
  index := index
  type := (typeAndName fence.header).1
  name := (typeAndName fence.header).2
  inputs := fence.headerInputs.elim [] Text.commaList ++ fence.inputs.elim [] Text.commaList
  renderer := fence.renderer.map fun r => String.ofList r.1
  renderArgs := (fence.renderer.bind (·.2)).elim {} RenderArgs.parse
  content := String.ofList (Text.trim fence.body)

end Fence

namespace Segment

/-- The segments of a text: prose, which may be empty, before, between and after its blocks. -/
def ofText (cs : List Char) : List Segment :=
  match _h : Fence.first? cs with
  | none => [prose cs]
  | some (before, fence, rest) => prose before :: fenced fence :: ofText rest
termination_by cs.length
decreasing_by exact Fence.length_of_first? ‹_›

def toChunk? : Segment → Option (Nat → Chunk)
  | prose text => (Text.nonBlank? text).map fun content index => Chunk.markdown index content
  | fenced fence => some fence.toChunk

end Segment

def Chunk.discover (cs : List Char) : List Chunk :=
  ((Segment.ofText cs).filterMap Segment.toChunk?).mapIdx fun index chunk => chunk index

end Notebook
