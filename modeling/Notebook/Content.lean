import Notebook.Chunk.Segment
import Notebook.Frontmatter

/-! What a notebook holds. -/
namespace Notebook

structure Content where
  frontmatter : Yaml.Mapping
  chunks : List Chunk
deriving Repr, DecidableEq

namespace Content

def normal (cs : List Char) : List Char :=
  cs.filter (· != '\r')

def ofText (text : String) : Except Error Content := do
  let (body, rest) := Frontmatter.split (normal text.toList)
  let frontmatter ← Frontmatter.read body
  return ⟨frontmatter, Chunk.discover rest⟩

end Content

end Notebook
