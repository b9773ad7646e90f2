import Notebook.Text.Blank

/-! Names of cells and the words that modify them. -/
namespace Notebook

structure CellName where
  name : Option String := none
  hidden : Bool := false
deriving Repr, DecidableEq

namespace CellName

/-- The name that a chunk gives its cell: leading words `hidden` hide it, and the words that are
left make the name. -/
def parse (raw : Option String) : CellName :=
  let words := Text.words (raw.getD "").toList
  let rest := words.dropWhile (· == "hidden".toList)
  { name := if rest.isEmpty then none else some (Text.joined " " (rest.map String.ofList))
    hidden := rest.length < words.length }

/-- For the name `viewof x` of a view, the name `x` of its value. -/
def viewValue? (n : CellName) : Option String :=
  n.name.bind fun name => (Text.after? "viewof ".toList name.toList).bind Text.nonBlank?

end CellName

end Notebook
