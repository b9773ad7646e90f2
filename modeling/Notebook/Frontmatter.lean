import Notebook.Error
import Notebook.Text.Blank
import Notebook.Yaml.Document

/-! The mapping at the head of a notebook, between two lines of dashes. -/
namespace Notebook.Frontmatter

/-- The text up to the first line that is just `---`, and the text after that line. -/
def closing? (atLineStart : Bool) (cs : List Char) : Option (List Char × List Char) :=
  match atLineStart, cs with
  | true, ['-', '-', '-'] => some ([], [])
  | true, '-' :: '-' :: '-' :: '\n' :: rest => some ([], rest)
  | _, [] => none
  | _, c :: cs => (closing? (c == '\n') cs).map fun (body, rest) => (c :: body, rest)

/-- The frontmatter of a text, if its first line opens one and a later line closes it, and the
text that follows. -/
def split (cs : List Char) : Option (List Char) × List Char :=
  match (Text.after? ['-', '-', '-', '\n'] cs).bind (closing? true) with
  | some (body, rest) => (some body, rest)
  | none => (none, cs)

def read (body : Option (List Char)) : Except Error Yaml.Mapping :=
  match body.filter fun cs => !(Text.trim cs).isEmpty with
  | none => .ok []
  | some cs =>
    match Yaml.read cs with
    | .error cause => .error (.frontmatter cause)
    | .ok .null => .ok []
    | .ok (.mapping entries) => .ok entries
    | .ok value => .error (.frontmatterKind value.kind)

end Notebook.Frontmatter
