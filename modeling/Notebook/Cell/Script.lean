import Notebook.RenderArgs
import Notebook.Text.Word

/-! What the text of a script shows about it, and the function body made of it. -/
namespace Notebook

/-- The markers found in a script. Comments and strings are searched like all else. -/
structure ScriptTraits where
  hasReturn : Bool := false
  isAsync : Bool := false
  isGenerator : Bool := false
deriving Repr, DecidableEq

namespace ScriptTraits

/-- Whether a word occurs in a text where `isBefore` holds of the character in front of it, or
nothing is in front of it, and `isAfter` of what follows. -/
def occurs (isBefore : Char → Bool) (isAfter : List Char → Bool) (word : List Char) :
    (mayStart : Bool) → List Char → Bool
  | mayStart, cs =>
    (mayStart && (Text.after? word cs).any isAfter) ||
      match cs with
      | [] => false
      | c :: cs => occurs isBefore isAfter word (isBefore c) cs

/-- The traits of a script: `return` stands between white space or the ends of the text, `await` and
`yield` stand before white space and not after a word character. -/
def analyze (script : String) : ScriptTraits :=
  let blankNext (cs : List Char) := cs.head?.any Text.isBlank
  let notWord (c : Char) := !Text.isWord c
  let cs := script.toList
  { hasReturn := occurs Text.isBlank (fun cs => cs.isEmpty || blankNext cs) "return".toList true cs
    isAsync := occurs notWord blankNext "await".toList true cs
    isGenerator := occurs notWord blankNext "yield".toList true cs }

def isBody (t : ScriptTraits) : Bool :=
  t.hasReturn || t.isGenerator

def wrapperStart (t : ScriptTraits) : String :=
  match t.isGenerator, t.isAsync with
  | true, true => "(async function*() \x7b"
  | true, false => "(function*() \x7b"
  | false, true => "await (async () => \x7b"
  | false, false => "(() => \x7b"

end ScriptTraits

structure RenderCall where
  renderer : String
  args : RenderArgs
deriving Repr, DecidableEq

namespace Script

def body (content : String) (traits : ScriptTraits) : String :=
  let content := Text.trimmed content
  if traits.isBody then "\n  " ++ content ++ "\n" else "return (\n  " ++ content ++ "\n)"

def wrap (content : String) (traits : ScriptTraits) (render : Option RenderCall) : String :=
  match render with
  | none => body content traits
  | some call =>
    "\n    const _content = " ++ traits.wrapperStart ++ "\n      " ++ body content traits ++
      "\n    \x7d)()\n    const _renderOptions = " ++ call.args.toJson.compact ++
      "\n    return render(_content, " ++ Text.quoted call.renderer ++ ", _renderOptions)\n"

def escapeTemplate (c : Char) : List Char :=
  if c = '\\' || c = '\x60' then ['\\', c] else [c]

/-- Prose as a template with a tag. An expression that is interpolated in it is escaped like the text
around it. -/
def template (tag content : String) : String :=
  tag ++ "\x60" ++ String.ofList ((Text.trim content.toList).flatMap escapeTemplate) ++ "\x60"

end Script

end Notebook
