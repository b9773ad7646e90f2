import Notebook.Error
import Notebook.Text.Blank

/-! Where documents come from, and the record of asking for them. -/
namespace Notebook

/-- A question to a library: where a module is, as written in the document `origin`, or what the
text of a document is. -/
inductive Call where
  | locate (specifier : String) (origin : Resource)
  | fetch (resource : Resource)
deriving Repr, DecidableEq

def Call.isFetch : Call → Bool
  | fetch _ => true
  | locate _ _ => false

/-- A source of documents. A call is answered at once, before the next one is made. The answer may
depend on the calls made before, the oldest of which stands first. -/
structure Library where
  locate : List Call → String → Resource → Except Failure Resource
  fetch : List Call → Resource → Except Failure String

namespace Library

def limitReached : Failure :=
  .other "fetch limit reached"

def limited (limit : Nat) (library : Library) : Library where
  locate := library.locate
  fetch := fun calls resource =>
    if calls.countP Call.isFetch < limit then library.fetch calls resource
    else .error limitReached

def isQuote (c : Char) : Bool :=
  c == '"' || c == '\x27'

def unquoted (specifier : String) : String :=
  let cs := (Text.trim specifier.toList).dropWhile isQuote
  String.ofList (cs.reverse.dropWhile isQuote).reverse

def relative (specifier : String) (origin : Resource) : Except Failure Resource :=
  let path := unquoted specifier
  if path.isEmpty then .error (.notFound "empty module specifier") else .ok (origin.join path)

end Library

inductive Note where
  | fetching (resource : Resource)
  | compiling (resource : Resource) (level : String)
  | discovered (chunks : Nat)
  | registered (fragments modules : Nat)
  | located (specifier : String) (resource : Resource)
  | compiled (resource : Resource) (chunks fragments modules : Nat)
  | collision (name : String) (resource : Resource)
deriving Repr, DecidableEq

/-- The calls to the library and the notes taken so far, the oldest first. -/
structure Journal where
  calls : List Call := []
  notes : List Note := []
deriving Repr, DecidableEq

end Notebook
