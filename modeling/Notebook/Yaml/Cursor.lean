/-! Characters, positions and folded line breaks. -/
namespace Notebook.Yaml

/-- A character that a document may hold. Carriage returns are removed before a document is
read. -/
def isPrintable (c : Char) : Bool :=
  let n := c.toNat
  n == 0x9 || n == 0xA || (0x20 ≤ n && n ≤ 0x7E) || n == 0x85 || (0xA0 ≤ n && n ≤ 0xD7FF) ||
    (0xE000 ≤ n && n ≤ 0xFFFD) || 0x10000 ≤ n

def isBreak (c : Char) : Bool :=
  c == '\n' || c == '\x85' || c == '\u2028' || c == '\u2029'

/-- A break as it stands in a scalar: the next-line character counts as a line feed. -/
def breakChar (c : Char) : Char :=
  if c == '\x85' then '\n' else c

def isSpace (c : Char) : Bool :=
  c == ' ' || c == '\t'

def isNameChar (c : Char) : Bool :=
  c.isAlphanum || c == '_' || c == '-'

def atGap : List Char → Bool
  | [] => true
  | c :: _ => isSpace c || isBreak c

def atDocumentMarker : List Char → Bool
  | '-' :: '-' :: '-' :: rest => atGap rest
  | '.' :: '.' :: '.' :: rest => atGap rest
  | _ => false

/-- A place in a document: bytes before it, lines before it, characters before it on its line. -/
structure Pos where
  index : Nat := 0
  line : Nat := 0
  column : Nat := 0
deriving Repr, DecidableEq

def Pos.rightBy (pos : Pos) (count : Nat) : Pos :=
  { pos with index := pos.index + count, column := pos.column + count }

def Pos.right (pos : Pos) : Pos :=
  pos.rightBy 1

def Pos.past (pos : Pos) (c : Char) : Pos :=
  { pos with index := pos.index + c.utf8Size, column := pos.column + 1 }

def Pos.down (pos : Pos) (c : Char) : Pos :=
  ⟨pos.index + c.utf8Size, pos.line + 1, 0⟩

structure Read (α : Type) where
  value : α
  rest : List Char
  pos : Pos

/-- The white space between two words of a scalar: spaces on one line, or the breaks crossed,
where the first may have been escaped away. -/
inductive Gap where
  | spaces (cs : List Char)
  | breaks (first : Option Char) (more : List Char)

namespace Gap

def empty : Gap := spaces []

def space (c : Char) : Gap → Gap
  | spaces cs => spaces (cs ++ [c])
  | breaks first more => breaks first more

def newline (c : Char) : Gap → Gap
  | spaces _ => breaks (some (breakChar c)) []
  | breaks first more => breaks first (more ++ [breakChar c])

def crossesLines : Gap → Bool
  | spaces _ => false
  | breaks _ _ => true

/-- What a gap contributes to the scalar: a single line feed becomes a space, and of several line
feeds the first is dropped. -/
def fold : Gap → List Char
  | spaces cs => cs
  | breaks none more => more
  | breaks (some first) more =>
    if first != '\n' then first :: more
    else if more.isEmpty then [' ']
    else more

end Gap

end Notebook.Yaml
