import Notebook.Text.Split

/-! White space, and the trimming and splitting that depend on it. -/
namespace Notebook.Text

def isBlank (c : Char) : Bool :=
  let n := c.toNat
  (0x9 ≤ n && n ≤ 0xD) || n == 0x20 || n == 0x85 || n == 0xA0 || n == 0x1680 ||
    (0x2000 ≤ n && n ≤ 0x200A) || n == 0x2028 || n == 0x2029 || n == 0x202F || n == 0x205F ||
    n == 0x3000

def trimStart (cs : List Char) : List Char :=
  cs.dropWhile isBlank

def trimEnd (cs : List Char) : List Char :=
  (cs.reverse.dropWhile isBlank).reverse

def trim (cs : List Char) : List Char :=
  trimEnd (trimStart cs)

def trimmed (s : String) : String :=
  String.ofList (trim s.toList)

def nonBlank? (cs : List Char) : Option String :=
  if (trim cs).isEmpty then none else some (String.ofList (trim cs))

def words (cs : List Char) : List (List Char) :=
  (split isBlank cs).filter fun word => !word.isEmpty

def commaList (cs : List Char) : List String :=
  (split (· == ',') cs).filterMap nonBlank?

end Notebook.Text
