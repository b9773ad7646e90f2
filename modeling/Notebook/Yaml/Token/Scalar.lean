import Notebook.Text.Digits
import Notebook.Yaml.Cursor
import Notebook.Yaml.Error

/-! Scalars as they are written: plain, in quotes, and in blocks. -/
namespace Notebook.Yaml.Token

/-- The text inside single quotes, up to the closing quote. A quote is written twice; breaks are
folded. The text read so far is held in reverse. -/
def singleQuoted : List Char → Pos → Gap → List Char → Except Error (Read String)
  | [], _, _, _ => .error .unterminatedQuote
  | c :: cs, pos, gap, acc =>
    if isSpace c then singleQuoted cs pos.right (gap.space c) acc
    else if isBreak c then singleQuoted cs (pos.down c) (gap.newline c) acc
    else if pos.column = 0 && atDocumentMarker (c :: cs) then .error .documentMarkerInQuote
    else
      let acc := gap.fold.reverse ++ acc
      match c, cs with
      | '\x27', '\x27' :: rest => singleQuoted rest (pos.rightBy 2) .empty ('\x27' :: acc)
      | '\x27', rest => .ok ⟨String.ofList acc.reverse, rest, pos.right⟩
      | c, rest => singleQuoted rest (pos.past c) .empty (c :: acc)

def escaped? : Char → Option Char
  | '0' => some '\x00'
  | 'a' => some '\x07'
  | 'b' => some '\x08'
  | 't' => some '\t'
  | '\t' => some '\t'
  | 'n' => some '\n'
  | 'v' => some '\x0b'
  | 'f' => some '\x0c'
  | 'r' => some '\r'
  | 'e' => some '\x1b'
  | ' ' => some ' '
  | '"' => some '"'
  | '/' => some '/'
  | '\\' => some '\\'
  | 'N' => some '\x85'
  | '_' => some '\xa0'
  | 'L' => some '\u2028'
  | 'P' => some '\u2029'
  | _ => none

def codeLength? : Char → Option Nat
  | 'x' => some 2
  | 'u' => some 4
  | 'U' => some 8
  | _ => none

def charOfCode? (count : Nat) (cs : List Char) : Option Char :=
  let ds := cs.take count
  if ds.length < count then none
  else match Text.natOfDigits? 16 ds with
    | some n => if n.isValidChar then some (Char.ofNat n) else none
    | none => none

/-- The text inside double quotes, up to the closing quote, with escapes; an escaped break joins
two lines. The text read so far is held in reverse. -/
def doubleQuoted (cs : List Char) (pos : Pos) (gap : Gap) (acc : List Char) :
    Except Error (Read String) :=
  match cs with
  | [] => .error .unterminatedQuote
  | c :: cs =>
    if isSpace c then doubleQuoted cs pos.right (gap.space c) acc
    else if isBreak c then doubleQuoted cs (pos.down c) (gap.newline c) acc
    else if pos.column = 0 && atDocumentMarker (c :: cs) then .error .documentMarkerInQuote
    else
      let acc := gap.fold.reverse ++ acc
      match c, cs with
      | '"', rest => .ok ⟨String.ofList acc.reverse, rest, pos.right⟩
      | '\\', e :: rest =>
        if isBreak e then doubleQuoted rest (pos.right.down e) (.breaks none []) acc
        else match escaped? e, codeLength? e with
          | some d, _ => doubleQuoted rest (pos.rightBy 2) .empty (d :: acc)
          | none, some count =>
            match charOfCode? count rest with
            | some d =>
              doubleQuoted (rest.drop count) (pos.rightBy (2 + count)) .empty (d :: acc)
            | none => .error .badEscape
          | none, none => .error .badEscape
      | '\\', [] => .error .badEscape
      | c, rest => doubleQuoted rest (pos.past c) .empty (c :: acc)
termination_by cs.length
decreasing_by all_goals simp_all; try omega

structure Plain where
  text : String
  endsLine : Bool

def plainRead (rest : List Char) (pos : Pos) (gap : Option Gap) (acc : List Char) : Read Plain :=
  ⟨⟨String.ofList acc.reverse, gap.any Gap.crossesLines⟩, rest, pos⟩

/-- A plain scalar. It goes on over lines that are indented at least by `indent`, and ends before
a comment, a document marker, a colon before white space, and in flow collections before their
punctuation. The text read so far is held in reverse; the gap before the next word belongs to the
scalar only if a word follows. -/
def plain (inFlow : Bool) (indent : Nat) :
    List Char → Pos → Option Gap → List Char → Except Error (Read Plain)
  | [], pos, gap, acc => .ok (plainRead [] pos gap acc)
  | c :: cs, pos, gap, acc =>
    if isSpace c then
      if c == '\t' && gap.any Gap.crossesLines && pos.column < indent then .error .tabIndentation
      else plain inFlow indent cs pos.right (some ((gap.getD .empty).space c)) acc
    else if isBreak c then
      plain inFlow indent cs (pos.down c) (some ((gap.getD .empty).newline c)) acc
    else if gap.isSome && ((!inFlow && pos.column < indent) || c == '#' ||
        (pos.column == 0 && atDocumentMarker (c :: cs))) then
      .ok (plainRead (c :: cs) pos gap acc)
    else if inFlow && c == ':' && cs.head?.any (",?[]\x7b\x7d".contains ·) then
      .error .unexpectedColon
    else if (c == ':' && atGap cs) || (inFlow && ",[]\x7b\x7d".contains c) then
      .ok (plainRead (c :: cs) pos gap acc)
    else
      plain inFlow indent cs (pos.past c) none (c :: ((gap.getD .empty).fold.reverse ++ acc))

inductive Chomping where
  | strip
  | clip
  | keep
deriving DecidableEq

structure BlockHeader where
  chomping : Chomping
  indent : Option Nat

def chomping? : List Char → Option (Chomping × List Char)
  | '+' :: rest => some (.keep, rest)
  | '-' :: rest => some (.strip, rest)
  | _ => none

def indentation? : List Char → Except Error (Option (Nat × List Char))
  | c :: rest =>
    if c == '0' then .error .badBlockHeader
    else if c.isDigit then .ok (some (c.toNat - 48, rest))
    else .ok none
  | [] => .ok none

def blockHeader (cs : List Char) : Except Error (BlockHeader × List Char) := do
  match chomping? cs with
  | some (chomping, rest) =>
    match ← indentation? rest with
    | some (n, rest) => .ok (⟨chomping, some n⟩, rest)
    | none => .ok (⟨chomping, none⟩, rest)
  | none =>
    match ← indentation? cs with
    | some (n, rest) =>
      let (chomping, rest) := (chomping? rest).getD (.clip, rest)
      .ok (⟨chomping, some n⟩, rest)
    | none => .ok (⟨.clip, none⟩, cs)

/-- The rest of a line that may hold spaces and a comment, and nothing else. Gives the text after
the break. -/
def endOfLine? (cs : List Char) (pos : Pos) : Option (Read Unit) :=
  let spaces := cs.takeWhile isSpace
  let rest := cs.dropWhile isSpace
  let comment := if rest.head? == some '#' then rest.takeWhile (fun c => !isBreak c) else []
  let pos := (spaces ++ comment).foldl Pos.past pos
  match rest.drop comment.length with
  | [] => some ⟨(), [], pos⟩
  | c :: rest => if isBreak c then some ⟨(), rest, pos.down c⟩ else none

/-- A block scalar while it is read. The text is held in reverse; `leading` is the break that
ended the last line, `trailing` the breaks of the empty lines after it. -/
structure Block where
  indent : Option Nat
  deepest : Nat := 0
  text : List Char := []
  leading : Option Char := none
  trailing : List Char := []
  leadingBlank : Bool := false

namespace Block

/-- A line starts with the character `c`. In a folded scalar the break before it becomes a space,
or vanishes before empty lines, unless a line next to it starts with white space. -/
def startLine (literal : Bool) (c : Char) (b : Block) : Block :=
  let folds := !literal && b.leading == some '\n' && !b.leadingBlank && !isSpace c
  let joint :=
    if folds then (if b.trailing.isEmpty then [' '] else [])
    else b.leading.toList
  { b with
    text := c :: (b.trailing.reverse ++ joint.reverse ++ b.text)
    leading := none
    trailing := []
    leadingBlank := isSpace c }

def finish (chomping : Chomping) (b : Block) : String :=
  let leading := if chomping = .strip then [] else b.leading.toList
  let trailing := if chomping = .keep then b.trailing else []
  String.ofList (b.text.reverse ++ leading ++ trailing)

end Block

/-- The lines of a block scalar. In the margin of a line, spaces count up to the indentation,
which the first line with text decides if it is not given: the deepest column reached so far, but
more than `outer`. The scalar ends before a line that is indented otherwise. -/
def blockLines (literal : Bool) (chomping : Chomping) (outer : Nat) :
    (inMargin : Bool) → List Char → Pos → Block → Except Error (Read String)
  | _, [], pos, b => .ok ⟨b.finish chomping, [], pos⟩
  | false, c :: cs, pos, b =>
    if isBreak c then
      blockLines literal chomping outer true cs (pos.down c)
        { b with leading := some (breakChar c) }
    else blockLines literal chomping outer false cs (pos.past c) { b with text := c :: b.text }
  | true, c :: cs, pos, b =>
    let shallow := b.indent.all (pos.column < ·)
    if c == ' ' && shallow then blockLines literal chomping outer true cs pos.right b
    else if c == '\t' && shallow then .error .tabIndentation
    else
      let deepest := max b.deepest pos.column
      if isBreak c then
        blockLines literal chomping outer true cs (pos.down c)
          { b with deepest := deepest, trailing := b.trailing ++ [breakChar c] }
      else
        let indent := b.indent.getD (max deepest outer)
        if pos.column = indent then
          blockLines literal chomping outer false cs (pos.past c)
            ({ b with indent := some indent }.startLine literal c)
        else .ok ⟨b.finish chomping, c :: cs, pos⟩

def blockScalar (literal : Bool) (parent : Option Nat) (cs : List Char) (pos : Pos) :
    Except Error (Read String) := do
  let (header, rest) ← blockHeader cs
  match endOfLine? rest (pos.rightBy (cs.length - rest.length)) with
  | none => .error .badBlockHeader
  | some line =>
    let indent := header.indent.map (parent.getD 0 + ·)
    let outer := parent.elim 1 (· + 1)
    blockLines literal header.chomping outer true line.rest line.pos { indent := indent }

end Notebook.Yaml.Token
