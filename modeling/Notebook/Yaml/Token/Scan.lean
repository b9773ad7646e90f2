import Notebook.Yaml.Token.Scalar
import Notebook.Yaml.Token.Tag

/-! From the characters of a document to its tokens.

Indentation opens and closes block collections. A mapping key of one line is known as a key only
when its colon is met, so the place of the last token that could start one is kept for each level
of flow collections. -/
namespace Notebook.Yaml.Token

/-- A token that may turn out to start a key: its number, where it stands, and whether it must
be a key because it stands at the indentation of the enclosing block collection. -/
structure KeyMark where
  token : Nat
  pos : Pos
  required : Bool

structure Scanner where
  rest : List Char
  pos : Pos := {}
  tokens : Array Token := #[]
  indents : List Nat := []
  key : Option KeyMark := none
  /-- The possible keys on the levels around the current flow collection. -/
  outer : List (Option KeyMark) := []
  keyAllowed : Bool := true

namespace Scanner

def inFlow (s : Scanner) : Bool :=
  !s.outer.isEmpty

def push (t : Token) (s : Scanner) : Scanner :=
  { s with tokens := s.tokens.push t }

def insert (i : Nat) (t : Token) (s : Scanner) : Scanner :=
  { s with tokens := (s.tokens.extract 0 i).push t ++ s.tokens.extract i s.tokens.size }

def take (count : Nat) (t : Token) (s : Scanner) : Scanner :=
  { s with rest := s.rest.drop count, pos := s.pos.rightBy count }.push t

def resume {α : Type} (read : Read α) (s : Scanner) : Scanner :=
  { s with rest := read.rest, pos := read.pos }

def allowKey (allowed : Bool) (s : Scanner) : Scanner :=
  { s with keyAllowed := allowed }

def dropKey (s : Scanner) : Except Error Scanner :=
  if s.key.any KeyMark.required then .error .missingColon else .ok { s with key := none }

def markKey (s : Scanner) : Except Error Scanner :=
  if s.keyAllowed then do
    let required := !s.inFlow && s.indents.head? = some s.pos.column
    let s ← s.dropKey
    .ok { s with key := some ⟨s.tokens.size, s.pos, required⟩ }
  else .ok s

/-- Whether a possible key is out of reach: keys end on their line and within 1024 bytes. -/
def isStale (pos : Pos) (k : KeyMark) : Bool :=
  k.pos.line < pos.line || k.pos.index + 1024 < pos.index

def dropStaleKeys (s : Scanner) : Except Error Scanner :=
  let stale := (s.key :: s.outer).filterMap fun k => k.filter (isStale s.pos)
  if stale.any KeyMark.required then .error .missingColon
  else
    let fresh (k : Option KeyMark) := k.filter fun k => !isStale s.pos k
    .ok { s with key := fresh s.key, outer := s.outer.map fresh }

def closeBlocks (column : Option Nat) (s : Scanner) : Scanner :=
  if s.inFlow then s
  else
    let closes (indent : Nat) := column.all (· < indent)
    let ended := (s.indents.takeWhile closes).length
    { s with
      indents := s.indents.dropWhile closes
      tokens := s.tokens ++ (List.replicate ended Token.blockEnd).toArray }

/-- Opens a block collection at `column`, unless one is open there. Its start goes before the
token with the given number. -/
def openBlock (column : Nat) (start : Token) (number : Nat) (s : Scanner) : Scanner :=
  if s.inFlow || s.indents.head?.any (column ≤ ·) then s
  else { s.insert number start with indents := column :: s.indents }

/-- White space and comments before a token. A break in block context allows a key, and there a
tab may not stand where a key is allowed. -/
def skipGap (inFlow : Bool) : (inComment keyAllowed : Bool) → List Char → Pos → Read Bool
  | _, keyAllowed, [], pos => ⟨keyAllowed, [], pos⟩
  | inComment, keyAllowed, c :: cs, pos =>
    if isBreak c then skipGap inFlow false (keyAllowed || !inFlow) cs (pos.down c)
    else if inComment || c == '#' then skipGap inFlow true keyAllowed cs (pos.past c)
    else if c == ' ' || (c == '\t' && (inFlow || !keyAllowed)) ||
        (c == '\ufeff' && pos.column == 0) then
      skipGap inFlow false keyAllowed cs (pos.past c)
    else ⟨keyAllowed, c :: cs, pos⟩

/-- An indicator of block context: it may stand only where a key is allowed, and it opens a block
collection. -/
def blockIndicator (start : Token) (s : Scanner) : Except Error Scanner :=
  if s.inFlow then .ok s
  else if s.keyAllowed then .ok (s.openBlock s.pos.column start s.tokens.size)
  else .error .misplacedIndicator

def directive (s : Scanner) : Except Error Scanner := do
  let s := (← (s.closeBlocks none).dropKey).allowKey false
  let line := s.rest.drop 1
  let name := String.ofList (line.takeWhile isNameChar)
  let value := line.dropWhile isNameChar
  if !atGap value then .error .badDirective
  else
    let read? :=
      if name = "YAML" then versionDirective? value
      else if name = "TAG" then tagDirective? value s.pos
      else none
    match read? with
    | none => .error .badDirective
    | some (token, rest) =>
      match endOfLine? rest (s.pos.rightBy (s.rest.length - rest.length)) with
      | none => .error .badDirective
      | some read => .ok ((s.resume read).push token)

def documentMarker (token : Token) (s : Scanner) : Except Error Scanner := do
  let s ← (s.closeBlocks none).dropKey
  .ok ((s.allowKey false).take 3 token)

def openFlow (token : Token) (s : Scanner) : Except Error Scanner := do
  let s ← s.markKey
  .ok ({ s with key := none, outer := s.key :: s.outer, keyAllowed := true }.take 1 token)

def closeFlow (token : Token) (s : Scanner) : Except Error Scanner := do
  let s ← s.dropKey
  let s := match s.outer with
    | [] => s
    | key :: outer => { s with key := key, outer := outer }
  .ok ((s.allowKey false).take 1 token)

def flowEntry (s : Scanner) : Except Error Scanner := do
  .ok (((← s.dropKey).allowKey true).take 1 .flowEntry)

def blockEntry (s : Scanner) : Except Error Scanner := do
  let s ← s.blockIndicator .blockSequenceStart
  .ok (((← s.dropKey).allowKey true).take 1 .blockEntry)

def explicitKey (s : Scanner) : Except Error Scanner := do
  let s ← s.blockIndicator .blockMappingStart
  .ok (((← s.dropKey).allowKey (!s.inFlow)).take 1 .key)

/-- A colon before a value. If a key can have started on this level, the key gets its token. -/
def value (s : Scanner) : Except Error Scanner :=
  match s.key with
  | some k =>
    let s := (s.insert k.token .key).openBlock k.pos.column .blockMappingStart k.token
    .ok ({ s with key := none, keyAllowed := false }.take 1 .value)
  | none => do
    let s ← s.blockIndicator .blockMappingStart
    .ok ((s.allowKey (!s.inFlow)).take 1 .value)

/-- A token that may start a key and is followed by no key: an alias, an anchor, a tag or a scalar
on one line. -/
def keyStart {α : Type} (read : Except Error (Read α)) (token : α → Token) (s : Scanner) :
    Except Error Scanner := do
  let s ← s.markKey
  let r ← read
  .ok ((s.resume r).allowKey false |>.push (token r.value))

/-- A plain scalar. A key may start after it if breaks follow it. -/
def plainScalar (s : Scanner) : Except Error Scanner := do
  let s ← s.markKey
  let r ← plain s.inFlow (s.indents.head?.elim 0 (· + 1)) s.rest s.pos none []
  .ok ((s.resume r).allowKey r.value.endsLine |>.push (.scalar r.value.text true))

def blockText (literal : Bool) (s : Scanner) : Except Error Scanner := do
  let s ← s.dropKey
  let r ← blockScalar literal s.indents.head? (s.rest.drop 1) s.pos.right
  .ok ((s.resume r).allowKey true |>.push (.scalar r.value false))

def token (c : Char) (cs : List Char) (s : Scanner) : Except Error Scanner :=
  if s.pos.column = 0 && c == '%' then s.directive
  else if s.pos.column = 0 && atDocumentMarker (c :: cs) then
    s.documentMarker (if c == '-' then .documentStart else .documentEnd)
  else if c == '[' then s.openFlow .flowSequenceStart
  else if c == '{' then s.openFlow .flowMappingStart
  else if c == ']' then s.closeFlow .flowSequenceEnd
  else if c == '}' then s.closeFlow .flowMappingEnd
  else if c == ',' then s.flowEntry
  else if c == '-' && atGap cs then s.blockEntry
  else if c == '?' && (s.inFlow || atGap cs) then s.explicitKey
  else if c == ':' && (s.inFlow || atGap cs) then s.value
  else if c == '*' then s.keyStart (anchorName cs s.pos.right) .reference
  else if c == '&' then s.keyStart (anchorName cs s.pos.right) .anchor
  else if c == '!' then s.keyStart (tagToken s.inFlow (c :: cs) s.pos) id
  else if c == '|' && !s.inFlow then s.blockText true
  else if c == '>' && !s.inFlow then s.blockText false
  else if c == '\x27' then s.keyStart (singleQuoted cs s.pos.right .empty []) (.scalar · false)
  else if c == '"' then s.keyStart (doubleQuoted cs s.pos.right .empty []) (.scalar · false)
  else if isSpace c || "?:,[]\x7b\x7d#&*!|>\x27\"%@\x60".contains c &&
      !(!s.inFlow && "?:".contains c && !atGap cs) then .error .unexpectedCharacter
  else s.plainScalar

def run (s : Scanner) : Except Error (Array Token) := do
  let gap := skipGap s.inFlow false s.keyAllowed s.rest s.pos
  let s' ← ((s.resume gap).allowKey gap.value).dropStaleKeys
  let s' := s'.closeBlocks (some s'.pos.column)
  match s'.rest with
  | [] => do
    let s' ← (s'.closeBlocks none).dropKey
    .ok (s'.push .streamEnd).tokens
  | c :: cs =>
    let next ← s'.token c cs
    if _h : next.rest.length < s.rest.length then next.run else .error .unexpectedCharacter
termination_by s.rest.length

end Scanner

def scan (text : List Char) : Except Error (List Token) :=
  if text.all isPrintable then (Scanner.run { rest := text }).map Array.toList
  else .error .controlCharacter

end Notebook.Yaml.Token
