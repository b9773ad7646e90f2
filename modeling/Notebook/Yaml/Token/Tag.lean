import Notebook.Decimal.Reader
import Notebook.Text.Digits
import Notebook.Yaml.Cursor
import Notebook.Yaml.Error
import Notebook.Yaml.Token

/-! Anchors, aliases, tags and directives as they are written. -/
namespace Notebook.Yaml.Token

def anchorName (cs : List Char) (pos : Pos) : Except Error (Read String) :=
  let name := cs.takeWhile isNameChar
  let rest := cs.dropWhile isNameChar
  if !name.isEmpty && (atGap rest || rest.head?.any ("?:,]\x7d%@\x60".contains ·)) then
    .ok ⟨String.ofList name, rest, pos.rightBy name.length⟩
  else .error .badAnchor

/-- A character of a tag address. Commas and square brackets are taken only where no flow
collection can be meant. -/
def isTagChar (wide : Bool) (c : Char) : Bool :=
  isNameChar c || ";/?:@&=+$.%!~*\x27()".contains c || (wide && ",[]".contains c)

def followers? (byte : Nat) : Option Nat :=
  if byte < 0x80 then some 0
  else if byte < 0xC0 then none
  else if byte < 0xE0 then some 1
  else if byte < 0xF0 then some 2
  else if byte < 0xF8 then some 3
  else none

def stillDue? (due byte : Nat) : Option Nat :=
  if due = 0 then followers? byte
  else if 0x80 ≤ byte && byte < 0xC0 then some (due - 1)
  else none

/-- The bytes of a tag address, where a percent sign and two hexadecimal digits write one. The
bytes of a character stand together; `due` of them are to come. -/
def addressBytes? : (due : Nat) → List Char → Option TagBytes
  | due, [] => if due = 0 then some [] else none
  | due, '%' :: a :: b :: cs => do
    let high ← Text.digit? 16 a
    let low ← Text.digit? 16 b
    let byte := 16 * high + low
    return byte.toUInt8 :: (← addressBytes? (← stillDue? due byte) cs)
  | due, c :: cs =>
    if due = 0 && c != '%' then (addressBytes? 0 cs).map (c.toNat.toUInt8 :: ·) else none

/-- The part of a tag address at the start of a text. A zero byte ends what counts of it. -/
def tagAddress (wide : Bool) (cs : List Char) (pos : Pos) : Except Error (Read TagBytes) :=
  let address := cs.takeWhile (isTagChar wide)
  match addressBytes? 0 address with
  | some bytes =>
    .ok ⟨bytes.takeWhile (· != 0), cs.dropWhile (isTagChar wide), pos.rightBy address.length⟩
  | none => .error .badTag

/-- The handle at the start of a text: an exclamation mark, and if a name and a second mark follow
then these too. -/
def tagHandle? : List Char → Option (List Char × List Char)
  | '!' :: cs =>
    let name := cs.takeWhile isNameChar
    match cs.dropWhile isNameChar with
    | '!' :: rest => some ('!' :: name ++ ['!'], rest)
    | rest => some ('!' :: name, rest)
  | _ => none

/-- A tag: `!<address>`, a handle with a suffix, or a local tag, whose handle is `!`. The lone mark
`!` is a tag without a handle. -/
def tagToken (inFlow : Bool) (cs : List Char) (pos : Pos) : Except Error (Read Token) := do
  let read ← match cs with
    | '!' :: '<' :: rest => do
      let address ← tagAddress true rest (pos.rightBy 2)
      match address.rest with
      | '>' :: more =>
        if address.rest.length = rest.length then .error .badTag
        else .ok (⟨.tag "" address.value, more, address.pos.right⟩ : Read Token)
      | _ => .error .badTag
    | _ =>
      match tagHandle? cs with
      | none => .error .badTag
      | some (handle, rest) =>
        let pos := pos.rightBy handle.length
        let suffix ← tagAddress false rest pos
        if handle.length ≥ 2 && handle.getLast? = some '!' then
          if suffix.rest.length = rest.length then .error .badTag
          else .ok ⟨.tag (String.ofList handle) suffix.value, suffix.rest, suffix.pos⟩
        else
          let name := (handle.drop 1).map (·.toNat.toUInt8) ++ suffix.value
          -- The lone mark stays a tag in front of a scalar too, where it does not just say that the
          -- scalar is no plain one.
          let token := if name.isEmpty then .tag "" [0x21] else .tag "!" name
          .ok ⟨token, suffix.rest, suffix.pos⟩
  if atGap read.rest || (inFlow && read.rest.head? = some ',') then .ok read else .error .badTag

def versionNumber? (cs : List Char) : Option (Nat × List Char) :=
  let ds := cs.takeWhile Char.isDigit
  if ds.isEmpty || ds.length > 9 then none
  else some (Decimal.natOfDigits ds, cs.dropWhile Char.isDigit)

def versionDirective? (cs : List Char) : Option (Token × List Char) := do
  let (major, rest) ← versionNumber? (cs.dropWhile isSpace)
  match rest with
  | '.' :: rest =>
    let (minor, rest) ← versionNumber? rest
    return (.version major minor, rest)
  | _ => none

def tagDirective? (cs : List Char) (pos : Pos) : Option (Token × List Char) := do
  let (handle, rest) ← tagHandle? (cs.dropWhile isSpace)
  let whole := handle.getLast? = some '!'
  if !whole || !rest.head?.any isSpace then none
  else
    let start := rest.dropWhile isSpace
    match tagAddress true start pos with
    | .ok address =>
      if address.rest.length = start.length || !atGap address.rest then none
      else return (.tagDirective (String.ofList handle) address.value, address.rest)
    | .error _ => none

end Notebook.Yaml.Token
