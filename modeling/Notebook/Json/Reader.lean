import Notebook.Text.Digits

/-! Reading JSON texts. Only strings are decoded; other scalars are checked and passed over. -/
namespace Notebook.Json

/-- A JSON value as it is read. A string that holds half of a surrogate pair has no text. -/
inductive Raw where
  | scalar
  | string (text : Option String)
  | array (items : List Raw)
  | object (members : List (Option String × Raw))

namespace Raw

def isSpace (c : Char) : Bool :=
  c == ' ' || c == '\n' || c == '\t' || c == '\r'

def skipSpace (cs : List Char) : List Char :=
  cs.dropWhile isSpace

def codeUnit? : List Char → Option (Nat × List Char)
  | a :: b :: c :: d :: rest => (Text.natOfDigits? 16 [a, b, c, d]).map (·, rest)
  | _ => none

def escaped? : Char → Option Char
  | '"' => some '"'
  | '\\' => some '\\'
  | '/' => some '/'
  | 'b' => some '\x08'
  | 'f' => some '\x0c'
  | 'n' => some '\n'
  | 'r' => some '\r'
  | 't' => some '\t'
  | _ => none

/-- The code units of a string, up to its closing quote; a plain character counts as one unit even
where it would take two. -/
def units? (cs : List Char) : Option (List Nat × List Char) :=
  match cs with
  | [] => none
  | '"' :: rest => some ([], rest)
  | '\\' :: 'u' :: rest =>
    match codeUnit? rest with
    | some (unit, more) =>
      if more.length ≤ rest.length then (units? more).map fun (us, r) => (unit :: us, r) else none
    | none => none
  | '\\' :: e :: rest =>
    match escaped? e with
    | some c => (units? rest).map fun (us, r) => (c.toNat :: us, r)
    | none => none
  | c :: rest =>
    if c.toNat < 0x20 || c == '\\' then none
    else (units? rest).map fun (us, r) => (c.toNat :: us, r)
termination_by cs.length
decreasing_by all_goals simp_all; try omega

/-- The text of code units: each high surrogate must be followed by a low one. -/
def text? : List Nat → Option (List Char)
  | [] => some []
  | u :: us =>
    if 0xD800 ≤ u && u < 0xDC00 then
      match us with
      | v :: vs =>
        if 0xDC00 ≤ v && v < 0xE000 then
          (text? vs).map (Char.ofNat (0x10000 + (u - 0xD800) * 0x400 + (v - 0xDC00)) :: ·)
        else none
      | [] => none
    else if 0xDC00 ≤ u && u < 0xE000 then none
    else (text? us).map (Char.ofNat u :: ·)

def string? (cs : List Char) : Option (Option String × List Char) :=
  (units? cs).map fun (us, rest) => ((text? us).map String.ofList, rest)

def digits? (cs : List Char) : Option (List Char) :=
  if cs.head?.any Char.isDigit then some (cs.dropWhile Char.isDigit) else none

def fraction? : List Char → Option (List Char)
  | '.' :: cs => digits? cs
  | cs => some cs

def exponent? : List Char → Option (List Char)
  | c :: cs =>
    if c == 'e' || c == 'E' then
      match cs with
      | '+' :: ds => digits? ds
      | '-' :: ds => digits? ds
      | ds => digits? ds
    else some (c :: cs)
  | [] => some []

def number? : List Char → Option (List Char)
  | '0' :: cs =>
    if cs.head?.any Char.isDigit then none else (fraction? cs).bind exponent?
  | cs => ((digits? cs).bind fraction?).bind exponent?

mutual

/-- A value at the start of a text. The fuel bounds the steps. -/
def value? : Nat → List Char → Option (Raw × List Char)
  | 0, _ => none
  | fuel + 1, cs =>
    match skipSpace cs with
    | 'n' :: 'u' :: 'l' :: 'l' :: rest => some (scalar, rest)
    | 't' :: 'r' :: 'u' :: 'e' :: rest => some (scalar, rest)
    | 'f' :: 'a' :: 'l' :: 's' :: 'e' :: rest => some (scalar, rest)
    | '"' :: rest => (string? rest).map fun (text, rest) => (string text, rest)
    | '[' :: rest =>
      match skipSpace rest with
      | ']' :: rest => some (array [], rest)
      | rest => (items? fuel rest).map fun (items, rest) => (array items, rest)
    | '{' :: rest =>
      match skipSpace rest with
      | '}' :: rest => some (object [], rest)
      | rest => (members? fuel rest).map fun (members, rest) => (object members, rest)
    | '-' :: rest => (number? rest).map (scalar, ·)
    | rest => (number? rest).map (scalar, ·)

def items? : Nat → List Char → Option (List Raw × List Char)
  | 0, _ => none
  | fuel + 1, cs => do
    let (item, rest) ← value? fuel cs
    match skipSpace rest with
    | ']' :: rest => some ([item], rest)
    | ',' :: rest => (items? fuel rest).map fun (items, rest) => (item :: items, rest)
    | _ => none

def members? : Nat → List Char → Option (List (Option String × Raw) × List Char)
  | 0, _ => none
  | fuel + 1, cs =>
    match skipSpace cs with
    | '"' :: rest => do
      let (key, rest) ← string? rest
      match skipSpace rest with
      | ':' :: rest =>
        let (value, rest) ← value? fuel rest
        match skipSpace rest with
        | '}' :: rest => some ([(key, value)], rest)
        | ',' :: rest =>
          (members? fuel rest).map fun (members, rest) => ((key, value) :: members, rest)
        | _ => none
      | _ => none
    | _ => none

end

def read? (cs : List Char) : Option Raw :=
  match value? (2 * cs.length + 2) cs with
  | some (raw, rest) => if (skipSpace rest).isEmpty then some raw else none
  | none => none

end Raw

end Notebook.Json
