import Notebook.Decimal.Reader
import Notebook.Text.Digits
import Notebook.Yaml.Error
import Notebook.Yaml.Tag
import Notebook.Yaml.Value

/-! The values that scalars stand for. -/
namespace Notebook.Yaml.Scalar

def based? : List Char → Option Nat
  | '0' :: 'x' :: ds => Text.natOfDigits? 16 ds
  | '0' :: 'o' :: ds => Text.natOfDigits? 8 ds
  | '0' :: 'b' :: ds => Text.natOfDigits? 2 ds
  | _ => none

/-- Digits behind a leading zero, which are text and not a number. -/
def zeroPadded : List Char → Bool
  | '0' :: c :: cs => (c :: cs).all Char.isDigit
  | _ => false

def magnitude? (cs : List Char) : Option Nat :=
  match based? cs with
  | some n => some n
  | none => if zeroPadded cs then none else Text.natOfDigits? 10 cs

inductive Integer where
  | none
  | outOfRange
  | value (n : Int)

/-- An integer without a minus sign. It is a value below `2^64`, out of range from there up to 128
bits, and no integer beyond. -/
def nonNegative (ds : List Char) : Integer :=
  match magnitude? ds with
  | some n =>
    if n < Nat.pow 2 64 then .value n
    else if n < Nat.pow 2 128 then .outOfRange
    else .none
  | none => .none

/-- An integer with a sign if there is one. A negative one is a value from `-2^63` on, out of range
below that up to 128 bits, and no integer beyond. -/
def integer : List Char → Integer
  | '-' :: ds =>
    match magnitude? ds with
    | some n =>
      if n ≤ Nat.pow 2 63 then .value (-n)
      else if n ≤ Nat.pow 2 127 then .outOfRange
      else .none
    | none => .none
  | '+' :: ds => nonNegative ds
  | ds => nonNegative ds

def withoutPlus? : List Char → Option (List Char)
  | '+' :: '+' :: _ => none
  | '+' :: '-' :: _ => none
  | '+' :: cs => some cs
  | cs => some cs

def float? (text : String) : Option Float :=
  match withoutPlus? text.toList with
  | none => none
  | some cs =>
    let positive := String.ofList cs
    if positive ∈ [".inf", ".Inf", ".INF"] then some (1.0 / 0.0)
    else if text ∈ ["-.inf", "-.Inf", "-.INF"] then some (-1.0 / 0.0)
    else if text ∈ [".nan", ".NaN", ".NAN"] then some (0.0 / 0.0)
    else (Decimal.float? cs).filter Float.isFinite

def isNull (text : String) : Bool :=
  text ∈ ["null", "Null", "NULL", "~"]

def bool? (text : String) : Option Bool :=
  if text ∈ ["true", "True", "TRUE"] then some true
  else if text ∈ ["false", "False", "FALSE"] then some false
  else none

def plain (text : String) : Except Error Value :=
  if text.isEmpty || isNull text then .ok .null
  else match bool? text, integer text.toList with
    | some b, _ => .ok (.bool b)
    | none, .value n => .ok (.int n)
    | none, .outOfRange => .error .integerOutOfRange
    | none, .none =>
      let unsigned := match text.toList with
        | '-' :: cs => cs
        | '+' :: cs => cs
        | cs => cs
      match if zeroPadded unsigned then none else float? text with
      | some x => .ok (.float x)
      | none => .ok (.string text)

def untagged (text : String) (isPlain : Bool) : Except Error Value :=
  if isPlain then plain text else .ok (.string text)

def tagged (text : String) (isPlain : Bool) : Tag → Except Error Value
  | .bool => (bool? text).elim (.error .mistaggedScalar) fun b => .ok (.bool b)
  | .int =>
    match integer text.toList with
    | .value n => .ok (.int n)
    | _ => .error .mistaggedScalar
  | .float => (float? text).elim (.error .mistaggedScalar) fun x => .ok (.float x)
  | .null => if isNull text then .ok .null else .error .mistaggedScalar
  | .mark name => (untagged text isPlain).map (.tagged name)
  | .illegible => untagged text isPlain
  | .foreign => .ok (.string text)

def value (tag : Option Tag) (text : String) (isPlain : Bool) : Except Error Value :=
  tag.elim (untagged text isPlain) (tagged text isPlain)

end Notebook.Yaml.Scalar
