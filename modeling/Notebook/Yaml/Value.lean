/-! YAML values. -/
namespace Notebook.Yaml

inductive Value where
  | null
  | bool (value : Bool)
  | int (value : Int)
  | float (value : Float)
  | string (text : String)
  | sequence (items : List Value)
  | mapping (entries : List (Value × Value))
  | tagged (tag : String) (value : Value)
deriving Repr

abbrev Mapping := List (Value × Value)

namespace Value

mutual

-- Equality of nested types is not derived.
def alike : Value → Value → Bool
  | null, null => true
  | bool a, bool b => a = b
  | int a, int b => a = b
  | float a, float b => a = b
  | string a, string b => a = b
  | sequence xs, sequence ys => alikeItems xs ys
  | mapping xs, mapping ys => alikeEntries xs ys
  | tagged t a, tagged u b => t = u && alike a b
  | _, _ => false

def alikeItems : List Value → List Value → Bool
  | [], [] => true
  | x :: xs, y :: ys => alike x y && alikeItems xs ys
  | _, _ => false

def alikeEntries : List (Value × Value) → List (Value × Value) → Bool
  | [], [] => true
  | (k, v) :: xs, (l, w) :: ys => alike k l && alike v w && alikeEntries xs ys
  | _, _ => false

end

mutual

theorem alike_iff : (a b : Value) → (alike a b = true ↔ a = b)
  | null, b | bool _, b | int _, b | float _, b | string _, b => by cases b <;> simp [alike]
  | sequence xs, b => by cases b <;> simp [alike, alikeItems_iff xs]
  | mapping xs, b => by cases b <;> simp [alike, alikeEntries_iff xs]
  | tagged _ a, b => by cases b <;> simp [alike, alike_iff a]

theorem alikeItems_iff : (xs ys : List Value) → (alikeItems xs ys = true ↔ xs = ys)
  | [], ys => by cases ys <;> simp [alikeItems]
  | x :: xs, ys => by cases ys <;> simp [alikeItems, alike_iff x, alikeItems_iff xs]

theorem alikeEntries_iff : (xs ys : List (Value × Value)) → (alikeEntries xs ys = true ↔ xs = ys)
  | [], ys => by cases ys <;> simp [alikeEntries]
  | (k, v) :: xs, ys => by
    cases ys <;> simp [alikeEntries, alike_iff k, alike_iff v, alikeEntries_iff xs, Prod.ext_iff]

end

instance : DecidableEq Value :=
  fun a b => decidable_of_iff _ (alike_iff a b)

/-- Numbers as keys: zeros are one key and so are all values that are not numbers. -/
def sameFloat (x y : Float) : Bool :=
  x == y || (x.isNaN && y.isNaN)

mutual

/-- Whether two values are one key of a mapping. The order of a mapping's entries is ignored. -/
def same : Value → Value → Bool
  | null, null => true
  | bool a, bool b => a == b
  | int a, int b => a == b
  | float a, float b => sameFloat a b
  | string a, string b => a == b
  | sequence xs, sequence ys => sameItems xs ys
  | mapping xs, mapping ys => xs.length == ys.length && entriesAmong xs ys
  | tagged t a, tagged u b => t == u && same a b
  | _, _ => false

def sameItems : List Value → List Value → Bool
  | [], [] => true
  | x :: xs, y :: ys => same x y && sameItems xs ys
  | _, _ => false

def entriesAmong : List (Value × Value) → List (Value × Value) → Bool
  | [], _ => true
  | (k, v) :: rest, ys => ys.any (fun y => same k y.1 && same v y.2) && entriesAmong rest ys

end

def kind : Value → String
  | null => "null"
  | bool _ => "a boolean"
  | int _ => "a number"
  | float _ => "a number"
  | string _ => "a string"
  | sequence _ => "a sequence"
  | mapping _ => "a mapping"
  | tagged _ _ => "a tagged value"

end Value

end Notebook.Yaml
