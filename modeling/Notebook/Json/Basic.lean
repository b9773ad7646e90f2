import Notebook.Text.Quoted
import Notebook.Text.Split

/-! JSON values and their texts: on one line, and indented by two spaces. -/
namespace Notebook

/-- A JSON value. Members of an object keep their order; a number is given by its text. -/
inductive Json where
  | null
  | bool (value : Bool)
  | number (text : String)
  | string (text : String)
  | array (items : List Json)
  | object (members : List (String × Json))

namespace Json

def compact : Json → String
  | null => "null"
  | bool value => if value then "true" else "false"
  | number text => text
  | string text => Text.quoted text
  | array items => "[" ++ Text.joined "," (items.map compact) ++ "]"
  | object members =>
    "\x7b" ++ Text.joined "," (members.map fun m => Text.quoted m.1 ++ ":" ++ compact m.2) ++ "\x7d"
decreasing_by
  · decreasing_tactic
  · rename_i h
    have := List.sizeOf_lt_of_mem h
    cases m
    simp at this ⊢
    omega

def newline (depth : Nat) : String :=
  "\n" ++ String.ofList (List.replicate (2 * depth) ' ')

def indented (depth : Nat) : Json → String
  | null => "null"
  | bool value => if value then "true" else "false"
  | number text => text
  | string text => Text.quoted text
  | array items =>
    if items.isEmpty then "[]"
    else "[" ++ newline (depth + 1) ++
      Text.joined ("," ++ newline (depth + 1)) (items.map (indented (depth + 1))) ++
      newline depth ++ "]"
  | object members =>
    if members.isEmpty then "\x7b\x7d"
    else "\x7b" ++ newline (depth + 1) ++
      Text.joined ("," ++ newline (depth + 1))
        (members.map fun m => Text.quoted m.1 ++ ": " ++ indented (depth + 1) m.2) ++
      newline depth ++ "\x7d"
termination_by value => sizeOf value
decreasing_by
  · decreasing_tactic
  · rename_i h
    have := List.sizeOf_lt_of_mem h
    cases m
    simp at this ⊢
    omega

def pretty (value : Json) : String :=
  indented 0 value

end Json

end Notebook
