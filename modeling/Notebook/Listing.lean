import Notebook.Content
import Notebook.Decimal.Shortest
import Notebook.Json.Basic

/-! A notebook's content as JSON. -/
namespace Notebook

inductive KeyFault where
  | notText
  | notFinite
deriving Repr, DecidableEq

def KeyFault.message : KeyFault → String
  | notText => "key must be a string"
  | notFinite => "float key must be finite (got NaN or +/-inf)"

namespace Yaml.Value

/-- Numbers from 0.00001 up to sixteen digits before the point are written without an exponent. -/
def numberLayout : Decimal.Layout :=
  ⟨-5, 15⟩

def keyText : Value → Except KeyFault String
  | string text => .ok text
  | bool value => .ok (if value then "true" else "false")
  | int value => .ok (toString value)
  | float value =>
    if value.isFinite then .ok (numberLayout.writeFloat value) else .error .notFinite
  | _ => .error .notText

/-- The value as JSON. Numbers that are not finite are null, and a tagged value is an object with
the tag as its key. -/
def toJson : Value → Except KeyFault Json
  | null => .ok .null
  | bool value => .ok (.bool value)
  | int value => .ok (.number (toString value))
  | float value =>
    .ok (if value.isFinite then .number (numberLayout.writeFloat value) else .null)
  | string text => .ok (.string text)
  | sequence items => do return .array (← items.mapM toJson)
  | mapping entries => do
    return .object (← entries.mapM fun e => do return (← keyText e.1, ← toJson e.2))
  | tagged tag value => do return .object [(tag, ← toJson value)]
decreasing_by
  · decreasing_tactic
  · rename_i h
    have := List.sizeOf_lt_of_mem h
    cases e
    simp at this ⊢
    omega
  · decreasing_tactic

end Yaml.Value

def Content.toJson (content : Content) : Except KeyFault Json := do
  let config ← (Yaml.Value.mapping content.frontmatter).toJson
  return .object [("config", config), ("chunks", .array (content.chunks.map Chunk.toJson))]

end Notebook
