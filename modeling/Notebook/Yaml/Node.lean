import Notebook.Yaml.Error
import Notebook.Yaml.Token

/-! The nodes of a document and the grammar that builds them from tokens. -/
namespace Notebook.Yaml

structure Properties where
  anchor : Option Nat := none
  tag : Option Tag := none
deriving DecidableEq

/-- A node of a document. An alias refers to an anchor by its number. -/
inductive Node where
  | reference (target : Nat)
  | scalar (props : Properties) (text : String) (isPlain : Bool)
  | sequence (props : Properties) (items : List Node)
  | mapping (props : Properties) (entries : List (Node × Node))

namespace Node

def empty : Node :=
  scalar {} "" true

structure Stream where
  tokens : List Token
  anchors : List (String × Nat) := []

namespace Stream

def skip (s : Stream) : Stream :=
  { s with tokens := s.tokens.tail }

/-- Numbers an anchor by the count of anchor names before it. A name that is used again gets a new
number, which the next new name shares. -/
def define (name : String) (s : Stream) : Nat × Stream :=
  let number := s.anchors.length
  let others := s.anchors.filter fun a => a.1 != name
  (number, { s with anchors := (name, number) :: others })

def find? (name : String) (s : Stream) : Option Nat :=
  s.anchors.lookup name

end Stream

abbrev Handles := List (String × TagBytes)

def tagOf (handles : Handles) (handle : String) (suffix : TagBytes) : Except Error Tag :=
  if handle.isEmpty then .ok (.ofBytes suffix)
  else match handles.lookup handle with
    | some start => .ok (.ofBytes (start ++ suffix))
    | none => .error .undefinedTagHandle

def anchor? (s : Stream) : Option Nat × Stream :=
  match s.tokens with
  | .anchor name :: _ =>
    let (number, s) := s.define name
    (some number, s.skip)
  | _ => (none, s)

def tag? (handles : Handles) (s : Stream) : Except Error (Option Tag × Stream) :=
  match s.tokens with
  | .tag handle suffix :: _ => (tagOf handles handle suffix).map fun t => (some t, s.skip)
  | _ => .ok (none, s)

def properties (handles : Handles) (s : Stream) : Except Error (Properties × Stream) := do
  match anchor? s with
  | (some number, s) =>
    let (tag, s) ← tag? handles s
    .ok (⟨some number, tag⟩, s)
  | (none, s) =>
    let (tag, s) ← tag? handles s
    let (anchor, s) := if tag.isSome then anchor? s else (none, s)
    .ok (⟨anchor, tag⟩, s)

def endsBlockNode : List Token → Bool
  | .key :: _ | .value :: _ | .blockEnd :: _ => true
  | _ => false

def endsFlowItem : List Token → Bool
  | .flowEntry :: _ | .flowSequenceEnd :: _ => true
  | _ => false

def endsFlowValue : List Token → Bool
  | .flowEntry :: _ | .flowMappingEnd :: _ => true
  | _ => false

def afterComma (isFirst : Bool) (s : Stream) : Except Error Stream :=
  if isFirst then .ok s
  else match s.tokens with
    | .flowEntry :: _ => .ok s.skip
    | _ => .error .missingSeparator

def maxDepth : Nat := 128

def emptyWith (props : Properties) (s : Stream) : Except Error (Node × Stream) :=
  if props.anchor.isSome || props.tag.isSome then .ok (scalar props "" true, s)
  else .error .missingNode

inductive Shape where
  | scalar (text : String) (isPlain : Bool)
  | unindented
  | blockSequence
  | blockMapping
  | flowSequence
  | flowMapping
  | none

def Shape.ofTokens (inBlock unindented : Bool) : List Token → Shape
  | .scalar text isPlain :: _ => .scalar text isPlain
  | .flowSequenceStart :: _ => .flowSequence
  | .flowMappingStart :: _ => .flowMapping
  | .blockSequenceStart :: _ => if inBlock then .blockSequence else .none
  | .blockMappingStart :: _ => if inBlock then .blockMapping else .none
  | .blockEntry :: _ => if unindented then .unindented else .none
  | _ => .none

mutual

/-- A node of at most `depth` levels. In block context it may be a block collection; as a key or
value of a block mapping it may be a sequence whose dashes are not indented. -/
def parse (handles : Handles) (depth : Nat) (inBlock unindented : Bool) (s : Stream) :
    Except Error (Node × Stream) :=
  match s.tokens with
  | .reference name :: _ =>
    match s.find? name with
    | some number => .ok (reference number, s.skip)
    | none => .error .unknownAnchor
  | _ => do
    let (props, s) ← properties handles s
    match Shape.ofTokens inBlock unindented s.tokens, depth with
    | .none, _ => emptyWith props s
    | .scalar text isPlain, _ => .ok (scalar props text isPlain, s.skip)
    | _, 0 => .error .tooDeep
    | .unindented, depth + 1 => do
      let (items, s) ← unindentedItems handles depth s
      .ok (sequence props items, s)
    | .blockSequence, depth + 1 => do
      let (items, s) ← blockItems handles depth s.skip
      .ok (sequence props items, s)
    | .blockMapping, depth + 1 => do
      let (entries, s) ← blockEntries handles depth s.skip
      .ok (mapping props entries, s)
    | .flowSequence, depth + 1 => do
      let (items, s) ← flowItems handles depth true s.skip
      .ok (sequence props items, s)
    | .flowMapping, depth + 1 => do
      let (entries, s) ← flowEntries handles depth true s.skip
      .ok (mapping props entries, s)
termination_by (depth, s.tokens.length, 0)
decreasing_by all_goals simp [Prod.lex_def, Stream.skip]; try omega

def blockItems (handles : Handles) (depth : Nat) (s : Stream) :
    Except Error (List Node × Stream) :=
  match s.tokens with
  | .blockEnd :: _ => .ok ([], s.skip)
  | .blockEntry :: rest => do
    let (item, t) ← match rest with
      | .blockEntry :: _ | .blockEnd :: _ => .ok (empty, s.skip)
      | _ => parse handles depth true false s.skip
    if t.tokens.length < s.tokens.length then
      let (items, t) ← blockItems handles depth t
      .ok (item :: items, t)
    else .error .missingNode
  | _ => .error .missingEntry
termination_by (depth, s.tokens.length, 1)
decreasing_by all_goals simp [Prod.lex_def, Stream.skip]; try omega

def unindentedItems (handles : Handles) (depth : Nat) (s : Stream) :
    Except Error (List Node × Stream) :=
  match s.tokens with
  | .blockEntry :: rest => do
    let (item, t) ←
      if endsBlockNode rest || rest.head? = some .blockEntry then .ok (empty, s.skip)
      else parse handles depth true false s.skip
    if t.tokens.length < s.tokens.length then
      let (items, t) ← unindentedItems handles depth t
      .ok (item :: items, t)
    else .error .missingNode
  | _ => .ok ([], s)
termination_by (depth, s.tokens.length, 1)
decreasing_by all_goals simp [Prod.lex_def, Stream.skip]; try omega

def blockEntries (handles : Handles) (depth : Nat) (s : Stream) :
    Except Error (List (Node × Node) × Stream) :=
  match s.tokens with
  | .blockEnd :: _ => .ok ([], s.skip)
  | .key :: rest => do
    let (key, t) ←
      if endsBlockNode rest then .ok (empty, s.skip) else parse handles depth true true s.skip
    if t.tokens.length < s.tokens.length then
      let (value, u) ← match t.tokens with
        | .value :: rest =>
          if endsBlockNode rest then .ok (empty, t.skip) else parse handles depth true true t.skip
        | _ => .ok (empty, t)
      if u.tokens.length < s.tokens.length then
        let (entries, u) ← blockEntries handles depth u
        .ok ((key, value) :: entries, u)
      else .error .missingNode
    else .error .missingNode
  | _ => .error .missingKey
termination_by (depth, s.tokens.length, 1)
decreasing_by all_goals simp [Prod.lex_def, Stream.skip]; try omega

/-- The items of a flow sequence, up to its end. An item with a colon is a mapping of one entry. -/
def flowItems (handles : Handles) (depth : Nat) (isFirst : Bool) (s : Stream) :
    Except Error (List Node × Stream) :=
  match s.tokens with
  | .flowSequenceEnd :: _ => .ok ([], s.skip)
  | _ => do
    let t ← afterComma isFirst s
    match t.tokens with
    | .flowSequenceEnd :: _ => .ok ([], t.skip)
    | tokens =>
      if t.tokens.length ≤ s.tokens.length then
        let (item, u) ←
          if tokens.head? = some .key then flowPair handles depth t.skip
          else parse handles depth false false t
        if u.tokens.length < s.tokens.length then
          let (items, u) ← flowItems handles depth false u
          .ok (item :: items, u)
        else .error .missingNode
      else .error .missingNode
termination_by (depth, s.tokens.length, 1)
decreasing_by all_goals simp [Prod.lex_def, Stream.skip]; try omega

/-- A mapping of one entry inside a flow sequence, after its key indicator. A token that leaves the
key empty is taken with it. -/
def flowPair (handles : Handles) (depth : Nat) (s : Stream) : Except Error (Node × Stream) :=
  match depth with
  | 0 => .error .tooDeep
  | depth + 1 => do
    let (key, t) ←
      if endsFlowItem s.tokens || s.tokens.head? = some .value then .ok (empty, s.skip)
      else parse handles depth false false s
    let (value, u) ← match t.tokens with
      | .value :: rest =>
        if endsFlowItem rest then .ok (empty, t.skip) else parse handles depth false false t.skip
      | _ => .ok (empty, t)
    .ok (mapping {} [(key, value)], u)
termination_by (depth, s.tokens.length, 0)
decreasing_by all_goals simp [Prod.lex_def, Stream.skip]; try omega

def flowEntries (handles : Handles) (depth : Nat) (isFirst : Bool) (s : Stream) :
    Except Error (List (Node × Node) × Stream) :=
  match s.tokens with
  | .flowMappingEnd :: _ => .ok ([], s.skip)
  | _ => do
    let t ← afterComma isFirst s
    match t.tokens with
    | .flowMappingEnd :: _ => .ok ([], t.skip)
    | tokens =>
      if t.tokens.length ≤ s.tokens.length then
        let (entry, u) ← match tokens with
          | .key :: rest => do
            let (key, u) ←
              if endsFlowValue rest || rest.head? = some .value then .ok (empty, t.skip)
              else parse handles depth false false t.skip
            let (value, u) ← match u.tokens with
              | .value :: rest =>
                if endsFlowValue rest then .ok (empty, u.skip)
                else if u.tokens.length ≤ s.tokens.length then
                  parse handles depth false false u.skip
                else .error .missingNode
              | _ => .ok (empty, u)
            .ok ((key, value), u)
          | _ => do
            let (key, u) ← parse handles depth false false t
            .ok ((key, empty), u)
        if u.tokens.length < s.tokens.length then
          let (entries, u) ← flowEntries handles depth false u
          .ok (entry :: entries, u)
        else .error .missingNode
      else .error .missingNode
termination_by (depth, s.tokens.length, 1)
decreasing_by all_goals simp [Prod.lex_def, Stream.skip]; try omega

end

end Node

end Notebook.Yaml
