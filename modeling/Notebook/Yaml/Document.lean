import Notebook.Yaml.Node
import Notebook.Yaml.Scalar
import Notebook.Yaml.Token.Scan

/-! Reading a text as one YAML value. -/
namespace Notebook.Yaml

namespace Node

def steps : Node → Nat
  | reference _ => 1
  | scalar _ _ _ => 1
  | sequence _ items => 2 + (items.map steps).foldr Nat.add 0
  | mapping _ entries => 2 + (entries.map fun e => steps e.1 + steps e.2).foldr Nat.add 0
decreasing_by
  · decreasing_tactic
  all_goals
    rename_i h
    have := List.sizeOf_lt_of_mem h
    cases e
    simp at this ⊢
    omega

def anchored : Node → List (Nat × Node)
  | reference _ => []
  | scalar props text isPlain =>
    props.anchor.toList.map fun n => (n, scalar props text isPlain)
  | sequence props items =>
    (props.anchor.toList.map fun n => (n, sequence props items)) ++ items.flatMap anchored
  | mapping props entries =>
    (props.anchor.toList.map fun n => (n, mapping props entries)) ++
      entries.flatMap fun e => anchored e.1 ++ anchored e.2
decreasing_by
  · decreasing_tactic
  all_goals
    rename_i h
    have := List.sizeOf_lt_of_mem h
    cases e
    simp at this ⊢
    omega

abbrev Build := StateT Nat (Except Error)

def marked (tag : Option Tag) (value : Value) : Value :=
  match tag with
  | some (.mark name) => .tagged name value
  | _ => value

def entryValues (inner : Node → Build Value) : List (Node × Node) → Mapping → Build Mapping
  | [], entries => return entries
  | (k, v) :: rest, entries => do
    let k ← inner k
    if entries.any fun e => Value.same e.1 k then throw .duplicateKey
    else
      let v ← inner v
      entryValues inner rest (entries ++ [(k, v)])

/-- The value of a node that is no alias. `inner` gives the values of the nodes inside a
collection; without it collections are too deep. -/
def contentValue (inner : Option (Node → Build Value)) : Node → Build Value
  | reference _ => throw .unknownAnchor
  | scalar props text isPlain => Scalar.value props.tag text isPlain
  | sequence props items =>
    match inner with
    | none => throw .tooDeep
    | some inner => do return marked props.tag (.sequence (← items.mapM inner))
  | mapping props entries =>
    match inner with
    | none => throw .tooDeep
    | some inner => do return marked props.tag (.mapping (← entryValues inner entries []))

def nodeValue (targets : Nat → Option Node) (limit : Nat) (inner : Option (Node → Build Value)) :
    Node → Build Value
  | reference number => do
    modify (· + 1)
    if limit < (← get) then throw .tooManyAliases
    else match targets number with
      | some node => contentValue inner node
      | none => throw .unknownAnchor
  | node => contentValue inner node

def valueWithin (targets : Nat → Option Node) (limit : Nat) : (depth : Nat) → Node → Build Value
  | 0 => nodeValue targets limit none
  | depth + 1 => nodeValue targets limit (some (valueWithin targets limit depth))

/-- The value of the node of a whole document. An anchor number refers to the last node with it,
and aliases may be followed a hundred times as often as the document has steps. -/
def toValue (node : Node) : Except Error Value :=
  let anchors := node.anchored.reverse
  ((valueWithin (fun n => anchors.lookup n) (100 * node.steps) maxDepth node).run 0).map Prod.fst

end Node

def defaultHandles : Node.Handles :=
  [("!", [0x21]), ("!!", Tag.coreStart.toUTF8.data.toList)]

/-- The directives of a document: one version at most, which must be 1.1 or 1.2, and no tag handle
twice. -/
def directives (hasVersion : Bool) (handles : Node.Handles) :
    List Token → Except Error (Node.Handles × List Token)
  | .version major minor :: rest =>
    if hasVersion || major != 1 || (minor != 1 && minor != 2) then .error .badDirective
    else directives true handles rest
  | .tagDirective handle start :: rest =>
    if (handles.lookup handle).isSome then .error .badDirective
    else directives hasVersion (handles ++ [(handle, start)]) rest
  | rest => .ok (handles ++ defaultHandles, rest)

def markedContent (handles : Node.Handles) (tokens : List Token) :
    Except Error (Node × Node.Stream) :=
  match tokens with
  | .version _ _ :: _ | .tagDirective _ _ :: _ | .documentStart :: _ | .documentEnd :: _
  | .streamEnd :: _ => .ok (.empty, ⟨tokens, []⟩)
  | _ => Node.parse handles Node.maxDepth true false ⟨tokens, []⟩

def documentContent (tokens : List Token) : Except Error (Node × Node.Stream) :=
  match tokens with
  | .version _ _ :: _ | .tagDirective _ _ :: _ | .documentStart :: _ => do
    let (handles, rest) ← directives false [] tokens
    match rest with
    | .documentStart :: rest => markedContent handles rest
    | _ => .error .missingDocumentStart
  | _ => Node.parse defaultHandles Node.maxDepth true false ⟨tokens, []⟩

/-- The node of the only document, if there is one. Nothing but end markers may follow it. -/
def documentNode? (tokens : List Token) : Except Error (Option Node) :=
  match tokens with
  | .streamEnd :: _ => .ok none
  | _ => do
    let (node, s) ← documentContent tokens
    match s.tokens.dropWhile (· = .documentEnd) with
    | .streamEnd :: _ => .ok (some node)
    | _ => .error .severalDocuments

def read (text : List Char) : Except Error Value := do
  match ← documentNode? (← Token.scan text) with
  | none => return .null
  | some node => node.toValue

end Notebook.Yaml
