import Notebook.Proofs.DefinitionNames
import Notebook.Proofs.Text

/-! How the source of a module is put together. Its parts are trimmed again at every level of
nesting, but they begin and end with characters that trimming keeps, so that nothing of a statement
or of an imported module is lost. -/
namespace Notebook

open Text (opens closes opens_append closes_append closes_append_join)

theorem Fragment.opens_text (fragment : Fragment) : opens fragment.text := by
  cases fragment with
  | define cell =>
    change opens cell.text
    unfold Cell.text
    simp only [String.append_assoc]
    exact opens_append _ (by decide +kernel)
  | bring binding =>
    change opens binding.text
    unfold ImportBinding.text
    simp only [String.append_assoc]
    exact opens_append _ (by decide +kernel)

private theorem Fragment.closes_text (fragment : Fragment) : closes fragment.text := by
  cases fragment with
  | define cell => exact closes_append _ (by decide +kernel)
  | bring binding => exact closes_append _ (by decide +kernel)

namespace GeneratedModule

/-- The defining function of a module up to its statements, without the word `export`. -/
def functionHead (m : GeneratedModule) : String :=
  (if m.isRoot then " default " else " ") ++ "function " ++ m.defineName ++
    "(runtime, observer) \x7b\n  const main = runtime.module()" ++
    String.join ((m.children.map instanceText).map ("\n" ++ ·))

def statements (m : GeneratedModule) : String :=
  String.join (m.body.map fun f => "\n" ++ f.text)

private theorem closes_functionHead (m : GeneratedModule) : closes m.functionHead := by
  apply closes_append_join
  · exact closes_append _ (by decide +kernel)
  · intro s hs
    obtain ⟨t, ht, rfl⟩ := List.mem_map.mp hs
    obtain ⟨child, _, rfl⟩ := List.mem_map.mp ht
    exact closes_append _ (closes_append _ (by decide +kernel))

/-- The constants stand on lines of their own, and nothing but line breaks follows them. -/
private theorem exists_breaks (lines : List String) : ∃ breaks : String,
    (∀ c ∈ breaks.toList, Text.isBlank c) ∧
      "\n" ++ Text.joined "\n" lines ++ "\n" = String.join (lines.map ("\n" ++ ·)) ++ breaks := by
  cases lines with
  | nil => exact ⟨"\n\n", List.all_eq_true.mp (by decide), rfl⟩
  | cons line lines =>
    refine ⟨"\n", List.all_eq_true.mp (by decide), ?_⟩
    rw [Text.joined_cons, List.map_cons, String.join_cons]
    simp only [String.append_assoc]

/-- The preamble is trimmed by its first line break and those after the constants. -/
theorem trimmed_preamble (m : GeneratedModule) : Text.trimmed m.preamble =
    "// Imported modules\n" ++ m.importedText ++
      "\n\n// Transpiled user markdown to JavaScript\nexport" ++ m.functionHead := by
  obtain ⟨breaks, hbreaks, heq⟩ := exists_breaks (m.children.map instanceText)
  have hfirst : "\n// Imported modules\n" = "\n" ++ "// Imported modules\n" := by decide +kernel
  have hlast : "(runtime, observer) \x7b\n  const main = runtime.module()\n" =
      "(runtime, observer) \x7b\n  const main = runtime.module()" ++ "\n" := by decide +kernel
  have hpreamble : m.preamble = "\n" ++ ("// Imported modules\n" ++ m.importedText ++
      "\n\n// Transpiled user markdown to JavaScript\nexport" ++ m.functionHead) ++ breaks := by
    unfold preamble functionHead
    rw [hfirst, hlast]
    simp only [String.append_assoc] at heq ⊢
    rw [heq]
  rw [hpreamble]
  apply Text.trimmed_between
  · simp only [String.append_assoc]
    exact opens_append _ (by decide +kernel)
  · exact closes_append _ m.closes_functionHead
  · exact List.all_eq_true.mp (by decide)
  · exact hbreaks

private theorem opens_trimmed_preamble (m : GeneratedModule) : opens (Text.trimmed m.preamble) := by
  rw [trimmed_preamble]
  simp only [String.append_assoc]
  exact opens_append _ (by decide +kernel)

/-- The source is the trimmed preamble, the statements as they are, and the end of the function. -/
theorem source_eq (m : GeneratedModule) :
    m.source = Text.trimmed m.preamble ++ m.statements ++ "\nreturn main\n\x7d" := by
  have hpreamble : Text.nonBlank? m.preamble.toList = some (Text.trimmed m.preamble) := by
    have hne : Text.trim m.preamble.toList ≠ [] := by
      intro he
      have ho := m.opens_trimmed_preamble
      rw [Text.trimmed, he] at ho
      exact absurd ho (by decide)
    rw [Text.nonBlank?, if_neg (by simpa using hne)]
    rfl
  have hstatements : (m.body.map Fragment.text).filterMap (fun part => Text.nonBlank? part.toList) =
      m.body.map Fragment.text := by
    rw [List.filterMap_map, ← List.filterMap_eq_map]
    exact List.filterMap_congr fun f _ => Text.nonBlank?_of_ends f.opens_text f.closes_text
  have hend : Text.nonBlank? postamble.toList = some "return main\n\x7d" := by decide +kernel
  have hbreak : "\nreturn main\n\x7d" = "\n" ++ "return main\n\x7d" := by decide +kernel
  have hparts : (m.preamble :: m.body.map Fragment.text ++ [postamble]).filterMap
      (fun part => Text.nonBlank? part.toList) =
        Text.trimmed m.preamble :: (m.body.map Fragment.text ++ ["return main\n\x7d"]) := by
    simp only [List.cons_append, List.filterMap_cons, List.filterMap_append, List.filterMap_nil,
      hpreamble, hstatements, hend]
  change Text.joined "\n" ((m.preamble :: m.body.map Fragment.text ++ [postamble]).filterMap
    fun part => Text.nonBlank? part.toList) = _
  rw [hparts, Text.joined_cons, List.map_append, String.join_append, List.map_map, hbreak]
  simp only [List.map_cons, List.map_nil, String.join_cons, String.join_nil, String.append_empty,
    String.append_assoc]
  rfl

private theorem opens_source (m : GeneratedModule) : opens m.source := by
  rw [source_eq, String.append_assoc]
  exact opens_append _ m.opens_trimmed_preamble

private theorem closes_source (m : GeneratedModule) : closes m.source := by
  rw [source_eq]
  exact closes_append _ (by decide +kernel)

def functionText (m : GeneratedModule) : String :=
  m.functionHead ++ m.statements ++ "\nreturn main\n\x7d"

/-- Sources of modules are placed in a module as they are. -/
theorem source_of_children {m : GeneratedModule} {nested : List GeneratedModule}
    (h : m.children.map ChildModule.source = nested.map source) :
    m.source = "// Imported modules\n" ++ Text.joined "\n" (m.children.map ChildModule.source) ++
      "\n\n// Transpiled user markdown to JavaScript\nexport" ++ m.functionText := by
  have hends : ∀ s ∈ m.children.map ChildModule.source, opens s ∧ closes s := by
    rw [h]
    intro s hs
    obtain ⟨n, _, rfl⟩ := List.mem_map.mp hs
    exact ⟨n.opens_source, n.closes_source⟩
  have hsources : m.children.map (fun c => Text.trimmed c.source) =
      m.children.map ChildModule.source := by
    apply List.map_congr_left
    intro child hc
    obtain ⟨ho, hcl⟩ := hends _ (List.mem_map_of_mem hc)
    exact Text.trimmed_of_ends ho hcl
  have himported : m.importedText = Text.joined "\n" (m.children.map ChildModule.source) := by
    rw [importedText, hsources, Text.trimmed_joined hends]
  rw [source_eq, trimmed_preamble, himported, functionText]
  simp only [String.append_assoc]

end GeneratedModule

theorem Followed.source_child (f : Followed) (level : String) :
    (f.child level).source = f.tree.module.source := by
  simp only [child, Compiler.childOf]

namespace Compiler
variable {c : Compiler} {document : Document} {level : String} {tree : ModuleTree}

private theorem Compiles.sources_children (h : c.Compiles document level tree) :
    tree.module.children.map ChildModule.source =
      (tree.imports.map ModuleTree.module).map GeneratedModule.source := by
  cases h with
  | node =>
    simp only [ModuleTree.module, ModuleTree.imports, moduleOf, List.map_map, Function.comp_def,
      Followed.source_child]

private theorem Compiles.infix_of_child (h : c.Compiles document level tree) {child : ChildModule}
    (hc : child ∈ tree.module.children) : child.source.toList <:+: tree.module.source.toList := by
  rw [GeneratedModule.source_of_children h.sources_children]
  refine (Text.infix_joined "\n" (List.mem_map_of_mem hc)).trans ?_
  simp only [String.toList_append]
  rw [List.append_assoc]
  exact List.infix_append _ _ _

/-- The source of a module that is nested at any depth stands in the source of the root. -/
theorem Compiles.infix_of_mem (h : c.Compiles document level tree) {m : GeneratedModule}
    (hm : m ∈ tree.modules) : m.source.toList <:+: tree.module.source.toList := by
  induction h with
  | @node document level content body registry followed read generated entries located fetched
      compiled ih =>
    rcases ModuleTree.mem_modules_node.mp hm with ⟨f, hf, hm⟩ | rfl
    · have hroot := Compiles.node read generated entries located fetched compiled
      have hinfix := ih f hf hm
      rw [← f.source_child level] at hinfix
      exact hinfix.trans (hroot.infix_of_child (List.mem_map_of_mem hf))
    · exact List.infix_rfl

/-- A source is its trimmed preamble followed by its statements, each unchanged on a line of its own,
and is trimmed itself. If a document compiles, the sources of the imported modules stand in its source
as they are, in the order of the registry, and so do those of all modules nested in them. -/
theorem source_assembled :
    (∀ m : GeneratedModule,
      m.source = Text.trimmed m.preamble ++ String.join (m.body.map fun f => "\n" ++ f.text) ++
        "\nreturn main\n\x7d" ∧
      Text.trimmed m.source = m.source) ∧
    ∀ {c : Compiler} {depth : Nat} {document : Document} {level : String} {m : GeneratedModule}
      {j k : Journal}, (c.compileModule depth document level).Returns j m k →
      ∃ tree, (c.compileTree depth document level).Returns j tree k ∧ tree.module = m ∧
        m.children.map ChildModule.specifier = document.specifiers ∧
        m.children.map ChildModule.source =
          (tree.imports.map ModuleTree.module).map GeneratedModule.source ∧
        m.source = "// Imported modules\n" ++ Text.joined "\n" (m.children.map ChildModule.source) ++
          "\n\n// Transpiled user markdown to JavaScript\nexport" ++ m.functionText ∧
        (∀ child ∈ m.children, child.source.toList <:+: m.source.toList) ∧
        ∀ nested ∈ tree.modules, nested.source.toList <:+: m.source.toList := by
  refine ⟨fun m => ⟨m.source_eq, Text.trimmed_of_ends m.opens_source m.closes_source⟩, ?_⟩
  intro c depth document level m j k h
  obtain ⟨tree, _, ht, h⟩ := Compile.returns_bind.mp h
  obtain ⟨rfl, rfl⟩ := Compile.returns_pure.mp h
  have hcompiles := compiles_of_returns ht
  have hspecifiers := (hcompiles.exists_source
    (P := fun source nested => nested.children.map ChildModule.specifier = source.specifiers)
    fun read generated entries _ => specifiers_moduleOf read generated entries).1
  exact ⟨tree, ht, rfl, hspecifiers, hcompiles.sources_children,
    GeneratedModule.source_of_children hcompiles.sources_children,
    fun child hc => hcompiles.infix_of_child hc, fun nested hn => hcompiles.infix_of_mem hn⟩

/-- The source of a module that is imported twice, once below another one. -/
theorem source_assembled_nested :
    let c : Compiler := ⟨Library.ofTexts [("a.md", "```{imports}\n{x} from b.md\n```"), ("b.md", "B")], {}⟩
    let document : Document := ⟨"```{imports}\n{x} from a.md\n{y} from b.md\n```", { path := "n.md" }⟩
    ∃ m k tree, (c.compileModule 2 document "").Returns {} m k ∧
      (c.compileTree 2 document "").Returns {} tree k ∧
      tree.modules.map GeneratedModule.level = ["00", "0", "1", ""] ∧
      m.children.map ChildModule.specifier = document.specifiers ∧
      ∀ nested ∈ tree.modules, nested.source.toList <:+: m.source.toList := by
  intro c document
  obtain ⟨m, k, h, _⟩ := Compile.exists_returns (x := c.compileModule 2 document "") (j := {})
    (f := fun _ => ()) (b := ()) (by decide +kernel)
  obtain ⟨t, _, ht, hlevels⟩ := Compile.exists_returns (x := c.compileTree 2 document "") (j := {})
    (f := fun t => t.modules.map GeneratedModule.level) (b := ["00", "0", "1", ""]) (by decide +kernel)
  obtain ⟨tree, htree, _, hspecifiers, _, _, _, hnested⟩ := source_assembled.2 h
  cases ht.unique htree
  exact ⟨m, k, t, h, htree, hlevels, hspecifiers, hnested⟩

end Compiler

end Notebook
