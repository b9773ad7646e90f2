import Notebook.Proofs.SourceText

/-! The names in a compiled tree, as they follow from the documents.

Following the imports of a document gives a tree of documents. The functions that the modules define are
listed in its post-order, and the name of each is made of the labels on the way to its document. -/
namespace Notebook

def Document.entries (document : Document) : List RegistryEntry :=
  (({} : Registry).registerAll (document.moduleImports.map ModuleImport.specifier)).entries

/-- A document with the documents that it imports, each with its own. -/
inductive ImportTree where
  | node (document : Document) (imports : List ImportTree)

namespace ImportTree

def document : ImportTree → Document
  | node document _ => document

mutual
/-- The labels on the way to each document of a tree. The documents that a document imports come in the
order of its entries, and then comes the document itself. -/
def paths : ImportTree → List (List String)
  | node document imports => allPaths document.entries imports ++ [[]]

def allPaths : List RegistryEntry → List ImportTree → List (List String)
  | entry :: entries, tree :: trees => tree.paths.map (entry.label :: ·) ++ allPaths entries trees
  | _, _ => []
end

/-- The tree is found by following imports: there is one document for each entry, located and fetched
from the library. -/
inductive Found (library : Library) : ImportTree → Prop
  | node {document : Document} {imports : List ImportTree}
      (followed : List.Forall₂ (fun entry tree =>
        (∃ calls, library.locate calls entry.specifier document.resource = .ok tree.document.resource) ∧
        ∃ calls, library.fetch calls tree.document.resource = .ok tree.document.text)
        document.entries imports)
      (found : ∀ tree ∈ imports, Found library tree) : Found library (.node document imports)

private theorem allPaths_map {α : Type} (entry : α → RegistryEntry) (tree : α → ImportTree) (xs : List α) :
    allPaths (xs.map entry) (xs.map tree) =
      xs.flatMap fun x => (tree x).paths.map ((entry x).label :: ·) := by
  induction xs with
  | nil => rfl
  | cons x xs ih => rw [List.map_cons, List.map_cons, allPaths, ih, List.flatMap_cons]

end ImportTree

/-- A name for functions and constants: a letter, `_` or `$`, and then also digits. -/
def IsIdentifier (name : String) : Prop :=
  ∃ c cs, name.toList = c :: cs ∧ (c.isAlpha ∨ c = '_' ∨ c = '$') ∧
    ∀ d ∈ cs, d.isAlphanum ∨ d = '_' ∨ d = '$'

private theorem IsIdentifier.append_digits {name digits : String} (h : IsIdentifier name)
    (hdigits : ∀ d ∈ digits.toList, d.isDigit) : IsIdentifier (name ++ digits) := by
  obtain ⟨c, cs, hname, hc, hcs⟩ := h
  refine ⟨c, cs ++ digits.toList, ?_, hc, ?_⟩
  · rw [String.toList_append, hname, List.cons_append]
  · intro d hd
    rcases List.mem_append.mp hd with hd | hd
    · exact hcs d hd
    · left
      simp [Char.isAlphanum, hdigits d hd]

private theorem Config.isIdentifier_defineStem {config : Config} (h : config.validate = .ok ()) :
    IsIdentifier config.defineStem := by
  have hvalid : config.isValid = true := by
    unfold validate at h
    split at h
    · assumption
    · cases h
  unfold isValid at hvalid
  split at hvalid
  · cases hvalid
  · rename_i c cs hstem
    rw [Bool.and_eq_true, List.all_eq_true] at hvalid
    refine ⟨c, cs, hstem, ?_, ?_⟩
    · simpa [isNameStart, or_assoc] using hvalid.1
    · intro d hd
      have := hvalid.2 d hd
      simp only [isNameStart, Bool.or_eq_true, beq_iff_eq] at this
      simp only [Char.isAlphanum, Bool.or_eq_true]
      tauto

theorem isDigit_toString {n : Nat} {c : Char} (h : c ∈ (toString n).toList) : c.isDigit := by
  have hdigits : (toString n).toList = Nat.toDigits 10 n := String.toList_ofList
  rw [hdigits] at h
  exact Nat.isDigit_of_mem_toDigits (by decide) (by decide) h

namespace Compiler
variable {c : Compiler} {document : Document} {level : String} {tree : ModuleTree}

/-- The levels of the modules are spelled by the ways to their documents. -/
theorem Compiles.exists_importTree (h : c.Compiles document level tree) : ∃ imports : ImportTree,
    imports.document = document ∧ imports.Found c.library ∧
      tree.modules.map GeneratedModule.level = imports.paths.map fun path => level ++ String.join path := by
  induction h with
  | @node document level content body registry followed read generated entries located fetched compiled ih =>
    have : Nonempty ImportTree := ⟨.node document []⟩
    choose! imported hdocument hfound hlevels using ih
    have hentries : document.entries = followed.map Followed.entry := by
      rw [entries, (linked_moduleOf read generated entries).registry_eq, Document.entries]
    refine ⟨.node document (followed.map imported), rfl, .node ?_ ?_, ?_⟩
    · rw [hentries, List.forall₂_map_left_iff, List.forall₂_map_right_iff, List.forall₂_same]
      intro f hf
      rw [hdocument f hf]
      exact ⟨located f hf, fetched f hf⟩
    · intro t ht
      obtain ⟨f, hf, rfl⟩ := List.mem_map.mp ht
      exact hfound f hf
    · have hnested (f : Followed) (hf : f ∈ followed) : f.tree.modules.map GeneratedModule.level =
          ((imported f).paths.map (f.entry.label :: ·)).map fun path => level ++ String.join path := by
        rw [hlevels f hf, List.map_map]
        apply List.map_congr_left
        intro path _
        simp only [Function.comp_apply, String.join_cons, RegistryEntry.level, String.append_assoc]
      rw [ImportTree.paths, hentries, ImportTree.allPaths_map, ModuleTree.modules_node, List.flatMap_map,
        List.map_append, List.map_append, List.map_flatMap, List.map_flatMap, List.flatMap_congr hnested]
      simp [moduleOf]

private theorem Compiles.isDigit_level (h : c.Compiles document level tree)
    (hlevel : ∀ d ∈ level.toList, d.isDigit) {m : GeneratedModule} (hm : m ∈ tree.modules) :
    ∀ d ∈ m.level.toList, d.isDigit := by
  induction h with
  | @node document level content body registry followed _ _ entries _ _ _ ih =>
    rcases ModuleTree.mem_modules_node.mp hm with ⟨f, hf, hm⟩ | rfl
    · refine ih f hf ?_ hm
      intro d hd
      rw [RegistryEntry.level, String.toList_append] at hd
      rcases List.mem_append.mp hd with hd | hd
      · exact hlevel d hd
      · obtain ⟨place, _, hlabel⟩ := Registry.exists_label (entries ▸ List.mem_map_of_mem hf)
        exact isDigit_toString (hlabel ▸ hd)
    · exact hlevel

/-- Below the root every level has a label in it. -/
theorem Compiles.filter_isRoot (h : c.Compiles document "" tree) :
    tree.modules.filter GeneratedModule.isRoot = [tree.module] := by
  cases h with
  | @node _ _ content body registry followed _ _ entries _ _ compiled =>
    have hnested : (followed.flatMap fun f => f.tree.modules).filter GeneratedModule.isRoot = [] := by
      rw [List.filter_eq_nil_iff]
      intro m hm hroot
      obtain ⟨f, hf, hm⟩ := List.mem_flatMap.mp hm
      obtain ⟨place, _, hlabel⟩ := Registry.exists_label (entries ▸ List.mem_map_of_mem hf)
      obtain ⟨path, hpath⟩ := ((compiled f hf).level_mem hm).1
      have hlength := congrArg String.length (hpath.symm.trans (String.isEmpty_iff.mp hroot))
      have hpos : 0 < (toString place).length := Nat.length_repr_pos
      rw [RegistryEntry.level, hlabel, String.length_append, String.length_append] at hlength
      simp only [String.length_empty] at hlength
      omega
    rw [ModuleTree.modules_node, List.flatMap_map, List.filter_append, hnested]
    rfl

end Compiler

/-- After the modules that it imports, the module is exported with these words before its function. -/
def GeneratedModule.ExportedAs (m : GeneratedModule) (words : String) : Prop :=
  ∃ rest, m.source = "// Imported modules\n" ++ Text.joined "\n" (m.children.map ChildModule.source) ++
    "\n\n// Transpiled user markdown to JavaScript\n" ++ words ++ " function " ++ m.defineName ++
    "(runtime, observer) \x7b" ++ rest

namespace GeneratedModule
variable {m : GeneratedModule}

private theorem exportedAs_of_children {nested : List GeneratedModule}
    (h : m.children.map ChildModule.source = nested.map source) :
    m.ExportedAs (if m.isRoot then "export default" else "export") := by
  refine ⟨"\n  const main = runtime.module()" ++
    String.join ((m.children.map instanceText).map ("\n" ++ ·)) ++ m.statements ++
      "\nreturn main\n\x7d", ?_⟩
  have hcomment : "\n\n// Transpiled user markdown to JavaScript\nexport" =
      "\n\n// Transpiled user markdown to JavaScript\n" ++ "export" := by decide +kernel
  have hopening : "(runtime, observer) \x7b\n  const main = runtime.module()" =
      "(runtime, observer) \x7b" ++ "\n  const main = runtime.module()" := by decide +kernel
  have hwords (s : String) : "export" ++ ((if m.isRoot then " default " else " ") ++ ("function " ++ s)) =
      (if m.isRoot then "export default" else "export") ++ (" function " ++ s) := by
    rw [← String.append_assoc, ← String.append_assoc, ← String.append_assoc]
    congr 1
    split <;> decide +kernel
  rw [source_of_children h, functionText, functionHead, hcomment, hopening]
  simp only [String.append_assoc, hwords]

private theorem not_exportedAs_both (h : m.ExportedAs "export default") : ¬ m.ExportedAs "export" := by
  rintro ⟨rest', h'⟩
  obtain ⟨rest, h⟩ := h
  rw [h] at h'
  simp only [String.append_assoc, String.append_right_inj] at h'
  have hchars := congrArg String.toList h'
  simp at hchars

/-- Only roots are default exports. -/
theorem exportedAs_iff (h : m.ExportedAs (if m.isRoot then "export default" else "export")) :
    (m.ExportedAs "export default" ↔ m.isRoot = true) ∧ (m.ExportedAs "export" ↔ m.isRoot = false) := by
  cases hroot : m.isRoot with
  | true =>
    rw [hroot, if_pos rfl] at h
    exact ⟨⟨fun _ => rfl, fun _ => h⟩, fun hplain => absurd hplain (not_exportedAs_both h), nofun⟩
  | false =>
    rw [hroot, if_neg Bool.false_ne_true] at h
    exact ⟨⟨fun hdefault => absurd h (not_exportedAs_both hdefault), nofun⟩, fun _ => rfl, fun _ => h⟩

end GeneratedModule

namespace Compiler
variable {c : Compiler} {document : Document} {level : String} {tree : ModuleTree}

private theorem Compiles.exportedAs_iff (h : c.Compiles document level tree) {m : GeneratedModule}
    (hm : m ∈ tree.modules) : (m.ExportedAs "export default" ↔ m.isRoot = true) ∧
      (m.ExportedAs "export" ↔ m.isRoot = false) := by
  obtain ⟨_, _, _, nested, hsources⟩ := (h.exists_source
    (P := fun _ m => ∃ nested : List GeneratedModule,
      m.children.map ChildModule.source = nested.map GeneratedModule.source)
    fun {_ level _ _ _ followed} _ _ _ _ => ⟨followed.map fun f => f.tree.module, by
      simp only [moduleOf, List.map_map, Function.comp_def, Followed.source_child]⟩).2 m hm
  exact GeneratedModule.exportedAs_iff (GeneratedModule.exportedAs_of_children hsources)

/-- With a stem that is an identifier, so are all names of functions and constants. -/
theorem Compiles.isIdentifier_names (h : c.Compiles document "" tree)
    (hvalid : c.config.validate = .ok ()) {m : GeneratedModule} (hm : m ∈ tree.modules) :
    IsIdentifier m.defineName ∧
      ∀ child ∈ m.children, IsIdentifier child.binding ∧ IsIdentifier child.defineName := by
  have hstem := Config.isIdentifier_defineStem hvalid
  have hlevel := h.isDigit_level (by simp) hm
  refine ⟨?_, ?_⟩
  · rw [(h.level_mem hm).2]
    exact hstem.append_digits hlevel
  · intro child hc
    obtain ⟨_, _, _, hwired⟩ := (h.exists_source wired_moduleOf).2 m hm
    obtain ⟨place, hplace⟩ := List.mem_iff_getElem?.mp hc
    obtain ⟨hchild, hbinding, hname⟩ := hwired.named place child hplace
    have hword : IsIdentifier "child" := by
      refine ⟨'c', ['h', 'i', 'l', 'd'], rfl, by decide, ?_⟩
      intro d hd
      fin_cases hd <;> decide
    rw [hbinding, hname, hchild, ← String.append_assoc, ← String.append_assoc]
    exact ⟨(hword.append_digits hlevel).append_digits fun _ => isDigit_toString,
      (hstem.append_digits hlevel).append_digits fun _ => isDigit_toString⟩

/-- If a document compiles as the root, with a configuration that is valid, the functions of its source
are listed in the post-order of the documents that its imports lead to, each named by the stem and the
labels on the way to its document. All names are identifiers, and only the root is the default export. -/
theorem compileModule_names {depth : Nat} {m : GeneratedModule} {j k : Journal}
    (hvalid : c.config.validate = .ok ()) (h : (c.compileModule depth document "").Returns j m k) :
    ∃ (tree : ModuleTree) (imports : ImportTree),
      (c.compileTree depth document "").Returns j tree k ∧ tree.module = m ∧
      imports.document = document ∧ imports.Found c.library ∧
      m.definitions = imports.paths.map (fun path => c.config.defineStem ++ String.join path) ∧
      m.definitions = tree.modules.map GeneratedModule.defineName ∧
      m.definitions.getLast? = some m.defineName ∧
      (∀ nested ∈ tree.modules, IsIdentifier nested.defineName ∧
        ∀ child ∈ nested.children, IsIdentifier child.binding ∧ IsIdentifier child.defineName) ∧
      tree.modules.filter GeneratedModule.isRoot = [m] ∧
      ∀ nested ∈ tree.modules, (nested.ExportedAs "export default" ↔ nested.isRoot = true) ∧
        (nested.ExportedAs "export" ↔ nested.isRoot = false) := by
  obtain ⟨tree, _, ht, h⟩ := Compile.returns_bind.mp h
  obtain ⟨rfl, rfl⟩ := Compile.returns_pure.mp h
  have hcompiles := compiles_of_returns ht
  obtain ⟨imports, hdocument, hfound, hlevels⟩ := hcompiles.exists_importTree
  have hdefinitions := hcompiles.definitions_eq
  have hpaths : tree.module.definitions =
      imports.paths.map fun path => c.config.defineStem ++ String.join path := by
    rw [hdefinitions, hcompiles.defineNames_eq, hlevels, List.map_map]
    simp only [Function.comp_def, String.empty_append]
  have hlast : tree.module.definitions.getLast? = some tree.module.defineName := by
    cases hcompiles
    simp [ModuleTree.module, moduleOf]
  exact ⟨tree, imports, ht, rfl, hdocument, hfound, hpaths, hdefinitions, hlast,
    fun nested hn => hcompiles.isIdentifier_names hvalid hn, hcompiles.filter_isRoot,
    fun nested hn => hcompiles.exportedAs_iff hn⟩

/-- Two imports, one of which imports the other, below a root with a stem of its own. -/
theorem compileModule_names_nested :
    let c : Compiler := ⟨Library.ofTexts [("a.md", "```{imports}\n{x} from b.md\n```"), ("b.md", "B")],
      { defineStem := "$m" }⟩
    let document : Document := ⟨"```{imports}\n{x} from a.md\n{y} from b.md\n```", { path := "n.md" }⟩
    c.config.validate = .ok () ∧
    ∃ m k, (c.compileModule 2 document "").Returns {} m k ∧
      m.definitions = ["$m00", "$m0", "$m1", "$m"] ∧
      ∃ (tree : ModuleTree) (imports : ImportTree), tree.module = m ∧ imports.document = document ∧
        imports.Found c.library ∧
        m.definitions = imports.paths.map (fun path => "$m" ++ String.join path) ∧
        tree.modules.filter GeneratedModule.isRoot = [m] := by
  intro c document
  have hvalid : c.config.validate = .ok () := by decide
  obtain ⟨m, k, h, hm⟩ := Compile.exists_returns (x := c.compileModule 2 document "") (j := {})
    (f := GeneratedModule.definitions) (b := ["$m00", "$m0", "$m1", "$m"]) (by decide +kernel)
  obtain ⟨tree, imports, _, htree, hdocument, hfound, hpaths, _, _, _, hroot, _⟩ :=
    compileModule_names (c := c) hvalid h
  exact ⟨hvalid, m, k, h, hm, tree, imports, htree, hdocument, hfound, hpaths, hroot⟩

end Compiler

end Notebook
