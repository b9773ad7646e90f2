import Notebook.Proofs.CompileTree
import Notebook.Proofs.ImportFragments

/-! The statements of a module and the constants declared before them refer to the same children. -/
namespace Notebook

def GeneratedModule.imports (m : GeneratedModule) : List ImportBinding :=
  m.body.filterMap Fragment.imported

private theorem GeneratedModule.mem_imports {m : GeneratedModule} {b : ImportBinding} :
    b ∈ m.imports ↔ Fragment.bring b ∈ m.body := by
  rw [imports, List.mem_filterMap]
  constructor
  · rintro ⟨fragment, hf, hb⟩
    cases fragment with
    | define cell => cases hb
    | bring b' =>
      cases hb
      exact hf
  · exact fun h => ⟨_, h, rfl⟩

/-- The body of a document's module and the children placed before it fit together. -/
structure Wired (config : Config) (document : Document) (m : GeneratedModule) : Prop where
  /-- An import refers to exactly one child. -/
  resolved : ∀ b, Fragment.bring b ∈ m.body →
    ∃! child, child ∈ m.children ∧ child.binding = b.moduleBinding
  /-- A child is there for some import. -/
  used : ∀ child ∈ m.children, ∃ b, Fragment.bring b ∈ m.body ∧ b.moduleBinding = child.binding
  /-- The imports are those of the document's lines, in order, each from the child of its
  specifier. -/
  lines : List.Forall₂ (fun i b => b = i.bindingTo b.moduleBinding ∧
    ∃ child ∈ m.children, child.specifier = i.specifier ∧ child.binding = b.moduleBinding)
    document.moduleImports m.imports
  /-- Two lines import from one constant just if they name the same specifier. -/
  shared : ∀ p ∈ document.moduleImports.zip m.imports, ∀ q ∈ document.moduleImports.zip m.imports,
    p.2.moduleBinding = q.2.moduleBinding ↔ p.1.specifier = q.1.specifier
  /-- A child is named after the level of the module and its own place. -/
  named : ∀ (place : Nat) (child : ChildModule), m.children[place]? = some child →
    child.level = m.level ++ toString place ∧ child.binding = "child" ++ child.level ∧
      child.defineName = config.defineStem ++ child.level
  bindings_nodup : (m.children.map ChildModule.binding).Nodup
  defineNames_nodup : (m.defineName :: m.children.map ChildModule.defineName).Nodup

private theorem childBinding_eq (level label : String) : childBinding level label = "child" ++ (level ++ label) :=
  String.append_assoc

private theorem Registry.constantOf_inj {r : Registry} {level s t : String} (hs : s ∈ r.specifiers) :
    r.constantOf level s = r.constantOf level t ↔ s = t := by
  rw [constantOf, constantOf, childBinding, childBinding, String.append_right_inj, labelOf_inj hs]

namespace Compiler
variable {c : Compiler} {document : Document} {level : String} {tree : ModuleTree}

private theorem Compiles.level_module (h : c.Compiles document level tree) : tree.module.level = level := by
  cases h
  rfl

private theorem Compiles.defineName_module (h : c.Compiles document level tree) :
    tree.module.defineName = c.config.defineStem ++ level := by
  cases h
  rfl

end Compiler

/-- What the registry of a document says about its module: which children there are, and which
constants hold them. -/
structure Linked (document : Document) (registry : Registry) (m : GeneratedModule) : Prop where
  registry_eq : registry = ({} : Registry).registerAll
    (document.moduleImports.map ModuleImport.specifier)
  imports_eq : m.imports =
    document.moduleImports.map fun i => i.bindingTo (registry.constantOf m.level i.specifier)
  specifiers_eq : m.children.map ChildModule.specifier = registry.specifiers
  binding_eq : ∀ child ∈ m.children, child.binding = registry.constantOf m.level child.specifier

namespace Linked
variable {document : Document} {registry : Registry} {m : GeneratedModule}

/-- The lines of the document and the children of the module have the same specifiers. -/
theorem mem_specifiers (h : Linked document registry m) {s : String} :
    s ∈ registry.specifiers ↔ ∃ i ∈ document.moduleImports, i.specifier = s := by
  rw [h.registry_eq, Registry.mem_registerAll, List.mem_map]
  simp [Registry.specifiers]

private theorem child_of_specifier (h : Linked document registry m) {s : String}
    (hs : s ∈ registry.specifiers) :
    ∃ child ∈ m.children, child.specifier = s ∧ child.binding = registry.constantOf m.level s := by
  rw [← h.specifiers_eq] at hs
  obtain ⟨child, hc, rfl⟩ := List.mem_map.mp hs
  exact ⟨child, hc, rfl, h.binding_eq child hc⟩

private theorem specifier_mem (h : Linked document registry m) {child : ChildModule}
    (hc : child ∈ m.children) : child.specifier ∈ registry.specifiers := by
  rw [← h.specifiers_eq]
  exact List.mem_map_of_mem hc

/-- Children with one constant are one child, since specifiers are registered once. -/
theorem eq_of_binding_eq (h : Linked document registry m) {a b : ChildModule}
    (ha : a ∈ m.children) (hb : b ∈ m.children) (he : a.binding = b.binding) : a = b := by
  rw [h.binding_eq a ha, h.binding_eq b hb, Registry.constantOf_inj (h.specifier_mem ha)] at he
  have hnodup : (m.children.map ChildModule.specifier).Nodup := by
    rw [h.specifiers_eq]
    exact registry.nodup_specifiers
  exact List.inj_on_of_nodup_map hnodup ha hb he

private theorem resolved (h : Linked document registry m) (b : ImportBinding)
    (hb : Fragment.bring b ∈ m.body) :
    ∃! child, child ∈ m.children ∧ child.binding = b.moduleBinding := by
  rw [← GeneratedModule.mem_imports, h.imports_eq] at hb
  obtain ⟨i, hi, rfl⟩ := List.mem_map.mp hb
  obtain ⟨child, hc, _, hbind⟩ := h.child_of_specifier (h.mem_specifiers.mpr ⟨i, hi, rfl⟩)
  rw [ModuleImport.moduleBinding_bindingTo]
  refine ⟨child, ⟨hc, hbind⟩, ?_⟩
  rintro other ⟨ho, hobind⟩
  exact h.eq_of_binding_eq ho hc (hobind.trans hbind.symm)

private theorem used (h : Linked document registry m) (child : ChildModule) (hc : child ∈ m.children) :
    ∃ b, Fragment.bring b ∈ m.body ∧ b.moduleBinding = child.binding := by
  obtain ⟨i, hi, hs⟩ := h.mem_specifiers.mp (h.specifier_mem hc)
  refine ⟨i.bindingTo (registry.constantOf m.level i.specifier), ?_, ?_⟩
  · rw [← GeneratedModule.mem_imports, h.imports_eq]
    exact List.mem_map_of_mem hi
  · rw [ModuleImport.moduleBinding_bindingTo, hs, h.binding_eq child hc]

theorem lines (h : Linked document registry m) :
    List.Forall₂ (fun i b => b = i.bindingTo b.moduleBinding ∧
      ∃ child ∈ m.children, child.specifier = i.specifier ∧ child.binding = b.moduleBinding)
      document.moduleImports m.imports := by
  rw [h.imports_eq, List.forall₂_map_right_iff, List.forall₂_same]
  intro i hi
  rw [ModuleImport.moduleBinding_bindingTo]
  exact ⟨rfl, h.child_of_specifier (h.mem_specifiers.mpr ⟨i, hi, rfl⟩)⟩

private theorem shared (h : Linked document registry m) :
    ∀ p ∈ document.moduleImports.zip m.imports, ∀ q ∈ document.moduleImports.zip m.imports,
      p.2.moduleBinding = q.2.moduleBinding ↔ p.1.specifier = q.1.specifier := by
  have hpairs : List.Forall₂ (fun i b => i ∈ document.moduleImports ∧
      b.moduleBinding = registry.constantOf m.level i.specifier) document.moduleImports m.imports := by
    rw [h.imports_eq, List.forall₂_map_right_iff, List.forall₂_same]
    exact fun i hi => ⟨hi, ModuleImport.moduleBinding_bindingTo i _⟩
  have hpair {p} (hp : p ∈ document.moduleImports.zip m.imports) := (List.forall₂_iff_zip.mp hpairs).2 hp
  intro p hp q hq
  rw [(hpair hp).2, (hpair hq).2]
  exact Registry.constantOf_inj (h.mem_specifiers.mpr ⟨p.1, (hpair hp).1, rfl⟩)

end Linked

/-- Names made of a common start and the place in a list are all different, also from the start. -/
theorem nodup_of_numbered {names : List String} {start : String}
    (h : ∀ (place : Nat) (name : String), names[place]? = some name → name = start ++ toString place) :
    (start :: names).Nodup := by
  have hnonempty (place : Nat) : start ≠ start ++ toString place := by
    intro he
    have hlen := congrArg String.length he
    have hpos : 0 < (toString place).length := Nat.length_repr_pos
    rw [String.length_append] at hlen
    omega
  rw [List.nodup_cons]
  constructor
  · intro hm
    obtain ⟨place, hplace⟩ := List.mem_iff_getElem?.mp hm
    exact hnonempty place (h place start hplace)
  · rw [List.nodup_iff_getElem?_ne_getElem?]
    intro a b hab hb he
    rw [List.getElem?_eq_getElem hb] at he
    have ha := h a _ he
    have hb := h b _ (List.getElem?_eq_getElem hb)
    exact absurd (Nat.repr_injective ((String.append_right_inj start).mp (ha.symm.trans hb))) (by omega)

namespace Compiler
variable {c : Compiler} {document : Document} {level : String} {content : Content}
  {body : List Fragment} {registry : Registry} {followed : List Followed}

theorem linked_moduleOf (read : Content.ofText document.text = .ok content)
    (generated : Chunk.generateAll ⟨document.resource, level, c.config⟩ content.chunks {} =
      .ok (body, registry))
    (entries : followed.map Followed.entry = registry.entries) :
    Linked document registry (c.moduleOf level content.frontmatter body followed) := by
  have hemits := Chunk.emits_generateAll generated
  have himports : document.moduleImports = content.chunks.flatMap Chunk.moduleImports := by
    rw [Document.moduleImports, read]
  have hregistry : registry = ({} : Registry).registerAll
      (document.moduleImports.map ModuleImport.specifier) := by
    rw [himports]
    exact hemits.registry
  have hentries := entries.trans registry.entries_eq_map
  refine ⟨hregistry, ?_, ?_, ?_⟩
  · rw [himports]
    exact hemits.imported
  · have hspecifiers := congrArg (List.map RegistryEntry.specifier) hentries
    simpa [moduleOf, Followed.child, childOf, Function.comp_def] using hspecifiers
  · intro child hc
    obtain ⟨f, hf, rfl⟩ := List.mem_map.mp hc
    have hmem : f.entry ∈ registry.specifiers.map fun s => (⟨s, registry.labelOf s⟩ : RegistryEntry) :=
      hentries ▸ List.mem_map_of_mem hf
    obtain ⟨s, _, hs⟩ := List.mem_map.mp hmem
    simp [Followed.child, childOf, moduleOf, Registry.constantOf, ← hs]

private theorem named_moduleOf (entries : followed.map Followed.entry = registry.entries)
    (compiled : ∀ f ∈ followed, c.Compiles f.document (f.entry.level level) f.tree)
    {place : Nat} {child : ChildModule}
    (h : (c.moduleOf level content.frontmatter body followed).children[place]? = some child) :
    child.level = level ++ toString place ∧ child.binding = "child" ++ child.level ∧
      child.defineName = c.config.defineStem ++ child.level := by
  obtain ⟨f, hf, rfl⟩ := Option.map_eq_some_iff.mp (List.getElem?_map ▸ h)
  have hentry : registry.entries[place]? = some f.entry := by
    rw [← entries, List.getElem?_map, hf]
    rfl
  have hlabel : f.entry.label = toString place := registry.inStep.label_eq place _ hentry
  refine ⟨?_, ?_, ?_⟩
  · rw [← hlabel]
    rfl
  · exact childBinding_eq level f.entry.label
  · exact (compiled f (List.mem_of_getElem? hf)).defineName_module

/-- The module of every document of a compile is wired. -/
theorem wired_moduleOf (read : Content.ofText document.text = .ok content)
    (generated : Chunk.generateAll ⟨document.resource, level, c.config⟩ content.chunks {} =
      .ok (body, registry))
    (entries : followed.map Followed.entry = registry.entries)
    (compiled : ∀ f ∈ followed, c.Compiles f.document (f.entry.level level) f.tree) :
    Wired c.config document (c.moduleOf level content.frontmatter body followed) := by
  have hlinked := linked_moduleOf read generated entries
  refine ⟨hlinked.resolved, hlinked.used, hlinked.lines, hlinked.shared,
    fun place child h => named_moduleOf entries compiled h, ?_, ?_⟩
  · apply List.Nodup.of_cons (a := "child" ++ level)
    apply nodup_of_numbered
    intro place name h
    obtain ⟨child, hc, rfl⟩ := Option.map_eq_some_iff.mp (List.getElem?_map ▸ h)
    obtain ⟨hl, hb, _⟩ := named_moduleOf entries compiled hc
    rw [hb, hl, String.append_assoc]
  · apply nodup_of_numbered
    intro place name h
    obtain ⟨child, hc, rfl⟩ := Option.map_eq_some_iff.mp (List.getElem?_map ▸ h)
    obtain ⟨hl, _, hd⟩ := named_moduleOf entries compiled hc
    rw [hd, hl, ← String.append_assoc]
    rfl

/-- What holds of a document and the module that is made of it holds of every module of a tree, each
with the document that it is made of. What holds of the root and is kept from a document to those
that it imports holds of all these documents. -/
theorem Compiles.exists_source_of_kept {I : Document → Prop} {P : Document → GeneratedModule → Prop}
    (kept : ∀ {d e : Document} {s : String}, I d →
      (∃ calls, c.library.locate calls s d.resource = .ok e.resource) →
      (∃ calls, c.library.fetch calls e.resource = .ok e.text) → I e)
    (node : ∀ {document : Document} {level : String} {content : Content} {body : List Fragment}
      {registry : Registry} {followed : List Followed},
      Content.ofText document.text = .ok content →
      Chunk.generateAll ⟨document.resource, level, c.config⟩ content.chunks {} = .ok (body, registry) →
      followed.map Followed.entry = registry.entries →
      (∀ f ∈ followed, c.Compiles f.document (f.entry.level level) f.tree) →
      P document (c.moduleOf level content.frontmatter body followed))
    {tree : ModuleTree} (h : c.Compiles document level tree) (hroot : I document) :
    P document tree.module ∧ ∀ m ∈ tree.modules, ∃ source, I source ∧ c.MadeOf source m ∧ P source m := by
  induction h with
  | node read generated entries located fetched compiled ih =>
    have hmodule := node read generated entries compiled
    refine ⟨hmodule, ?_⟩
    intro m hm
    rcases ModuleTree.mem_modules_node.mp hm with ⟨f, hf, hm⟩ | rfl
    · exact (ih f hf (kept hroot (located f hf) (fetched f hf))).2 m hm
    · exact ⟨_, hroot, ⟨_, _, read, generated⟩, hmodule⟩

/-- The documents of a tree are the root and such as have been fetched. -/
theorem Compiles.exists_source {P : Document → GeneratedModule → Prop}
    (node : ∀ {document : Document} {level : String} {content : Content} {body : List Fragment}
      {registry : Registry} {followed : List Followed},
      Content.ofText document.text = .ok content →
      Chunk.generateAll ⟨document.resource, level, c.config⟩ content.chunks {} = .ok (body, registry) →
      followed.map Followed.entry = registry.entries →
      (∀ f ∈ followed, c.Compiles f.document (f.entry.level level) f.tree) →
      P document (c.moduleOf level content.frontmatter body followed))
    {tree : ModuleTree} (h : c.Compiles document level tree) :
    P document tree.module ∧ ∀ m ∈ tree.modules, ∃ source : Document,
      (source = document ∨ ∃ calls, c.library.fetch calls source.resource = .ok source.text) ∧
        c.MadeOf source m ∧ P source m :=
  h.exists_source_of_kept (fun _ _ fetched => .inr fetched) node (.inl rfl)

/-- If a document compiles, the import statements and the children of its module fit together, and so
they do in all the modules nested in it, however many imports the documents have. -/
theorem compileModule_wired {depth : Nat} {m : GeneratedModule} {j k : Journal}
    (h : (c.compileModule depth document level).Returns j m k) :
    ∃ tree, (c.compileTree depth document level).Returns j tree k ∧ tree.module = m ∧
      m.level = level ∧ Wired c.config document m ∧
      ∀ nested ∈ tree.modules, ∃ source : Document,
        (source = document ∨ ∃ calls, c.library.fetch calls source.resource = .ok source.text) ∧
          c.MadeOf source nested ∧ Wired c.config source nested := by
  obtain ⟨tree, _, ht, h⟩ := Compile.returns_bind.mp h
  obtain ⟨rfl, rfl⟩ := Compile.returns_pure.mp h
  have hcompiles := compiles_of_returns ht
  exact ⟨tree, ht, rfl, hcompiles.level_module, hcompiles.exists_source wired_moduleOf⟩

/-- Two modules imported over three lines, one of which imports the other. -/
theorem compileModule_wired_nested :
    let c : Compiler := ⟨Library.ofTexts [("a.md", "```{imports}\n{x} from b.md\n```"), ("b.md", "B")], {}⟩
    let document : Document :=
      ⟨"```{imports}\n{x} from a.md\n{y} from b.md\n{viewof z} from a.md\n```", { path := "n.md" }⟩
    ∃ m k, (c.compileModule 2 document "").Returns {} m k ∧
      m.children.map ChildModule.binding = ["child0", "child1"] ∧
      ∃ tree, (c.compileTree 2 document "").Returns {} tree k ∧ tree.module = m ∧ m.level = "" ∧
        Wired c.config document m ∧
        ∀ nested ∈ tree.modules, ∃ source : Document,
          (source = document ∨ ∃ calls, c.library.fetch calls source.resource = .ok source.text) ∧
            c.MadeOf source nested ∧ Wired c.config source nested := by
  intro c document
  obtain ⟨m, k, h, hm⟩ := Compile.exists_returns (x := c.compileModule 2 document "") (j := {})
    (f := fun m => m.children.map ChildModule.binding) (b := ["child0", "child1"]) (by decide +kernel)
  exact ⟨m, k, h, hm, compileModule_wired h⟩

end Compiler

end Notebook
