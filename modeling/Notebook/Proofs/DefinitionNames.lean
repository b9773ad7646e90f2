import Notebook.Proofs.Repetitions
import Notebook.Proofs.Wiring

/-! The names of the functions that the modules of a tree define.

A module is named after its level, and a level is the level of the parent followed by a label, with
nothing in between. Labels below ten have one digit, so two paths of such labels never spell the same
level. -/
namespace Notebook

private theorem Registry.labels_entries (r : Registry) :
    r.entries.map RegistryEntry.label = (List.range r.size).map toString := by
  apply List.ext_getElem
  · simp [size]
  · intro place hplace _
    rw [List.length_map] at hplace
    simp [r.inStep.label_eq place _ (List.getElem?_eq_getElem hplace)]

private theorem Registry.nodup_labels (r : Registry) : (r.entries.map RegistryEntry.label).Nodup := by
  rw [labels_entries]
  exact List.nodup_range.map fun _ _ h => Nat.repr_injective h

theorem Registry.exists_label {r : Registry} {entry : RegistryEntry} (h : entry ∈ r.entries) :
    ∃ place < r.size, entry.label = toString place := by
  have hm : entry.label ∈ (List.range r.size).map toString := by
    rw [← labels_entries]
    exact List.mem_map_of_mem h
  obtain ⟨place, hp, hl⟩ := List.mem_map.mp hm
  exact ⟨place, List.mem_range.mp hp, hl.symm⟩

/-- The labels of at most ten modules have one digit each. -/
theorem Registry.length_label {r : Registry} (h : r.size ≤ 10) {entry : RegistryEntry}
    (he : entry ∈ r.entries) : entry.label.length = 1 := by
  obtain ⟨place, hplace, hlabel⟩ := exists_label he
  have hlt : place < 10 ^ 1 := by omega
  have hle : (toString place).length ≤ 1 := (Nat.length_repr_le_iff Nat.one_pos).mpr hlt
  have hpos : 0 < (toString place).length := Nat.length_repr_pos
  rw [hlabel]
  omega

/-- Paths that go on from labels of one length differ if the labels do. -/
theorem eq_of_path_eq {level a b p q : String} (hlen : a.length = b.length)
    (h : level ++ a ++ p = level ++ b ++ q) : a = b := by
  rw [String.append_assoc, String.append_assoc, String.append_right_inj, ← String.toList_inj,
    String.toList_append, String.toList_append] at h
  exact String.toList_inj.mp (List.append_inj_left h (by rwa [String.length_toList, String.length_toList]))

namespace Compiler
variable {c : Compiler} {document : Document} {level : String} {tree : ModuleTree}

/-- The functions that a module defines are those of all modules of its tree, in order. -/
theorem Compiles.definitions_eq (h : c.Compiles document level tree) :
    tree.module.definitions = tree.modules.map GeneratedModule.defineName := by
  induction h with
  | node _ _ _ _ _ _ ih =>
    rw [ModuleTree.modules_node, List.map_append, List.flatMap_map, List.map_flatMap]
    exact congrArg (· ++ _) (List.flatMap_congr ih)

/-- The level of a nested module goes on from the level of the root. -/
theorem Compiles.level_mem (h : c.Compiles document level tree) {m : GeneratedModule}
    (hm : m ∈ tree.modules) :
    (∃ path, m.level = level ++ path) ∧ m.defineName = c.config.defineStem ++ m.level := by
  induction h with
  | @node document level content body registry followed _ _ _ _ _ _ ih =>
    rcases ModuleTree.mem_modules_node.mp hm with ⟨f, hf, hm⟩ | rfl
    · obtain ⟨⟨path, hp⟩, hname⟩ := ih f hf hm
      refine ⟨⟨f.entry.label ++ path, ?_⟩, hname⟩
      rw [hp, RegistryEntry.level, String.append_assoc]
    · exact ⟨⟨"", String.append_empty.symm⟩, rfl⟩

/-- Among modules with at most ten children each, no level occurs twice. -/
theorem Compiles.levels_nodup (h : c.Compiles document level tree)
    (small : ∀ m ∈ tree.modules, m.children.length ≤ 10) :
    (tree.modules.map GeneratedModule.level).Nodup := by
  induction h with
  | @node document level content body registry followed _ _ entries _ _ compiled ih =>
    rw [ModuleTree.modules_node, List.flatMap_map] at small ⊢
    have hsize : registry.size ≤ 10 := by
      have hroot := small _ (List.mem_append_right _ (List.mem_singleton_self _))
      have hlength := congrArg List.length entries
      simp only [moduleOf, List.length_map] at hroot hlength
      rw [Registry.size]
      omega
    have hlabel (f : Followed) (hf : f ∈ followed) : f.entry.label.length = 1 :=
      Registry.length_label hsize (entries ▸ List.mem_map_of_mem hf)
    -- a level below an import goes on from the level here and the label of the import
    have hbelow (f : Followed) (hf : f ∈ followed) {l : String}
        (hl : l ∈ f.tree.modules.map GeneratedModule.level) :
        ∃ path, l = level ++ f.entry.label ++ path := by
      obtain ⟨m, hm, rfl⟩ := List.mem_map.mp hl
      exact ((compiled f hf).level_mem hm).1
    rw [List.map_append, List.map_flatMap, List.nodup_append]
    refine ⟨?_, List.nodup_singleton _, ?_⟩
    · rw [List.nodup_flatMap]
      refine ⟨?_, ?_⟩
      · intro f hf
        exact ih f hf fun m hm =>
          small m (List.mem_append_left _ (List.mem_flatMap.mpr ⟨f, hf, hm⟩))
      · have hlabels : (followed.map fun f => f.entry.label).Nodup := by
          have := registry.nodup_labels
          rwa [← entries, List.map_map] at this
        refine (List.pairwise_map.mp hlabels).imp_of_mem ?_
        intro f g hf hg hne l hlf hlg
        obtain ⟨p, rfl⟩ := hbelow f hf hlf
        obtain ⟨q, hq⟩ := hbelow g hg hlg
        exact hne (eq_of_path_eq ((hlabel f hf).trans (hlabel g hg).symm) hq)
    · intro l hl l' hl' he
      obtain ⟨f, hf, hl⟩ := List.mem_flatMap.mp hl
      obtain ⟨path, hpath⟩ := hbelow f hf hl
      have hlen := congrArg String.length (hpath.symm.trans (he.trans (List.mem_singleton.mp hl')))
      rw [String.length_append, String.length_append, hlabel f hf] at hlen
      change level.length + 1 + path.length = level.length at hlen
      omega

theorem Compiles.defineNames_eq (h : c.Compiles document level tree) :
    tree.modules.map GeneratedModule.defineName =
      (tree.modules.map GeneratedModule.level).map (c.config.defineStem ++ ·) := by
  rw [List.map_map]
  exact List.map_congr_left fun m hm => (h.level_mem hm).2

theorem Compiles.defineNames_nodup (h : c.Compiles document level tree)
    (small : ∀ m ∈ tree.modules, m.children.length ≤ 10) :
    (tree.modules.map GeneratedModule.defineName).Nodup := by
  rw [h.defineNames_eq]
  exact (h.levels_nodup small).map fun _ _ he => (String.append_right_inj _).mp he

theorem specifiers_moduleOf {content : Content} {body : List Fragment} {registry : Registry}
    {followed : List Followed} (read : Content.ofText document.text = .ok content)
    (generated : Chunk.generateAll ⟨document.resource, level, c.config⟩ content.chunks {} =
      .ok (body, registry))
    (entries : followed.map Followed.entry = registry.entries) :
    (c.moduleOf level content.frontmatter body followed).children.map ChildModule.specifier =
      document.specifiers := by
  have hlinked := linked_moduleOf read generated entries
  rw [hlinked.specifiers_eq, hlinked.registry_eq]
  rfl

/-- If no document of a compile registers more than ten specifiers, no two modules define the same
function, and none is reported. A module has one child for each specifier that its document
registers. -/
theorem compileModule_definitions_nodup {depth : Nat} {m : GeneratedModule} {j k : Journal}
    (h : (c.compileModule depth document level).Returns j m k) :
    ∃ tree, (c.compileTree depth document level).Returns j tree k ∧ tree.module = m ∧
      (∀ nested ∈ tree.modules, ∃ source : Document,
        (source = document ∨ ∃ calls, c.library.fetch calls source.resource = .ok source.text) ∧
          c.MadeOf source nested ∧ nested.children.map ChildModule.specifier = source.specifiers) ∧
      ((∀ nested ∈ tree.modules, nested.children.length ≤ 10) →
        m.definitions.Nodup ∧ m.duplicates = [] ∧
          (tree.modules.map GeneratedModule.defineName).Nodup) := by
  obtain ⟨tree, _, ht, h⟩ := Compile.returns_bind.mp h
  obtain ⟨rfl, rfl⟩ := Compile.returns_pure.mp h
  have hcompiles := compiles_of_returns ht
  have hsources := hcompiles.exists_source
    (P := fun source nested => nested.children.map ChildModule.specifier = source.specifiers)
    fun read generated entries _ => specifiers_moduleOf read generated entries
  refine ⟨tree, ht, rfl, hsources.2, ?_⟩
  intro small
  have hnodup := hcompiles.defineNames_nodup small
  have hdefinitions : tree.module.definitions.Nodup := hcompiles.definitions_eq ▸ hnodup
  exact ⟨hdefinitions, GeneratedModule.duplicates_eq_nil hdefinitions, hnodup⟩

/-- Imports nested three deep, with two modules on the second level. -/
theorem compileModule_definitions_nodup_three_deep :
    let c : Compiler := ⟨Library.ofTexts [("a.md", "```{imports}\n{x} from b.md\n{y} from c.md\n```"),
      ("b.md", "```{imports}\n{x} from c.md\n```"), ("c.md", "C")], {}⟩
    let document : Document := ⟨"```{imports}\n{x} from a.md\n```", { path := "n.md" }⟩
    ∃ m k tree, (c.compileModule 3 document "").Returns {} m k ∧
      (c.compileTree 3 document "").Returns {} tree k ∧ tree.module = m ∧
      tree.modules.map (fun nested => nested.children.length) = [0, 1, 0, 2, 1] ∧
      m.definitions.Nodup ∧ m.duplicates = [] ∧
      (tree.modules.map GeneratedModule.defineName).Nodup := by
  intro c document
  obtain ⟨m, k, h, _⟩ := Compile.exists_returns (x := c.compileModule 3 document "") (j := {})
    (f := fun _ => ()) (b := ()) (by decide +kernel)
  obtain ⟨t, _, ht, hlengths⟩ := Compile.exists_returns (x := c.compileTree 3 document "") (j := {})
    (f := fun t => t.modules.map fun nested => nested.children.length) (b := [0, 1, 0, 2, 1])
    (by decide +kernel)
  obtain ⟨tree, htree, hm, _, hnodup⟩ := compileModule_definitions_nodup h
  cases ht.unique htree
  refine ⟨m, k, t, h, htree, hm, hlengths, hnodup ?_⟩
  intro nested hn
  have hmem : nested.children.length ∈ [0, 1, 0, 2, 1] := hlengths ▸ List.mem_map_of_mem hn
  simp only [List.mem_cons, List.not_mem_nil, or_false] at hmem
  omega

end Compiler

end Notebook
