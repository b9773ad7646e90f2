import Notebook.Compile
import Notebook.Proofs.Effects
import Notebook.Proofs.Registry

/-! The import statements of a body. They are made while the registry is still growing, and yet refer
to the labels of the registry that is complete. -/
namespace Notebook

def ImportLine.moduleImport : ImportLine → Option ModuleImport
  | fromModule i => some i
  | load _ => none

def Fragment.imported : Fragment → Option ImportBinding
  | bring binding => some binding
  | define _ => none

def ModuleImport.bindingTo (i : ModuleImport) (constant : String) : ImportBinding :=
  if i.viewOf then ⟨"viewof " ++ i.name, i.newName.map ("viewof " ++ ·), constant⟩
  else ⟨i.name, i.newName, constant⟩

@[simp] theorem ModuleImport.moduleBinding_bindingTo (i : ModuleImport) (constant : String) :
    (i.bindingTo constant).moduleBinding = constant := by
  unfold bindingTo
  split <;> rfl

def Chunk.moduleImports (chunk : Chunk) : List ModuleImport :=
  match chunk.type, ImportLine.parseAll chunk.content with
  | "imports", .ok lines => lines.filterMap ImportLine.moduleImport
  | _, _ => []

/-- The symbols that a document imports from modules, in the order of its lines. -/
def Document.moduleImports (document : Document) : List ModuleImport :=
  match Content.ofText document.text with
  | .ok content => content.chunks.flatMap Chunk.moduleImports
  | .error _ => []

/-- The specifiers that a document registers: those of its lines, each at its first appearance. -/
def Document.specifiers (document : Document) : List String :=
  (({} : Registry).registerAll (document.moduleImports.map ModuleImport.specifier)).specifiers

def Registry.constantOf (r : Registry) (level specifier : String) : String :=
  childBinding level (r.labelOf specifier)

/-- What generating the statements of `imports` does: it registers their specifiers, and it imports
each symbol from the constant of its specifier in the registry that it leaves. -/
structure Emits (level : String) (imports : List ModuleImport) (before : Registry)
    (out : List Fragment × Registry) : Prop where
  registry : out.2 = before.registerAll (imports.map ModuleImport.specifier)
  imported : out.1.filterMap Fragment.imported =
    imports.map fun i => i.bindingTo (out.2.constantOf level i.specifier)

namespace Emits
variable {level : String} {r : Registry}

private theorem of_no_imports {fragments : List Fragment} (h : fragments.filterMap Fragment.imported = []) :
    Emits level [] r (fragments, r) :=
  ⟨rfl, h⟩

/-- Statements that follow leave the constants alone, since a registry only grows at its end. -/
theorem append {is js : List ModuleImport} {first second : List Fragment} {mid last : Registry}
    (h₁ : Emits level is r (first, mid)) (h₂ : Emits level js mid (second, last)) :
    Emits level (is ++ js) r (first ++ second, last) := by
  have hmid : mid = r.registerAll (is.map ModuleImport.specifier) := h₁.registry
  have hlast : last = mid.registerAll (js.map ModuleImport.specifier) := h₂.registry
  refine ⟨?_, ?_⟩
  · rw [List.map_append, Registry.registerAll_append, ← hmid]
    exact hlast
  · rw [List.filterMap_append, h₁.imported, h₂.imported, List.map_append]
    congr 1
    apply List.map_congr_left
    intro i hi
    have hmem : i.specifier ∈ mid.specifiers := by
      rw [hmid]
      exact Registry.mem_registerAll.mpr (.inr (List.mem_map_of_mem hi))
    have hkeep : mid.entries <+: last.entries := hlast ▸ Registry.prefix_registerAll _ _
    simp only [Registry.constantOf, Registry.labelOf_of_prefix hkeep hmem]

end Emits

private theorem ImportLine.imported_symbolFragments (i : ModuleImport) (constant : String) (hidden : Bool) :
    (symbolFragments i constant hidden).filterMap Fragment.imported = [i.bindingTo constant] := by
  unfold symbolFragments ModuleImport.bindingTo
  split <;> rfl

private theorem ImportLine.emits_fragments (site : Site) (hidden : Bool) (r : Registry) (line : ImportLine) :
    Emits site.level line.moduleImport.toList r (line.fragments site hidden r) := by
  cases line with
  | load i => exact .of_no_imports rfl
  | fromModule i =>
    refine ⟨rfl, ?_⟩
    simp only [fragments, imported_symbolFragments, Registry.fst_register]
    rfl

private theorem ImportLine.emits_allFragments (site : Site) (hidden : Bool) (lines : List ImportLine)
    (r : Registry) :
    Emits site.level (lines.filterMap moduleImport) r (allFragments site hidden lines r) := by
  induction lines generalizing r with
  | nil => exact .of_no_imports rfl
  | cons line lines ih =>
    have hsplit : (line :: lines).filterMap moduleImport =
        line.moduleImport.toList ++ lines.filterMap moduleImport := by
      rw [List.filterMap_cons]
      cases line.moduleImport <;> rfl
    rw [hsplit]
    have hfirst : Emits site.level line.moduleImport.toList r
        ((line.fragments site hidden r).1, (line.fragments site hidden r).2) :=
      line.emits_fragments site hidden r
    exact hfirst.append (ih _)

theorem Chunk.imported_templateFragments (chunk : Chunk) (tag : String) :
    (chunk.templateFragments tag).filterMap Fragment.imported = [] := rfl

theorem Chunk.imported_scriptFragments (chunk : Chunk) :
    chunk.scriptFragments.filterMap Fragment.imported = [] := by
  dsimp only [scriptFragments]
  rw [List.filterMap_cons_none rfl]
  split <;> rfl

/-- The ways in which a chunk generates statements. Only one of them touches the registry. -/
theorem Chunk.generate_cases {site : Site} {chunk : Chunk} {r : Registry}
    {out : List Fragment × Registry} (h : chunk.generate site r = .ok out) :
    (chunk.type = "md" ∧ out = (chunk.templateFragments "md", r)) ∨
    (chunk.type = "html" ∧ out = (chunk.templateFragments "html", r)) ∨
    ((chunk.type = "js" ∨ chunk.type = "javascript") ∧ out = (chunk.scriptFragments, r)) ∨
    (chunk.type = "imports" ∧ ∃ lines, ImportLine.parseAll chunk.content = .ok lines ∧
      out = ImportLine.allFragments site (CellName.parse chunk.name).hidden lines r) := by
  unfold generate ChunkKind.ofType at h
  split at h
  · cases h
    exact .inl ⟨‹_›, rfl⟩
  split at h
  · cases h
    exact .inr (.inl ⟨‹_›, rfl⟩)
  split at h
  · rename_i ht
    cases h
    exact .inr (.inr (.inl ⟨by simpa using ht, rfl⟩))
  split at h
  · refine .inr (.inr (.inr ⟨‹_›, ?_⟩))
    cases hl : ImportLine.parseAll chunk.content with
    | error e => simp [importFragments, hl, bind, Except.bind] at h
    | ok lines =>
      refine ⟨lines, rfl, ?_⟩
      simpa [importFragments, hl, bind, Except.bind, pure, Except.pure] using h.symm
  · cases h

private theorem Chunk.moduleImports_of_type_ne {chunk : Chunk} (h : chunk.type ≠ "imports") :
    chunk.moduleImports = [] := by
  unfold moduleImports
  split
  · contradiction
  · rfl

private theorem Chunk.emits_generate {site : Site} {chunk : Chunk} {r : Registry}
    {out : List Fragment × Registry} (h : chunk.generate site r = .ok out) :
    Emits site.level chunk.moduleImports r out := by
  rcases generate_cases h with ⟨ht, rfl⟩ | ⟨ht, rfl⟩ | ⟨ht, rfl⟩ | ⟨ht, lines, hl, rfl⟩
  · rw [moduleImports_of_type_ne (by rw [ht]; decide)]
    exact .of_no_imports (chunk.imported_templateFragments "md")
  · rw [moduleImports_of_type_ne (by rw [ht]; decide)]
    exact .of_no_imports (chunk.imported_templateFragments "html")
  · rw [moduleImports_of_type_ne (by rcases ht with ht | ht <;> rw [ht] <;> decide)]
    exact .of_no_imports chunk.imported_scriptFragments
  · rw [moduleImports, ht, hl]
    exact ImportLine.emits_allFragments site _ lines r

theorem Chunk.generateAll_cons_eq_ok {site : Site} {chunk : Chunk} {chunks : List Chunk} {r last : Registry}
    {body : List Fragment} (h : generateAll site (chunk :: chunks) r = .ok (body, last)) :
    ∃ first mid rest, chunk.generate site r = .ok (first, mid) ∧
      generateAll site chunks mid = .ok (rest, last) ∧ body = first ++ rest := by
  obtain ⟨⟨first, mid⟩, hfirst, h⟩ := bind_eq_ok_iff.mp h
  obtain ⟨⟨rest, _⟩, hrest, h⟩ := bind_eq_ok_iff.mp h
  cases h
  exact ⟨first, mid, rest, hfirst, hrest, rfl⟩

/-- The statements of a whole document import its symbols from the constants of the registry that is
complete in the end. -/
theorem Chunk.emits_generateAll {site : Site} {chunks : List Chunk} {r : Registry}
    {out : List Fragment × Registry} (h : generateAll site chunks r = .ok out) :
    Emits site.level (chunks.flatMap moduleImports) r out := by
  induction chunks generalizing r out with
  | nil =>
    cases h
    exact .of_no_imports rfl
  | cons chunk chunks ih =>
    obtain ⟨first, mid, rest, hfirst, hrest, hout⟩ := generateAll_cons_eq_ok h
    obtain ⟨body, last⟩ := out
    cases hout
    exact (emits_generate hfirst).append (ih hrest)

end Notebook
