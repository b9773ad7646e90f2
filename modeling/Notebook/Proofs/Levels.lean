import Notebook.Proofs.CallOrder

/-! Compiling one document at two levels.

The two runs go in step: they ask the same of the library, one after the other, and end with the same
error or with modules that correspond. The level goes into names only, where it stands between a fixed
start and the labels of the imports. -/
namespace Notebook

inductive SameOutcome {α β : Type} (R : α → β → Prop) : Except Error α → Except Error β → Prop
  | ok {a : α} {b : β} (related : R a b) : SameOutcome R (.ok a) (.ok b)
  | error (e : Error) : SameOutcome R (.error e) (.error e)

namespace SameOutcome
variable {α β γ δ : Type} {R : α → β → Prop} {S : γ → δ → Prop} {x : Except Error α}
  {y : Except Error β}

private theorem refl (x : Except Error α) : SameOutcome Eq x x := by
  cases x with
  | ok a => exact .ok rfl
  | error e => exact .error e

theorem bind {f : α → Except Error γ} {g : β → Except Error δ} (h : SameOutcome R x y)
    (hf : ∀ a b, R a b → SameOutcome S (f a) (g b)) : SameOutcome S (x >>= f) (y >>= g) := by
  cases h with
  | ok related => exact hf _ _ related
  | error e => exact .error e

theorem imp {R' : α → β → Prop} (h : SameOutcome R x y) (himp : ∀ a b, R a b → R' a b) :
    SameOutcome R' x y := by
  cases h with
  | ok related => exact .ok (himp _ _ related)
  | error e => exact .error e

theorem map {f : α → γ} {g : β → δ} (h : SameOutcome R x y) (hf : ∀ a b, R a b → S (f a) (g b)) :
    SameOutcome S (x.map f) (y.map g) := by
  cases h with
  | ok related => exact .ok (hf _ _ related)
  | error e => exact .error e

end SameOutcome

namespace Compile
variable {α β γ δ : Type} {R : α → β → Prop} {S : γ → δ → Prop}

/-- Two computations run in step: after the same calls they make the same calls, and they end with the
same error or with related results. What they note may differ. -/
def InStep (R : α → β → Prop) (x : Compile α) (y : Compile β) : Prop :=
  ∀ j k : Journal, j.calls = k.calls →
    (x.run.run j).2.calls = (y.run.run k).2.calls ∧
      SameOutcome R (x.run.run j).1 (y.run.run k).1

namespace InStep
variable {x : Compile α} {y : Compile β}

theorem pure {a : α} {b : β} (h : R a b) : InStep R (pure a) (pure b) :=
  fun _ _ hcalls => ⟨hcalls, .ok h⟩

theorem throw (e : Error) : InStep R (throw e) (throw e) :=
  fun _ _ hcalls => ⟨hcalls, .error e⟩

theorem bind {f : α → Compile γ} {g : β → Compile δ} (h : InStep R x y)
    (hf : ∀ a b, R a b → InStep S (f a) (g b)) : InStep S (x >>= f) (y >>= g) := by
  intro j k hcalls
  obtain ⟨hmid, hout⟩ := h j k hcalls
  rw [run_bind, run_bind]
  rcases hx : x.run.run j with ⟨out, j'⟩
  rcases hy : y.run.run k with ⟨out', k'⟩
  rw [hx, hy] at hmid hout
  cases hout with
  | ok related => exact hf _ _ related j' k' hmid
  | error e => exact ⟨hmid, .error e⟩

theorem notes (ns ns' : List Note) : InStep Eq (notes ns) (notes ns') :=
  fun _ _ hcalls => ⟨hcalls, .ok rfl⟩

theorem note (n n' : Note) : InStep Eq (note n) (note n') :=
  fun _ _ hcalls => ⟨hcalls, .ok rfl⟩

theorem lift {result : Except Error α} {result' : Except Error β} (h : SameOutcome R result result') :
    InStep R (lift result) (lift result') := by
  cases h with
  | ok related => exact .pure related
  | error e => exact .throw e

/-- The library is asked after the same calls, so it gives the same answer. -/
theorem locate (library : Library) (s : String) (origin : Resource) :
    InStep Eq (locate library s origin) (locate library s origin) := by
  intro j k hcalls
  cases hj : library.locate j.calls s origin with
  | error cause =>
    rw [run_locate_of_error hj, run_locate_of_error (hcalls ▸ hj), hcalls]
    exact ⟨rfl, .error _⟩
  | ok resource =>
    rw [run_locate_of_ok hj, run_locate_of_ok (hcalls ▸ hj), hcalls]
    exact ⟨rfl, .ok rfl⟩

theorem fetch (library : Library) (resource : Resource) :
    InStep Eq (fetch library resource) (fetch library resource) := by
  intro j k hcalls
  rw [run_fetch, run_fetch, hcalls]
  exact ⟨rfl, .refl _⟩

theorem mapM {f : γ → Compile α} {g : γ → Compile β} {xs : List γ}
    (h : ∀ x ∈ xs, InStep R (f x) (g x)) : InStep (List.Forall₂ R) (xs.mapM f) (xs.mapM g) := by
  induction xs with
  | nil => exact .pure .nil
  | cons x xs ih =>
    rw [List.mapM_cons, List.mapM_cons]
    refine (h x List.mem_cons_self).bind fun a b hab => ?_
    refine (ih fun x' hx => h x' (List.mem_cons_of_mem x hx)).bind fun as bs habs => ?_
    exact .pure (.cons hab habs)

end InStep

/-- A computation comes to one end only. -/
theorem Settles.unique {x : Nat → Compile α} {j k k' : Journal} {out out' : Except Error α}
    (h : Settles x j out k) (h' : Settles x j out' k') : out = out' ∧ k = k' := by
  obtain ⟨enough, h⟩ := h
  obtain ⟨enough', h'⟩ := h'
  have hend := (h _ (Nat.le_max_left enough enough')).symm.trans (h' _ (Nat.le_max_right enough enough'))
  exact Prod.mk.inj hend

end Compile

/-- The second name is the first one with the level `l'` in place of `l`, after a fixed start. -/
def Relabels (start l l' name name' : String) : Prop :=
  ∃ rest, name = start ++ l ++ rest ∧ name' = start ++ l' ++ rest

namespace Relabels
variable {start l l' path name name' : String}

private theorem of_level (start l l' : String) : Relabels start l l' (start ++ l) (start ++ l') :=
  ⟨"", String.append_empty.symm, String.append_empty.symm⟩

/-- Levels below `l` and `l'` by the same path are replaced along with them. -/
theorem of_append (h : Relabels start (l ++ path) (l' ++ path) name name') :
    Relabels start l l' name name' := by
  obtain ⟨rest, rfl, rfl⟩ := h
  refine ⟨path ++ rest, ?_, ?_⟩
  · simp only [String.append_assoc]
  · simp only [String.append_assoc]

end Relabels

/-- Statements at two levels: a cell is the same, and an import differs in its constant only. -/
inductive Fragment.Relabeled (l l' : String) : Fragment → Fragment → Prop
  | define (cell : Cell) : Relabeled l l' (.define cell) (.define cell)
  | bring {name : String} {newName : Option String} {constant constant' : String}
      (constants : Relabels "child" l l' constant constant') :
      Relabeled l l' (.bring ⟨name, newName, constant⟩) (.bring ⟨name, newName, constant'⟩)

structure ChildModule.Relabeled (stem l l' : String) (child child' : ChildModule) : Prop where
  specifier_eq : child'.specifier = child.specifier
  resource_eq : child'.resource = child.resource
  level : Relabels "" l l' child.level child'.level
  binding : Relabels "child" l l' child.binding child'.binding
  defineName : Relabels stem l l' child.defineName child'.defineName
  definitions : List.Forall₂ (Relabels stem l l') child.definitions child'.definitions

structure GeneratedModule.Relabeled (stem l l' : String) (m m' : GeneratedModule) : Prop where
  level : m.level = l ∧ m'.level = l'
  defineName : m.defineName = stem ++ l ∧ m'.defineName = stem ++ l'
  frontmatter_eq : m'.frontmatter = m.frontmatter
  children : List.Forall₂ (ChildModule.Relabeled stem l l') m.children m'.children
  body : List.Forall₂ (Fragment.Relabeled l l') m.body m'.body
  definitions : List.Forall₂ (Relabels stem l l') m.definitions m'.definitions

/-- All modules of two trees correspond, those that are nested at levels that go on alike. -/
def ModuleTree.Relabeled (stem l l' : String) (tree tree' : ModuleTree) : Prop :=
  List.Forall₂ (fun m m' => ∃ path, GeneratedModule.Relabeled stem (l ++ path) (l' ++ path) m m')
    tree.modules tree'.modules

def BodiesAgree (l l' : String) (out out' : List Fragment × Registry) : Prop :=
  List.Forall₂ (Fragment.Relabeled l l') out.1 out'.1 ∧ out.2 = out'.2

section Bodies
variable {resource : Resource} {config : Config} {l l' : String}

private theorem relabeled_of_defines {fragments : List Fragment}
    (h : fragments.filterMap Fragment.imported = []) :
    List.Forall₂ (Fragment.Relabeled l l') fragments fragments := by
  rw [List.forall₂_same]
  intro fragment hf
  cases fragment with
  | define cell => exact .define cell
  | bring binding => simpa [Fragment.imported] using List.filterMap_eq_nil_iff.mp h _ hf

private theorem ImportLine.relabeled_symbolFragments (i : ModuleImport) (label : String) (hidden : Bool) :
    List.Forall₂ (Fragment.Relabeled l l') (symbolFragments i (childBinding l label) hidden)
      (symbolFragments i (childBinding l' label) hidden) := by
  have hconstants : Relabels "child" l l' (childBinding l label) (childBinding l' label) :=
    ⟨label, rfl, rfl⟩
  unfold symbolFragments
  split
  · exact .cons (.bring hconstants) (.cons (.define _) .nil)
  · exact .cons (.bring hconstants) .nil

private theorem ImportLine.bodiesAgree_fragments (line : ImportLine) (hidden : Bool) (r : Registry) :
    BodiesAgree l l' (line.fragments ⟨resource, l, config⟩ hidden r)
      (line.fragments ⟨resource, l', config⟩ hidden r) := by
  cases line with
  | load i => exact ⟨.cons (.define _) .nil, rfl⟩
  | fromModule i => exact ⟨relabeled_symbolFragments i _ hidden, rfl⟩

private theorem ImportLine.allFragments_cons (site : Site) (hidden : Bool) (line : ImportLine)
    (lines : List ImportLine) (r : Registry) :
    allFragments site hidden (line :: lines) r =
      ((line.fragments site hidden r).1 ++
          (allFragments site hidden lines (line.fragments site hidden r).2).1,
        (allFragments site hidden lines (line.fragments site hidden r).2).2) := rfl

private theorem ImportLine.bodiesAgree_allFragments (lines : List ImportLine) (hidden : Bool) (r : Registry) :
    BodiesAgree l l' (allFragments ⟨resource, l, config⟩ hidden lines r)
      (allFragments ⟨resource, l', config⟩ hidden lines r) := by
  induction lines generalizing r with
  | nil => exact ⟨.nil, rfl⟩
  | cons line lines ih =>
    have hfirst : BodiesAgree l l' (line.fragments ⟨resource, l, config⟩ hidden r)
        (line.fragments ⟨resource, l', config⟩ hidden r) := line.bodiesAgree_fragments hidden r
    obtain ⟨hrest, hlast⟩ := ih (line.fragments ⟨resource, l, config⟩ hidden r).2
    rw [allFragments_cons, allFragments_cons, ← hfirst.2]
    exact ⟨List.rel_append hfirst.1 hrest, hlast⟩

private theorem Chunk.sameOutcome_generate (chunk : Chunk) (r : Registry) :
    SameOutcome (BodiesAgree l l') (chunk.generate ⟨resource, l, config⟩ r)
      (chunk.generate ⟨resource, l', config⟩ r) := by
  refine (SameOutcome.refl (ChunkKind.ofType chunk.type)).bind ?_
  rintro kind _ rfl
  cases kind with
  | markdown => exact .ok ⟨relabeled_of_defines (chunk.imported_templateFragments "md"), rfl⟩
  | html => exact .ok ⟨relabeled_of_defines (chunk.imported_templateFragments "html"), rfl⟩
  | script => exact .ok ⟨relabeled_of_defines chunk.imported_scriptFragments, rfl⟩
  | imports =>
    refine (SameOutcome.refl (ImportLine.parseAll chunk.content)).bind ?_
    rintro lines _ rfl
    exact .ok (ImportLine.bodiesAgree_allFragments lines _ r)

/-- The level has no part in the errors of chunks and in the registry. -/
theorem Chunk.sameOutcome_generateAll (chunks : List Chunk) (r : Registry) :
    SameOutcome (BodiesAgree l l') (generateAll ⟨resource, l, config⟩ chunks r)
      (generateAll ⟨resource, l', config⟩ chunks r) := by
  induction chunks generalizing r with
  | nil => exact .ok ⟨.nil, rfl⟩
  | cons chunk chunks ih =>
    refine (chunk.sameOutcome_generate r).bind ?_
    rintro ⟨first, mid⟩ ⟨first', mid'⟩ ⟨hfirst, hmid⟩
    cases hmid
    refine (ih mid).bind ?_
    rintro ⟨rest, last⟩ ⟨rest', last'⟩ ⟨hrest, hlast⟩
    exact .ok ⟨List.rel_append hfirst hrest, hlast⟩

end Bodies

namespace Compiler
variable {c : Compiler} {stem l l' : String}

/-- Imported modules are named after the levels of the modules that import them. -/
theorem relabeled_childOf {entry : RegistryEntry} {resource : Resource} {m m' : GeneratedModule}
    (h : GeneratedModule.Relabeled stem (entry.level l) (entry.level l') m m') :
    ChildModule.Relabeled stem l l' (childOf l entry resource m) (childOf l' entry resource m') where
  specifier_eq := rfl
  resource_eq := rfl
  level := by
    refine ⟨entry.label, ?_, ?_⟩
    · rw [String.empty_append]
      rfl
    · rw [String.empty_append]
      rfl
  binding := ⟨entry.label, rfl, rfl⟩
  defineName := by
    have hnames : Relabels stem (l ++ entry.label) (l' ++ entry.label) m.defineName m'.defineName := by
      rw [h.defineName.1, h.defineName.2]
      exact .of_level _ _ _
    exact hnames.of_append
  definitions := h.definitions.imp fun _ _ hname => hname.of_append

def ImportsAgree (stem l l' : String) (out out' : ChildModule × ModuleTree) : Prop :=
  ChildModule.Relabeled stem l l' out.1 out'.1 ∧ ModuleTree.Relabeled stem l l' out.2 out'.2

def TreesAgree (stem l l' : String) (tree tree' : ModuleTree) : Prop :=
  GeneratedModule.Relabeled stem l l' tree.module tree'.module ∧
    ModuleTree.Relabeled stem l l' tree tree'

theorem TreesAgree.node {m m' : GeneratedModule} {imports imports' : List ModuleTree}
    (hmodule : GeneratedModule.Relabeled stem l l' m m')
    (himports : List.Forall₂ (ModuleTree.Relabeled stem l l') imports imports') :
    TreesAgree stem l l' (.node m imports) (.node m' imports') := by
  refine ⟨hmodule, ?_⟩
  have hroot : ∃ path, GeneratedModule.Relabeled stem (l ++ path) (l' ++ path) m m' := by
    refine ⟨"", ?_⟩
    rw [String.append_empty, String.append_empty]
    exact hmodule
  rw [ModuleTree.Relabeled, ModuleTree.modules_node, ModuleTree.modules_node]
  exact List.rel_append (List.rel_flatMap himports fun _ _ h => h) (.cons hroot .nil)

section Inner
variable {inner : Option (Document → String → Compile ModuleTree)}
  (hinner : ∀ compile ∈ inner, ∀ document l l',
    Compile.InStep (TreesAgree c.config.defineStem l l') (compile document l) (compile document l'))
include hinner

private theorem inStep_importModule (origin : Resource) (entry : RegistryEntry) :
    Compile.InStep (ImportsAgree c.config.defineStem l l') (c.importModule inner origin l entry)
      (c.importModule inner origin l' entry) := by
  refine (Compile.InStep.locate _ _ _).bind ?_
  rintro resource _ rfl
  refine (Compile.InStep.fetch _ _).bind ?_
  rintro text _ rfl
  cases inner with
  | none => exact .throw _
  | some compile =>
    refine (hinner compile rfl _ _ _).bind ?_
    rintro tree tree' ⟨hmodule, hmodules⟩
    refine .pure ⟨relabeled_childOf hmodule, hmodules.imp ?_⟩
    rintro m m' ⟨path, hm⟩
    refine ⟨entry.label ++ path, ?_⟩
    rw [← String.append_assoc, ← String.append_assoc]
    exact hm

private theorem inStep_compileWith (document : Document) :
    Compile.InStep (TreesAgree c.config.defineStem l l') (c.compileWith inner document l)
      (c.compileWith inner document l') := by
  refine (Compile.InStep.note _ _).bind fun _ _ _ => ?_
  refine (Compile.InStep.lift (.refl _)).bind ?_
  rintro content _ rfl
  refine (Compile.InStep.note _ _).bind fun _ _ _ => ?_
  refine (Compile.InStep.notes _ _).bind fun _ _ _ => ?_
  refine (Compile.InStep.lift (Chunk.sameOutcome_generateAll content.chunks {})).bind ?_
  rintro ⟨body, registry⟩ ⟨body', registry'⟩ ⟨hbody, hregistry⟩
  cases hregistry
  refine (Compile.InStep.mapM fun entry _ => inStep_importModule hinner _ entry).bind ?_
  intro imports imports' himports
  refine (Compile.InStep.note _ _).bind fun _ _ _ => .pure ?_
  have hchildren : List.Forall₂ (ChildModule.Relabeled c.config.defineStem l l')
      (imports.map Prod.fst) (imports'.map Prod.fst) :=
    List.rel_map (fun _ _ h => h.1) himports
  refine .node ⟨⟨rfl, rfl⟩, ⟨rfl, rfl⟩, rfl, hchildren, hbody, ?_⟩ ?_
  · have hnested := List.rel_flatMap hchildren fun _ _ h => h.definitions
    exact List.rel_append hnested (.cons (.of_level _ l l') .nil)
  · exact List.rel_map (fun _ _ h => h.2) himports

end Inner

private theorem inStep_compileTree (c : Compiler) (depth : Nat) (document : Document) (l l' : String) :
    Compile.InStep (TreesAgree c.config.defineStem l l') (c.compileTree depth document l)
      (c.compileTree depth document l') := by
  induction depth generalizing document l l' with
  | zero => exact inStep_compileWith (by simp) document
  | succ depth ih =>
    refine inStep_compileWith ?_ document
    intro compile hcompile
    cases hcompile
    exact ih

/-- The level only renames. At two levels, a document is compiled with the same calls, at whatever depth
the compile is cut off, and either both compiles fail with the same error or both succeed with modules
that correspond, down to those that are nested in them. If the compile at one level comes to an end, so
does the compile at the other. -/
theorem compileModule_relabeled (c : Compiler) (document : Document) (l l' : String) (j : Journal) :
    (∀ depth,
      ((c.compileModule depth document l).run.run j).2.calls =
        ((c.compileModule depth document l').run.run j).2.calls ∧
      SameOutcome (GeneratedModule.Relabeled c.config.defineStem l l')
        ((c.compileModule depth document l).run.run j).1
        ((c.compileModule depth document l').run.run j).1 ∧
      SameOutcome (ModuleTree.Relabeled c.config.defineStem l l')
        ((c.compileTree depth document l).run.run j).1
        ((c.compileTree depth document l').run.run j).1) ∧
    ∀ out k, Compile.Settles (fun depth => c.compileModule depth document l) j out k →
      ∃ out' k', Compile.Settles (fun depth => c.compileModule depth document l') j out' k' ∧
        k'.calls = k.calls ∧
        SameOutcome (GeneratedModule.Relabeled c.config.defineStem l l') out out' := by
  have hmodule (depth : Nat) :
      ((c.compileModule depth document l).run.run j).2.calls =
        ((c.compileModule depth document l').run.run j).2.calls ∧
      SameOutcome (GeneratedModule.Relabeled c.config.defineStem l l')
        ((c.compileModule depth document l).run.run j).1
        ((c.compileModule depth document l').run.run j).1 := by
    rw [run_compileModule, run_compileModule]
    obtain ⟨hcalls, hout⟩ := c.inStep_compileTree depth document l l' j j rfl
    exact ⟨hcalls, hout.map fun _ _ h => h.1⟩
  refine ⟨fun depth => ⟨(hmodule depth).1, (hmodule depth).2, ?_⟩, ?_⟩
  · exact (c.inStep_compileTree depth document l l' j j rfl).2.imp fun _ _ h => h.2
  · rintro out k ⟨enough, hsettles⟩
    -- deep enough for the first compile to settle, and for the second one not to be cut off
    let depth := enough + k.calls.countP Call.isFetch
    obtain ⟨hcalls, hout⟩ := hmodule depth
    rcases hrun : (c.compileModule depth document l').run.run j with ⟨out', k'⟩
    rw [hsettles depth (Nat.le_add_right _ _), hrun] at hcalls hout
    refine ⟨out', k', settles_compileModule hrun ?_, hcalls.symm, hout⟩
    rw [← hcalls]
    exact Nat.le_add_left _ _

/-- A document with two imports, one of which imports the other, as the root and as an import itself. -/
theorem compileModule_relabeled_root :
    let c : Compiler := ⟨Library.ofTexts [("a.md", "```{imports}\n{x} from b.md\n```"), ("b.md", "B")], {}⟩
    let document : Document := ⟨"```{imports}\n{x} from a.md\n{y} from b.md\n```", { path := "n.md" }⟩
    ∃ m k m' k', Compile.Settles (fun depth => c.compileModule depth document "") {} (.ok m) k ∧
      Compile.Settles (fun depth => c.compileModule depth document "7") {} (.ok m') k' ∧
      m.definitions = ["define00", "define0", "define1", "define"] ∧
      m'.definitions = ["define700", "define70", "define71", "define7"] ∧
      k'.calls = k.calls ∧ GeneratedModule.Relabeled "define" "" "7" m m' := by
  intro c document
  obtain ⟨m, k, h, hm⟩ := Compile.exists_returns (x := c.compileModule 3 document "") (j := {})
    (f := GeneratedModule.definitions) (b := ["define00", "define0", "define1", "define"])
    (by decide +kernel)
  obtain ⟨m', k', h', hm'⟩ := Compile.exists_returns (x := c.compileModule 3 document "7") (j := {})
    (f := GeneratedModule.definitions) (b := ["define700", "define70", "define71", "define7"])
    (by decide +kernel)
  have hfetches : ((c.compileModule 3 document "").run.run {}).2.calls.countP Call.isFetch ≤ 3 := by
    decide +kernel
  have hfetches' : ((c.compileModule 3 document "7").run.run {}).2.calls.countP Call.isFetch ≤ 3 := by
    decide +kernel
  rw [h] at hfetches
  rw [h'] at hfetches'
  have hsettles := settles_compileModule h hfetches
  have hsettles' := settles_compileModule h' hfetches'
  obtain ⟨out, l, hs, hcalls, hout⟩ := (compileModule_relabeled c document "" "7" {}).2 (.ok m) k hsettles
  obtain ⟨rfl, rfl⟩ := hs.unique hsettles'
  cases hout with
  | ok hrelabeled => exact ⟨m, k, m', l, hsettles, hsettles', hm, hm', hcalls, hrelabeled⟩

end Compiler

end Notebook
