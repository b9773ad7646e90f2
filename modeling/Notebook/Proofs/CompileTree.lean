import Notebook.Compile
import Notebook.Proofs.Effects

/-! How the modules of a successful compile hang together.

A compile that succeeds is described without its journal and its depth: which documents were found
for the imports, and what was made of each of them. -/
namespace Notebook

namespace Compile
variable {α β : Type} {j k l : Journal}

/-- The computation succeeds: from the journal `j` it gives `a` and leaves the journal `k`. -/
def Returns (x : Compile α) (j : Journal) (a : α) (k : Journal) : Prop :=
  x.run.run j = (.ok a, k)

theorem returns_pure {a b : α} : Returns (pure a) j b k ↔ a = b ∧ j = k :=
  run_pure_eq_ok_iff

theorem Returns.unique {x : Compile α} {a b : α} (h₁ : x.Returns j a k) (h₂ : x.Returns j b l) :
    a = b := by
  cases h₁.symm.trans h₂
  rfl

/-- A run that is seen to end well returns something. -/
theorem exists_returns {x : Compile α} {f : α → β} {b : β}
    (h : (x.run.run j).1.toOption.map f = some b) : ∃ a k, x.Returns j a k ∧ f a = b := by
  rcases hx : x.run.run j with ⟨_ | a, k⟩
  · rw [hx] at h
    cases h
  · rw [hx] at h
    exact ⟨a, k, hx, Option.some.inj h⟩

private theorem not_returns_throw {e : Error} {a : α} : ¬ Returns (throw e) j a k :=
  run_throw_ne_ok

theorem returns_bind {x : Compile α} {f : α → Compile β} {b : β} :
    Returns (x >>= f) j b l ↔ ∃ a k, Returns x j a k ∧ Returns (f a) k b l :=
  run_bind_eq_ok_iff

private theorem returns_lift {result : Except Error α} {a : α} :
    Returns (lift result) j a k ↔ result = .ok a ∧ j = k := by
  cases result with
  | error e => simpa [lift] using not_returns_throw
  | ok b => simpa [lift] using returns_pure

/-- Each element of a list is worked on at some point of the journal. -/
theorem forall₂_of_returns_mapM {f : α → Compile β} {xs : List α} {ys : List β}
    (h : Returns (xs.mapM f) j ys k) :
    List.Forall₂ (fun x y => ∃ before after, Returns (f x) before y after) xs ys := by
  induction xs generalizing j k ys with
  | nil =>
    rw [List.mapM_nil, returns_pure] at h
    rw [← h.1]
    exact .nil
  | cons x xs ih =>
    rw [List.mapM_cons, returns_bind] at h
    obtain ⟨y, mid, hy, h⟩ := h
    obtain ⟨rest, last, hrest, h⟩ := returns_bind.mp h
    rw [← (returns_pure.mp h).1]
    exact .cons ⟨_, _, hy⟩ (ih hrest)

/-- A module is located by asking the library. -/
theorem locate_of_returns {library : Library} {specifier : String} {origin resource : Resource}
    (h : Returns (locate library specifier origin) j resource k) :
    library.locate j.calls specifier origin = .ok resource := by
  obtain ⟨_, _, hget, h⟩ := returns_bind.mp h
  cases hget
  obtain ⟨_, _, _, h⟩ := returns_bind.mp h
  cases hl : library.locate j.calls specifier origin with
  | error cause =>
    rw [hl] at h
    exact absurd h not_returns_throw
  | ok found =>
    rw [hl] at h
    obtain ⟨_, _, _, h⟩ := returns_bind.mp h
    rw [(returns_pure.mp h).1]

/-- A document is fetched by asking the library. -/
theorem fetch_of_returns {library : Library} {resource : Resource} {text : String}
    (h : Returns (fetch library resource) j text k) :
    library.fetch j.calls resource = .ok text := by
  obtain ⟨_, _, hget, h⟩ := returns_bind.mp h
  cases hget
  obtain ⟨_, _, _, h⟩ := returns_bind.mp h
  obtain ⟨_, _, _, h⟩ := returns_bind.mp h
  cases hf : library.fetch j.calls resource with
  | error cause =>
    rw [hf] at h
    exact absurd h not_returns_throw
  | ok found =>
    rw [hf] at h
    rw [(returns_pure.mp h).1]

end Compile

def Library.ofTexts (texts : List (String × String)) : Library where
  locate := fun _ => Library.relative
  fetch := fun _ resource => match texts.lookup resource.path with
    | some text => .ok text
    | none => .error (.notFound resource.path)

mutual
/-- The modules of a tree, each one after those that it imports. -/
def ModuleTree.modules : ModuleTree → List GeneratedModule
  | .node module imports => ModuleTree.allModules imports ++ [module]

def ModuleTree.allModules : List ModuleTree → List GeneratedModule
  | [] => []
  | tree :: trees => tree.modules ++ ModuleTree.allModules trees
end

private theorem ModuleTree.allModules_eq (trees : List ModuleTree) :
    allModules trees = trees.flatMap modules := by
  induction trees with
  | nil => rfl
  | cons tree trees ih => rw [allModules, List.flatMap_cons, ih]

theorem ModuleTree.modules_node (module : GeneratedModule) (imports : List ModuleTree) :
    (node module imports).modules = imports.flatMap modules ++ [module] := by
  rw [modules, allModules_eq]

/-- An import that has been followed: its entry, the document found for it, and the tree made of
that document. -/
structure Followed where
  entry : RegistryEntry
  document : Document
  tree : ModuleTree

/-- The modules of a tree whose imports have been followed. -/
theorem ModuleTree.mem_modules_node {m module : GeneratedModule} {followed : List Followed} :
    m ∈ (node module (followed.map Followed.tree)).modules ↔
      (∃ f ∈ followed, m ∈ f.tree.modules) ∨ m = module := by
  rw [modules_node, List.flatMap_map, List.mem_append, List.mem_flatMap, List.mem_singleton]

def Followed.child (level : String) (f : Followed) : ChildModule :=
  Compiler.childOf level f.entry f.document.resource f.tree.module

namespace Compiler

def moduleOf (c : Compiler) (level : String) (frontmatter : Yaml.Mapping) (body : List Fragment)
    (followed : List Followed) : GeneratedModule where
  level := level
  defineName := c.config.defineStem ++ level
  frontmatter := frontmatter
  children := followed.map (Followed.child level)
  body := body
  definitions := followed.flatMap (·.tree.module.definitions) ++ [c.config.defineStem ++ level]

/-- The tree is what the compiler makes of a document at a level: the statements are those of the
document, and each entry of its registry is located, fetched and compiled in turn. -/
inductive Compiles (c : Compiler) : Document → String → ModuleTree → Prop
  | node {document : Document} {level : String} {content : Content} {body : List Fragment}
      {registry : Registry} {followed : List Followed}
      (read : Content.ofText document.text = .ok content)
      (generated : Chunk.generateAll ⟨document.resource, level, c.config⟩ content.chunks {} =
        .ok (body, registry))
      (entries : followed.map Followed.entry = registry.entries)
      (located : ∀ f ∈ followed, ∃ calls,
        c.library.locate calls f.entry.specifier document.resource = .ok f.document.resource)
      (fetched : ∀ f ∈ followed, ∃ calls,
        c.library.fetch calls f.document.resource = .ok f.document.text)
      (compiled : ∀ f ∈ followed, Compiles c f.document (f.entry.level level) f.tree) :
      Compiles c document level
        (.node (c.moduleOf level content.frontmatter body followed) (followed.map Followed.tree))

/-- The statements of the module are those that the document generates at its level. -/
def MadeOf (c : Compiler) (source : Document) (m : GeneratedModule) : Prop :=
  ∃ content registry, Content.ofText source.text = .ok content ∧
    Chunk.generateAll ⟨source.resource, m.level, c.config⟩ content.chunks {} = .ok (m.body, registry)

variable {c : Compiler} {j k : Journal}

/-- An import succeeds only if there is something to compile it with. -/
theorem importModule_cases {inner : Option (Document → String → Compile ModuleTree)}
    {origin : Resource} {level : String} {entry : RegistryEntry} {out : ChildModule × ModuleTree}
    (h : (c.importModule inner origin level entry).Returns j out k) :
    ∃ compile, inner = some compile ∧ ∃ f : Followed, f.entry = entry ∧
      out = (f.child level, f.tree) ∧
      (∃ calls, c.library.locate calls entry.specifier origin = .ok f.document.resource) ∧
      (∃ calls, c.library.fetch calls f.document.resource = .ok f.document.text) ∧
      ∃ before after, (compile f.document (entry.level level)).Returns before f.tree after := by
  obtain ⟨resource, _, hl, h⟩ := Compile.returns_bind.mp h
  obtain ⟨text, _, hf, h⟩ := Compile.returns_bind.mp h
  cases inner with
  | none => exact absurd h Compile.not_returns_throw
  | some compile =>
    obtain ⟨tree, _, ht, h⟩ := Compile.returns_bind.mp h
    refine ⟨compile, rfl, ⟨entry, ⟨text, resource⟩, tree⟩, rfl, (Compile.returns_pure.mp h).1.symm,
      ⟨_, Compile.locate_of_returns hl⟩, ⟨_, Compile.fetch_of_returns hf⟩, _, _, ht⟩

/-- Compiling one document: it is read, its statements are generated, and the entries of its
registry are imported. -/
theorem compileWith_cases {inner : Option (Document → String → Compile ModuleTree)}
    {document : Document} {level : String} {tree : ModuleTree}
    (h : (c.compileWith inner document level).Returns j tree k) :
    ∃ content body registry imports, Content.ofText document.text = .ok content ∧
      Chunk.generateAll ⟨document.resource, level, c.config⟩ content.chunks {} =
        .ok (body, registry) ∧
      List.Forall₂ (fun entry out => ∃ before after,
        (c.importModule inner document.resource level entry).Returns before out after)
        registry.entries imports ∧
      tree = .node
        { level := level
          defineName := c.config.defineStem ++ level
          frontmatter := content.frontmatter
          children := imports.map Prod.fst
          body := body
          definitions := (imports.map Prod.fst).flatMap ChildModule.definitions ++
            [c.config.defineStem ++ level] }
        (imports.map Prod.snd) := by
  obtain ⟨_, _, _, h⟩ := Compile.returns_bind.mp h
  obtain ⟨content, _, hc, h⟩ := Compile.returns_bind.mp h
  obtain ⟨_, _, _, h⟩ := Compile.returns_bind.mp h
  obtain ⟨_, _, _, h⟩ := Compile.returns_bind.mp h
  obtain ⟨⟨body, registry⟩, _, hb, h⟩ := Compile.returns_bind.mp h
  obtain ⟨imports, _, hi, h⟩ := Compile.returns_bind.mp h
  obtain ⟨_, _, _, h⟩ := Compile.returns_bind.mp h
  exact ⟨content, body, registry, imports, (Compile.returns_lift.mp hc).1,
    (Compile.returns_lift.mp hb).1, Compile.forall₂_of_returns_mapM hi,
    (Compile.returns_pure.mp h).1.symm⟩

/-- Imports that succeed one by one are followed as a whole. -/
private theorem followed_of_forall₂ {P : Followed → Prop} {level : String}
    {entries : List RegistryEntry} {imports : List (ChildModule × ModuleTree)}
    (h : List.Forall₂ (fun entry out => ∃ f : Followed, f.entry = entry ∧
      out = (f.child level, f.tree) ∧ P f) entries imports) :
    ∃ followed : List Followed, followed.map Followed.entry = entries ∧
      imports = followed.map (fun f => (f.child level, f.tree)) ∧ ∀ f ∈ followed, P f := by
  induction h with
  | nil => exact ⟨[], rfl, rfl, by simp⟩
  | cons hf _ ih =>
    obtain ⟨f, rfl, rfl, hp⟩ := hf
    obtain ⟨followed, rfl, rfl, hps⟩ := ih
    exact ⟨f :: followed, rfl, rfl, by simpa using ⟨hp, hps⟩⟩

private theorem compiles_of_compileWith {inner : Option (Document → String → Compile ModuleTree)}
    {document : Document} {level : String} {tree : ModuleTree}
    (hinner : ∀ compile ∈ inner, ∀ {document level tree j k},
      (compile document level).Returns j tree k → c.Compiles document level tree)
    (h : (c.compileWith inner document level).Returns j tree k) :
    c.Compiles document level tree := by
  obtain ⟨content, body, registry, imports, hc, hb, hi, rfl⟩ := compileWith_cases h
  obtain ⟨followed, hentries, rfl, hf⟩ := followed_of_forall₂ (P := fun f =>
    (∃ calls, c.library.locate calls f.entry.specifier document.resource = .ok f.document.resource) ∧
    (∃ calls, c.library.fetch calls f.document.resource = .ok f.document.text) ∧
    c.Compiles f.document (f.entry.level level) f.tree) (hi.imp (by
      rintro entry out ⟨_, _, hr⟩
      obtain ⟨compile, hs, f, rfl, rfl, hl, ht, _, _, hr⟩ := importModule_cases hr
      exact ⟨f, rfl, rfl, hl, ht, hinner compile hs hr⟩))
  have hchildren : (followed.map fun f => (f.child level, f.tree)).map Prod.fst =
      followed.map (Followed.child level) := List.map_map
  have htrees : (followed.map fun f => (f.child level, f.tree)).map Prod.snd =
      followed.map Followed.tree := List.map_map
  rw [hchildren, htrees, List.flatMap_map]
  exact .node hc hb hentries (fun f hm => (hf f hm).1) (fun f hm => (hf f hm).2.1)
    (fun f hm => (hf f hm).2.2)

/-- Every successful compile, however deep its imports are nested, has this shape. -/
theorem compiles_of_returns {depth : Nat} {document : Document} {level : String} {tree : ModuleTree}
    (h : (c.compileTree depth document level).Returns j tree k) :
    c.Compiles document level tree := by
  induction depth generalizing document level tree j k with
  | zero => exact compiles_of_compileWith (by simp) h
  | succ depth ih =>
    refine compiles_of_compileWith ?_ h
    intro compile hs
    cases hs
    exact ih

end Compiler

end Notebook
