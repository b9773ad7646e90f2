import Notebook.Proofs.CompileTree
import Notebook.Proofs.Faults

/-! The calls of a compile, in order.

A run goes from a document into its imports, one after the other: each of them is located and fetched,
and the document found for it is gone through to its end, before the next one. The first failure ends
the whole run. A run depends neither on the level nor on the configuration, and what a compile asks of
its library is a run. -/
namespace Notebook

/-- What there is to do: a document, or imports of the document at `origin`. -/
inductive Work where
  | document (document : Document)
  | imports (origin : Resource) (specifiers : List String)

/-- How a run ends: all modules are made, there is an error, or a document is needed that is nested
too deeply. -/
inductive Ending where
  | done (modules : Nat)
  | failed (e : Error)
  | cut (resource : Resource)

namespace Ending

def plus (modules : Nat) : Ending → Ending
  | done more => done (modules + more)
  | failed e => failed e
  | cut resource => cut resource

def isDone : Ending → Bool
  | done _ => true
  | failed _ | cut _ => false

def isCut : Ending → Bool
  | cut _ => true
  | done _ | failed _ => false

def outcome : Ending → Except Error Nat
  | done modules => .ok modules
  | failed e => .error e
  | cut resource => .error (.fetch resource Library.limitReached)

@[simp] theorem isCut_plus (n : Nat) (ending : Ending) : (ending.plus n).isCut = ending.isCut := by
  cases ending <;> rfl

@[simp] theorem outcome_plus (n : Nat) (ending : Ending) :
    (ending.plus n).outcome = ending.outcome.map (n + ·) := by
  cases ending <;> rfl

@[simp] theorem isDone_plus (n : Nat) (ending : Ending) : (ending.plus n).isDone = ending.isDone := by
  cases ending <;> rfl

theorem eq_failed_of_plus {n : Nat} {ending : Ending} {e : Error} (h : ending.plus n = failed e) :
    ending = failed e := by
  cases ending with
  | done m => cases h
  | failed e' => exact h
  | cut resource => cases h

theorem eq_done_of_plus {n m : Nat} {ending : Ending} (h : ending.plus n = done m) :
    ∃ k, ending = done k ∧ n + k = m := by
  cases ending with
  | done k =>
    cases h
    exact ⟨k, rfl, rfl⟩
  | failed e => cases h
  | cut resource => cases h

theorem eq_done_of_outcome {ending : Ending} {n : Nat} (h : ending.outcome = .ok n) :
    ending = done n := by
  cases ending with
  | done m =>
    cases h
    rfl
  | failed e => cases h
  | cut resource => cases h

private theorem isDone_of_outcome {ending : Ending} {e : Error} (h : ending.outcome = .error e) :
    ending.isDone = false := by
  cases ending with
  | done n => cases h
  | failed e => rfl
  | cut resource => rfl

end Ending

def Work.origin : Work → Resource
  | document d => d.resource
  | imports origin _ => origin

/-- `Runs library depth before work calls ending`: after the calls `before`, the work causes `calls`
and ends in this way. Documents are nested up to `depth` below the one that is worked on. -/
inductive Runs (library : Library) : Nat → List Call → Work → List Call → Ending → Prop
  | faulty {depth : Nat} {before : List Call} {document : Document} {e : Error}
      (fault : document.fault? = some e) :
      Runs library depth before (.document document) [] (.failed e)
  | sound {depth : Nat} {before calls : List Call} {document : Document} {ending : Ending}
      (fault : document.fault? = none)
      (imports : Runs library depth before (.imports document.resource document.specifiers) calls
        ending) :
      Runs library depth before (.document document) calls (ending.plus 1)
  | nil {depth : Nat} {before : List Call} {origin : Resource} :
      Runs library depth before (.imports origin []) [] (.done 0)
  | unlocated {depth : Nat} {before : List Call} {origin : Resource} {s : String}
      {rest : List String} {cause : Failure}
      (located : library.locate before s origin = .error cause) :
      Runs library depth before (.imports origin (s :: rest)) [.locate s origin]
        (.failed (.resolution s cause))
  | cut {before : List Call} {origin resource : Resource} {s : String} {rest : List String}
      (located : library.locate before s origin = .ok resource) :
      Runs library 0 before (.imports origin (s :: rest)) [.locate s origin, .fetch resource]
        (.cut resource)
  | unfetched {depth : Nat} {before : List Call} {origin resource : Resource} {s : String}
      {rest : List String} {cause : Failure}
      (located : library.locate before s origin = .ok resource)
      (fetched : library.fetch (before ++ [.locate s origin]) resource = .error cause) :
      Runs library (depth + 1) before (.imports origin (s :: rest))
        [.locate s origin, .fetch resource] (.failed (.fetch resource cause))
  | stopped {depth : Nat} {before calls : List Call} {origin resource : Resource} {s text : String}
      {rest : List String} {ending : Ending}
      (located : library.locate before s origin = .ok resource)
      (fetched : library.fetch (before ++ [.locate s origin]) resource = .ok text)
      (child : Runs library depth (before ++ [.locate s origin, .fetch resource])
        (.document ⟨text, resource⟩) calls ending)
      (stops : ending.isDone = false) :
      Runs library (depth + 1) before (.imports origin (s :: rest))
        (.locate s origin :: .fetch resource :: calls) ending
  | next {depth n : Nat} {before calls more : List Call} {origin resource : Resource}
      {s text : String} {rest : List String} {ending : Ending}
      (located : library.locate before s origin = .ok resource)
      (fetched : library.fetch (before ++ [.locate s origin]) resource = .ok text)
      (child : Runs library depth (before ++ [.locate s origin, .fetch resource])
        (.document ⟨text, resource⟩) calls (.done n))
      (others : Runs library (depth + 1) (before ++ .locate s origin :: .fetch resource :: calls)
        (.imports origin rest) more ending) :
      Runs library (depth + 1) before (.imports origin (s :: rest))
        (.locate s origin :: .fetch resource :: calls ++ more) (ending.plus n)

namespace Compile
variable {α β : Type} {j k : Journal} {library : Library}

theorem run_map (x : Compile α) (f : α → β) (j : Journal) :
    (x >>= fun a => pure (f a)).run.run j = ((x.run.run j).1.map f, (x.run.run j).2) := by
  rw [run_bind]
  rcases x.run.run j with ⟨_ | a, k⟩ <;> rfl

theorem run_locate_of_ok {s : String} {origin resource : Resource}
    (h : library.locate j.calls s origin = .ok resource) :
    (locate library s origin).run.run j =
      (.ok resource, ⟨j.calls ++ [.locate s origin], j.notes ++ [.located s resource]⟩) := by
  have hcall : (call (.locate s origin)).run.run j =
      (.ok (), ⟨j.calls ++ [.locate s origin], j.notes⟩) := rfl
  have hget : (get : Compile Journal).run.run j = (.ok j, j) := rfl
  rw [locate, run_bind_ok hget, run_bind_ok hcall, h]
  rfl

theorem run_locate_of_error {s : String} {origin : Resource} {cause : Failure}
    (h : library.locate j.calls s origin = .error cause) :
    (locate library s origin).run.run j =
      (.error (.resolution s cause), ⟨j.calls ++ [.locate s origin], j.notes⟩) := by
  have hcall : (call (.locate s origin)).run.run j =
      (.ok (), ⟨j.calls ++ [.locate s origin], j.notes⟩) := rfl
  have hget : (get : Compile Journal).run.run j = (.ok j, j) := rfl
  rw [locate, run_bind_ok hget, run_bind_ok hcall, h]
  rfl

/-- A fetch is noted, whatever comes of it. -/
theorem run_fetch (library : Library) (resource : Resource) (j : Journal) :
    (fetch library resource).run.run j =
      ((library.fetch j.calls resource).mapError (Error.fetch resource),
        ⟨j.calls ++ [.fetch resource], j.notes ++ [.fetching resource]⟩) := by
  have hget : (get : Compile Journal).run.run j = (.ok j, j) := rfl
  have hnote : (note (.fetching resource)).run.run j =
      (.ok (), ⟨j.calls, j.notes ++ [.fetching resource]⟩) := rfl
  rw [fetch, run_bind_ok hget, run_bind_ok hnote]
  cases library.fetch j.calls resource <;> rfl

end Compile

namespace Compiler
variable {c : Compiler} {j : Journal} {origin resource : Resource} {level : String}
  {entry : RegistryEntry} {inner : Option (Document → String → Compile ModuleTree)}
  {compile : Document → String → Compile ModuleTree}

private theorem locate_reachable (c : Compiler) (inner : Option (Document → String → Compile ModuleTree)) :
    (c.reachable inner).locate = c.library.locate := by
  unfold reachable
  split <;> rfl

private theorem importModule_of_unlocated {cause : Failure}
    (hl : c.library.locate j.calls entry.specifier origin = .error cause) :
    (c.importModule inner origin level entry).run.run j =
      (.error (.resolution entry.specifier cause),
        ⟨j.calls ++ [.locate entry.specifier origin], j.notes⟩) := by
  rw [← locate_reachable c inner] at hl
  exact run_bind_error (Compile.run_locate_of_error hl)

def fetching (j : Journal) (specifier : String) (origin resource : Resource) : Journal :=
  ⟨j.calls ++ [.locate specifier origin, .fetch resource],
    j.notes ++ [.located specifier resource, .fetching resource]⟩

section Located
variable (hl : c.library.locate j.calls entry.specifier origin = .ok resource)
include hl

/-- What is done with a module that has been located. -/
private theorem importModule_of_located : (c.importModule inner origin level entry).run.run j =
    match (c.reachable inner).fetch (j.calls ++ [.locate entry.specifier origin]) resource with
    | .error cause => (.error (.fetch resource cause), fetching j entry.specifier origin resource)
    | .ok text => (match inner with
        | none => throw (.fetch resource Library.limitReached)
        | some compile => do
          let tree ← compile ⟨text, resource⟩ (entry.level level)
          return (childOf level entry resource tree.module, tree) : Compile _).run.run
            (fetching j entry.specifier origin resource) := by
  rw [← locate_reachable c inner] at hl
  unfold importModule
  dsimp only
  rw [run_bind_ok (Compile.run_locate_of_ok hl), run_bind, Compile.run_fetch, fetching]
  simp only [List.append_assoc, List.cons_append, List.nil_append]
  cases (c.reachable inner).fetch (j.calls ++ [.locate entry.specifier origin]) resource <;> rfl

private theorem importModule_none : (c.importModule none origin level entry).run.run j =
    (.error (.fetch resource Library.limitReached), fetching j entry.specifier origin resource) := by
  rw [importModule_of_located hl]
  rfl

private theorem importModule_of_unfetched {cause : Failure}
    (hf : c.library.fetch (j.calls ++ [.locate entry.specifier origin]) resource = .error cause) :
    (c.importModule (some compile) origin level entry).run.run j =
      (.error (.fetch resource cause), fetching j entry.specifier origin resource) := by
  have hr : c.reachable (some compile) = c.library := rfl
  rw [importModule_of_located hl, hr, hf]

private theorem importModule_of_fetched {text : String}
    (hf : c.library.fetch (j.calls ++ [.locate entry.specifier origin]) resource = .ok text) :
    (c.importModule (some compile) origin level entry).run.run j = (do
      let tree ← compile ⟨text, resource⟩ (entry.level level)
      return (childOf level entry resource tree.module, tree) : Compile _).run.run
        (fetching j entry.specifier origin resource) := by
  have hr : c.reachable (some compile) = c.library := rfl
  rw [importModule_of_located hl, hr, hf]

end Located

def finish (c : Compiler) (document : Document) (level : String) (content : Content)
    (body : List Fragment) (imports : List (ChildModule × ModuleTree)) : Compile ModuleTree := do
  Compile.note (.compiled document.resource content.chunks.length body.length
    (imports.map Prod.fst).length)
  return .node
    { level := level
      defineName := c.config.defineStem ++ level
      frontmatter := content.frontmatter
      children := imports.map Prod.fst
      body := body
      definitions := (imports.map Prod.fst).flatMap ChildModule.definitions ++
        [c.config.defineStem ++ level] }
    (imports.map Prod.snd)

/-- Compiling a document that can be read, from where its statements are generated. -/
theorem compileWith_of_read {document : Document} {content : Content}
    (hc : Content.ofText document.text = .ok content) (c : Compiler) (level : String) (j : Journal) :
    ∃ k : Journal, k.calls = j.calls ∧ ∀ inner, (c.compileWith inner document level).run.run j = (do
      let out ← Compile.lift (Chunk.generateAll ⟨document.resource, level, c.config⟩ content.chunks {})
      let imports ← out.2.entries.mapM (c.importModule inner document.resource level)
      c.finish document level content out.1 imports : Compile ModuleTree).run.run k := by
  refine ⟨⟨j.calls, j.notes ++ [.compiling document.resource level] ++
    [.discovered content.chunks.length] ++
    importNotes ⟨document.resource, level, c.config⟩ content.chunks {}⟩, rfl, fun inner => ?_⟩
  unfold compileWith
  rw [hc]
  rfl

/-- A document with an error of its own asks for nothing. -/
theorem compileWith_of_fault {document : Document} {e : Error} (h : document.fault? = some e)
    (c : Compiler) (level : String) (j : Journal) : ∃ k : Journal, k.calls = j.calls ∧
      ∀ inner, (c.compileWith inner document level).run.run j = (.error e, k) := by
  unfold Document.fault? at h
  cases hc : Content.ofText document.text with
  | error e' =>
    rw [hc] at h
    cases h
    refine ⟨⟨j.calls, j.notes ++ [.compiling document.resource level]⟩, rfl, fun inner => ?_⟩
    unfold compileWith
    rw [hc]
    rfl
  | ok content =>
    rw [hc] at h
    obtain ⟨k, hk, hrun⟩ := compileWith_of_read hc c level j
    refine ⟨k, hk, fun inner => ?_⟩
    rw [hrun inner, Chunk.generateAll_of_fault h]
    rfl

/-- A document without errors follows its specifiers in order. -/
theorem compileWith_of_sound {document : Document} (h : document.fault? = none) (c : Compiler)
    (level : String) (j : Journal) : ∃ (k : Journal) (content : Content) (body : List Fragment)
      (registry : Registry), k.calls = j.calls ∧
      registry.entries.map RegistryEntry.specifier = document.specifiers ∧
      ∀ inner, (c.compileWith inner document level).run.run j =
        (registry.entries.mapM (c.importModule inner document.resource level) >>=
          c.finish document level content body).run.run k := by
  unfold Document.fault? at h
  cases hc : Content.ofText document.text with
  | error e => simp [hc] at h
  | ok content =>
    rw [hc] at h
    obtain ⟨k, hk, hrun⟩ := compileWith_of_read hc c level j
    obtain ⟨⟨body, registry⟩, hg⟩ :=
      Chunk.exists_generateAll ⟨document.resource, level, c.config⟩ {} h
    refine ⟨k, content, body, registry, hk, ?_, fun inner => ?_⟩
    · have hregistry : registry = _ := (Chunk.emits_generateAll hg).registry
      rw [Document.specifiers, Document.moduleImports, hc, hregistry]
      rfl
    · rw [hrun inner, hg]
      rfl

end Compiler

/-- From the journal `j`, the computation runs through the work, and `size` counts the modules in its
result. Unless it is cut off, the computations that go deeper do the same. -/
def Performs {α : Type} (library : Library) (depth : Nat) (work : Work) (size : α → Nat)
    (x : Compile α) (deeper : Nat → Compile α) (j : Journal) : Prop :=
  ∃ calls ending, Runs library depth j.calls work calls ending ∧
    (x.run.run j).2.calls = j.calls ++ calls ∧ (x.run.run j).1.map size = ending.outcome ∧
    (ending.isCut = false → ∀ n, (deeper n).run.run j = x.run.run j)

private theorem Performs.of_error {α : Type} {library : Library} {depth : Nat} {work : Work} {size : α → Nat}
    {x : Compile α} {deeper : Nat → Compile α} {j k : Journal} {calls : List Call} {ending : Ending}
    {e : Error}
    (hruns : Runs library depth j.calls work calls ending) (hx : x.run.run j = (.error e, k))
    (hk : k.calls = j.calls ++ calls) (he : ending.outcome = .error e)
    (hdeeper : ending.isCut = false → ∀ n, (deeper n).run.run j = (.error e, k)) :
    Performs library depth work size x deeper j := by
  refine ⟨calls, ending, hruns, ?_, ?_, ?_⟩
  · rw [hx]
    exact hk
  · rw [hx, he]
    rfl
  · rw [hx]
    exact hdeeper

namespace Compiler
variable {c : Compiler} {j : Journal}

def countAll (imports : List (ChildModule × ModuleTree)) : Nat :=
  (imports.flatMap fun i => i.1.definitions).length

def countTree (tree : ModuleTree) : Nat :=
  tree.module.definitions.length

/-- At the greatest depth, no import can be followed. -/
theorem performs_imports_zero (deeper : Nat → Option (Document → String → Compile ModuleTree))
    (origin : Resource) (level : String) (entries : List RegistryEntry) (j : Journal) :
    Performs c.library 0 (.imports origin (entries.map RegistryEntry.specifier)) countAll
      (entries.mapM (c.importModule none origin level))
      (fun n => entries.mapM (c.importModule (deeper n) origin level)) j := by
  cases entries with
  | nil => exact ⟨[], _, .nil, (List.append_nil _).symm, rfl, fun _ _ => rfl⟩
  | cons entry entries =>
    simp only [List.mapM_cons]
    cases hl : c.library.locate j.calls entry.specifier origin with
    | error cause =>
      exact .of_error (.unlocated hl) (run_bind_error (importModule_of_unlocated hl)) rfl rfl
        fun _ _ => run_bind_error (importModule_of_unlocated hl)
    | ok resource =>
      exact .of_error (.cut hl) (run_bind_error (importModule_none hl)) rfl rfl
        fun hcut => by cases hcut

section Deeper
variable {depth : Nat} {compile : Document → String → Compile ModuleTree}
  {deeper : Nat → Document → String → Compile ModuleTree}
  (hcompile : ∀ document level j, Performs c.library depth (.document document) countTree
    (compile document level) (fun n => deeper n document level) j)
include hcompile

/-- A document that has been fetched is gone through, and then come the other imports. -/
private theorem performs_fetched {origin resource : Resource} {level text : String}
    {entry : RegistryEntry} {entries : List RegistryEntry}
    (hl : c.library.locate j.calls entry.specifier origin = .ok resource)
    (hf : c.library.fetch (j.calls ++ [.locate entry.specifier origin]) resource = .ok text)
    (others : ∀ k, Performs c.library (depth + 1)
      (.imports origin (entries.map RegistryEntry.specifier)) countAll
      (entries.mapM (c.importModule (some compile) origin level))
      (fun n => entries.mapM (c.importModule (some (deeper n)) origin level)) k) :
    Performs c.library (depth + 1)
      (.imports origin (entry.specifier :: entries.map RegistryEntry.specifier)) countAll
      ((entry :: entries).mapM (c.importModule (some compile) origin level))
      (fun n => (entry :: entries).mapM (c.importModule (some (deeper n)) origin level)) j := by
  simp only [List.mapM_cons]
  obtain ⟨calls, ending, hruns, hcalls, hout, hdeeper⟩ :=
    hcompile ⟨text, resource⟩ (entry.level level) (fetching j entry.specifier origin resource)
  have hpair : (fetching j entry.specifier origin resource).calls ++ calls =
      j.calls ++ .locate entry.specifier origin :: .fetch resource :: calls := by
    simp [fetching]
  rw [hpair] at hcalls
  rcases hx : (compile ⟨text, resource⟩ (entry.level level)).run.run
    (fetching j entry.specifier origin resource) with ⟨e | tree, k⟩
  · rw [hx] at hcalls hout hdeeper
    have himport : (c.importModule (some compile) origin level entry).run.run j = (.error e, k) := by
      rw [importModule_of_fetched hl hf, run_bind_error hx]
    refine .of_error (.stopped hl hf hruns (Ending.isDone_of_outcome hout.symm))
      (run_bind_error himport) hcalls hout.symm fun hcut n => run_bind_error ?_
    rw [importModule_of_fetched hl hf, run_bind_error (hdeeper hcut n)]
  · rw [hx] at hcalls hout hdeeper
    cases Ending.eq_done_of_outcome hout.symm
    have himport : (c.importModule (some compile) origin level entry).run.run j =
        (.ok (childOf level entry resource tree.module, tree), k) := by
      rw [importModule_of_fetched hl hf, Compile.run_map, hx]
      rfl
    have hsame (n : Nat) : (c.importModule (some (deeper n)) origin level entry).run.run j =
        (.ok (childOf level entry resource tree.module, tree), k) := by
      rw [importModule_of_fetched hl hf, Compile.run_map, hdeeper rfl n]
      rfl
    obtain ⟨more, ending, hmore, hmcalls, hmout, hmdeeper⟩ := others k
    rw [hcalls] at hmore
    rw [Performs, run_bind_ok himport, Compile.run_map]
    refine ⟨_, _, .next hl hf hruns hmore, ?_, ?_, fun hcut n => ?_⟩
    · rw [hmcalls, hcalls]
      simp
    · rw [Ending.outcome_plus, ← hmout]
      cases ((entries.mapM (c.importModule (some compile) origin level)).run.run k).1 with
      | error e => rfl
      | ok imports => simp [Except.map, countAll, countTree, childOf]
    · rw [run_bind_ok (hsame n), Compile.run_map, hmdeeper (by simpa using hcut) n]

/-- One import and then the others. The calls of the others come after all calls of the first. -/
theorem performs_imports (origin : Resource) (level : String) (entries : List RegistryEntry)
    (j : Journal) :
    Performs c.library (depth + 1) (.imports origin (entries.map RegistryEntry.specifier)) countAll
      (entries.mapM (c.importModule (some compile) origin level))
      (fun n => entries.mapM (c.importModule (some (deeper n)) origin level)) j := by
  induction entries generalizing j with
  | nil => exact ⟨[], _, .nil, (List.append_nil _).symm, rfl, fun _ _ => rfl⟩
  | cons entry entries ih =>
    cases hl : c.library.locate j.calls entry.specifier origin with
    | error cause =>
      simp only [List.mapM_cons]
      exact .of_error (.unlocated hl) (run_bind_error (importModule_of_unlocated hl)) rfl rfl
        fun _ _ => run_bind_error (importModule_of_unlocated hl)
    | ok resource =>
      cases hf : c.library.fetch (j.calls ++ [.locate entry.specifier origin]) resource with
      | error cause =>
        simp only [List.mapM_cons]
        exact .of_error (.unfetched hl hf) (run_bind_error (importModule_of_unfetched hl hf))
          rfl rfl fun _ _ => run_bind_error (importModule_of_unfetched hl hf)
      | ok text => exact performs_fetched hcompile hl hf ih

end Deeper

/-- The last step asks for nothing and adds one module. -/
theorem run_bind_finish (c : Compiler) (document : Document) (level : String) (content : Content)
    (body : List Fragment) (x : Compile (List (ChildModule × ModuleTree))) (j : Journal) :
    ((x >>= c.finish document level content body).run.run j).2.calls = (x.run.run j).2.calls ∧
      ((x >>= c.finish document level content body).run.run j).1.map countTree =
        ((x.run.run j).1.map countAll).map (1 + ·) := by
  rw [run_bind]
  rcases x.run.run j with ⟨e | imports, k⟩
  · exact ⟨rfl, rfl⟩
  · refine ⟨rfl, congrArg Except.ok ?_⟩
    simp [countTree, countAll, ModuleTree.module, List.flatMap_map, Nat.add_comm]

private theorem performs_compileWith {depth : Nat}
    {inner : Option (Document → String → Compile ModuleTree)}
    {deeper : Nat → Option (Document → String → Compile ModuleTree)}
    (himports : ∀ (origin : Resource) (level : String) (entries : List RegistryEntry) (j : Journal),
      Performs c.library depth (.imports origin (entries.map RegistryEntry.specifier)) countAll
        (entries.mapM (c.importModule inner origin level))
        (fun n => entries.mapM (c.importModule (deeper n) origin level)) j)
    (document : Document) (level : String) (j : Journal) :
    Performs c.library depth (.document document) countTree (c.compileWith inner document level)
      (fun n => c.compileWith (deeper n) document level) j := by
  cases hfault : document.fault? with
  | some e =>
    obtain ⟨k, hk, hrun⟩ := compileWith_of_fault hfault c level j
    exact .of_error (.faulty hfault) (hrun inner) (by simpa using hk) rfl fun _ n => hrun (deeper n)
  | none =>
    obtain ⟨k, content, body, registry, hk, hspecifiers, hrun⟩ := compileWith_of_sound hfault c level j
    obtain ⟨calls, ending, hruns, hcalls, hout, hdeeper⟩ :=
      himports document.resource level registry.entries k
    rw [hk, hspecifiers] at hruns
    rw [hk] at hcalls
    rw [Performs, hrun inner]
    obtain ⟨hfcalls, hfout⟩ := c.run_bind_finish document level content body
      (registry.entries.mapM (c.importModule inner document.resource level)) k
    refine ⟨calls, ending.plus 1, .sound hfault hruns, ?_, ?_, fun hcut n => ?_⟩
    · rw [hfcalls, hcalls]
    · rw [hfout, hout, Ending.outcome_plus]
    · rw [hrun (deeper n), run_bind, run_bind, hdeeper (by simpa using hcut) n]

/-- What a compile asks of its library is a run. If the run is not cut off, more depth makes no
difference. -/
theorem performs_compileTree (c : Compiler) (depth : Nat) (document : Document) (level : String)
    (j : Journal) :
    Performs c.library depth (.document document) countTree (c.compileTree depth document level)
      (fun n => c.compileTree (depth + n) document level) j := by
  induction depth generalizing document level j with
  | zero =>
    have hdeeper (n : Nat) : ∃ inner, c.compileTree (0 + n) = c.compileWith inner := by
      cases n with
      | zero => exact ⟨none, rfl⟩
      | succ n => exact ⟨some (c.compileTree (0 + n)), rfl⟩
    choose deeper hdeeper using hdeeper
    simp only [hdeeper]
    exact performs_compileWith (performs_imports_zero deeper) document level j
  | succ depth ih =>
    have hdeeper (n : Nat) : c.compileTree (depth + 1 + n) =
        c.compileWith (some (c.compileTree (depth + n))) := by
      rw [Nat.succ_add]
      rfl
    simp only [hdeeper]
    exact performs_compileWith (performs_imports ih) document level j

end Compiler

private theorem countP_isFetch_pair (s : String) (origin resource : Resource) (calls : List Call) :
    (.locate s origin :: .fetch resource :: calls).countP Call.isFetch =
      calls.countP Call.isFetch + 1 := by
  rw [List.countP_cons_of_neg Bool.false_ne_true, List.countP_cons_of_pos rfl]

/-- A run that is cut off has fetched a document on each level down to the last. -/
theorem Runs.lt_countP_of_cut {library : Library} {depth : Nat} {before calls : List Call}
    {work : Work} {ending : Ending} (h : Runs library depth before work calls ending)
    (hcut : ending.isCut) : depth < calls.countP Call.isFetch := by
  induction h with
  | faulty | nil | unlocated | unfetched => cases hcut
  | sound _ _ ih => exact ih (by simpa using hcut)
  | cut => exact Nat.one_pos
  | stopped _ _ _ _ ih =>
    rw [countP_isFetch_pair]
    exact Nat.succ_lt_succ (ih hcut)
  | next _ _ _ _ _ ih =>
    have := ih (by simpa using hcut)
    rw [List.countP_append]
    omega

/-- What locating a module keeps from the resource that imports it holds of everything that a run
fetches. -/
theorem Runs.forall_fetch {library : Library} {depth : Nat} {before calls : List Call} {work : Work}
    {ending : Ending} {P : Resource → Prop}
    (kept : ∀ {before : List Call} {s : String} {origin resource : Resource}, P origin →
      library.locate before s origin = .ok resource → P resource)
    (h : Runs library depth before work calls ending) (hwork : P work.origin) {resource : Resource}
    (hmem : .fetch resource ∈ calls) : P resource := by
  induction h with
  | faulty | nil => cases hmem
  | unlocated => simp at hmem
  | sound _ _ ih => exact ih hwork hmem
  | cut located | unfetched located _ =>
    simp only [List.mem_cons, reduceCtorEq, false_or, Call.fetch.injEq, List.not_mem_nil,
      or_false] at hmem
    exact hmem ▸ kept hwork located
  | stopped located _ _ _ ih =>
    have hfound := kept hwork located
    simp only [List.mem_cons, reduceCtorEq, false_or, Call.fetch.injEq] at hmem
    rcases hmem with rfl | hmem
    · exact hfound
    · exact ih hfound hmem
  | next located _ _ _ ih ihmore =>
    have hfound := kept hwork located
    simp only [List.mem_append, List.mem_cons, reduceCtorEq, false_or, Call.fetch.injEq] at hmem
    rcases hmem with (rfl | hmem) | hmem
    · exact hfound
    · exact ih hfound hmem
    · exact ihmore hwork hmem

/-- Computations that may go deeper and deeper come to an end in which the depth has no part. -/
def Compile.Settles {α : Type} (x : Nat → Compile α) (j : Journal) (out : Except Error α)
    (k : Journal) : Prop :=
  ∃ enough, ∀ depth, enough ≤ depth → (x depth).run.run j = (out, k)

namespace Compiler
variable {c : Compiler} {document : Document} {level : String} {j : Journal}

/-- A compile that fetches no more documents than its depth allows is not cut off. -/
theorem run_eq_of_countP_le {depth more : Nat} {out : Except Error ModuleTree} {k : Journal}
    (hrun : (c.compileTree depth document level).run.run j = (out, k))
    (h : k.calls.countP Call.isFetch ≤ depth) (hmore : depth ≤ more) :
    (c.compileTree more document level).run.run j = (out, k) := by
  obtain ⟨calls, ending, hruns, hcalls, _, hdeeper⟩ := c.performs_compileTree depth document level j
  rw [hrun] at hcalls hdeeper
  have hcut : ending.isCut = false := by
    by_contra hcut
    have := hruns.lt_countP_of_cut (by simpa using hcut)
    rw [hcalls, List.countP_append] at h
    omega
  obtain ⟨n, rfl⟩ := Nat.exists_eq_add_of_le hmore
  exact hdeeper hcut n

theorem settles_compileModule {depth : Nat} {out : Except Error GeneratedModule} {k : Journal}
    (hrun : (c.compileModule depth document level).run.run j = (out, k))
    (h : k.calls.countP Call.isFetch ≤ depth) :
    Compile.Settles (fun depth => c.compileModule depth document level) j out k := by
  refine ⟨depth, fun more hmore => ?_⟩
  change (c.compileModule more document level).run.run j = _
  rw [compileModule, Compile.run_map] at hrun ⊢
  rcases ht : (c.compileTree depth document level).run.run j with ⟨tree, l⟩
  rw [ht] at hrun
  cases hrun
  rw [run_eq_of_countP_le ht h hmore]

/-- If the calls no longer depend on the depth, they are those of a whole run. -/
theorem exists_run_of_calls_eq {enough : Nat} {all : List Call}
    (h : ∀ depth, enough ≤ depth → ((c.compileTree depth document level).run.run j).2.calls = all) :
    ∃ depth calls ending, enough ≤ depth ∧
      Runs c.library depth j.calls (.document document) calls ending ∧ ending.isCut = false ∧
      all = j.calls ++ calls ∧
      ((c.compileTree depth document level).run.run j).1.map countTree = ending.outcome := by
  -- the calls that are left in the end bound the number of fetches at every depth
  have hdepth : enough ≤ enough + all.length := Nat.le_add_right _ _
  obtain ⟨calls, ending, hruns, hcalls, hout, _⟩ :=
    c.performs_compileTree (enough + all.length) document level j
  rw [h _ hdepth] at hcalls
  refine ⟨_, calls, ending, hdepth, hruns, ?_, hcalls, hout⟩
  by_contra hcut
  have hlt := hruns.lt_countP_of_cut (by simpa using hcut)
  have hle := List.countP_le_length (p := Call.isFetch) (l := calls)
  have hlength := congrArg List.length hcalls
  rw [List.length_append] at hlength
  omega

end Compiler
end Notebook
