import Notebook.Proofs.CallOrder
import Notebook.Proofs.DefinitionNames

/-! Compiling with a library that answers a limited number of fetches.

Every document below the root costs a fetch, so the limit ends each compile. Documents that import each
other in a circle use it up: a module holds all modules that it imports, so its tree would have to be
larger than itself. -/
namespace Notebook

/-- The library answers as fixed functions do, and refuses every fetch after the first `limit`. -/
structure Library.Rationed (library : Library) (limit : Nat)
    (find : String → Resource → Except Failure Resource) (text : Resource → Except Failure String) :
    Prop where
  locate_eq : ∀ calls s origin, library.locate calls s origin = find s origin
  fetch_eq : ∀ calls resource, calls.countP Call.isFetch < limit →
    library.fetch calls resource = text resource
  refused : ∀ calls resource, limit ≤ calls.countP Call.isFetch →
    ∃ cause, library.fetch calls resource = .error cause

private theorem countP_isFetch_concat (calls : List Call) (resource : Resource) :
    (calls ++ [Call.fetch resource]).countP Call.isFetch = calls.countP Call.isFetch + 1 := by
  rw [List.countP_append, List.countP_singleton]
  rfl

namespace Library.Rationed
variable {library : Library} {limit : Nat} {find : String → Resource → Except Failure Resource}
  {text : Resource → Except Failure String}

private theorem of_limited (limit : Nat) (find : String → Resource → Except Failure Resource)
    (text : Resource → Except Failure String) :
    Rationed (Library.limited limit ⟨fun _ => find, fun _ => text⟩) limit find text where
  locate_eq _ _ _ := rfl
  fetch_eq _ _ h := if_pos h
  refused _ _ h := ⟨limitReached, if_neg (Nat.not_lt.mpr h)⟩

/-- A fetch that is answered is one of the first, and gets the fixed answer. -/
theorem of_fetch (h : library.Rationed limit find text) {calls : List Call} {resource : Resource}
    {answer : String} (hf : library.fetch calls resource = .ok answer) :
    calls.countP Call.isFetch < limit ∧ text resource = .ok answer := by
  by_cases hlt : calls.countP Call.isFetch < limit
  · exact ⟨hlt, by rw [← h.fetch_eq calls resource hlt, hf]⟩
  · obtain ⟨cause, hc⟩ := h.refused calls resource (Nat.not_lt.mp hlt)
    simp [hc] at hf

private theorem countP_le (h : library.Rationed limit find text) {before calls : List Call}
    (hbefore : before.countP Call.isFetch ≤ limit) (hall : library.AnswersAll before calls) :
    (before ++ calls).countP Call.isFetch ≤ limit := by
  induction calls generalizing before with
  | nil => simpa using hbefore
  | cons call calls ih =>
    rw [List.append_cons]
    refine ih ?_ hall.2
    cases call with
    | locate s origin => simpa [Call.isFetch] using hbefore
    | fetch resource =>
      obtain ⟨answer, hf⟩ := hall.1
      rw [countP_isFetch_concat]
      exact (h.of_fetch hf).1

end Library.Rationed

namespace Compiler
variable {c : Compiler} {limit : Nat} {find : String → Resource → Except Failure Resource}
  {text : Resource → Except Failure String} {j : Journal}

/-- The limit ends every compile, with one fetch more than are answered at most. -/
theorem run_compileTree_of_rationed (h : c.library.Rationed limit find text) (document : Document)
    (level : String) (hj : j.calls.countP Call.isFetch ≤ limit) : ∃ out k,
      (∀ depth, limit < depth → (c.compileTree depth document level).run.run j = (out, k)) ∧
      k.calls.countP Call.isFetch ≤ limit + 1 := by
  obtain ⟨calls, ending, hruns, hcalls, _⟩ := c.performs_compileTree (limit + 1) document level j
  have hcount : (j.calls ++ calls).countP Call.isFetch ≤ limit + 1 := by
    have hstart := h.countP_le hj hruns.answersAll_dropLast
    rcases List.eq_nil_or_concat calls with rfl | ⟨start, call, rfl⟩
    · simp only [List.append_nil]
      omega
    · rw [List.concat_eq_append, List.dropLast_concat] at hstart
      rw [List.concat_eq_append, ← List.append_assoc, List.countP_append, List.countP_singleton]
      split <;> omega
  rcases hrun : (c.compileTree (limit + 1) document level).run.run j with ⟨out, k⟩
  rw [hrun] at hcalls
  rw [← hcalls] at hcount
  exact ⟨out, k, fun depth hdepth => run_eq_of_countP_le hrun hcount hdepth, hcount⟩

end Compiler

def ImportLine.specifier? (line : List Char) : Option String :=
  match parse line with
  | .ok (.fromModule i) => some i.specifier
  | .ok (.load _) | .error _ => none

def Chunk.importedSpecifiers (chunk : Chunk) : List String :=
  if chunk.type = "imports" then
    (Text.lines chunk.content.toList).filterMap ImportLine.specifier?
  else []

/-- The specifiers that the lines of a document import from, whatever is wrong with the rest of it. -/
def Document.importedSpecifiers (d : Document) : List String :=
  (Chunk.discover (Frontmatter.split (Content.normal d.text.toList)).2).flatMap
    Chunk.importedSpecifiers

/-- A line of the first document leads to the second one. -/
def Document.Imports (find : String → Resource → Except Failure Resource)
    (text : Resource → Except Failure String) (d e : Document) : Prop :=
  ∃ s ∈ d.importedSpecifiers, find s d.resource = .ok e.resource ∧ text e.resource = .ok e.text

/-- From the document, import lines lead to one that they lead back to. -/
def Document.Cyclic (find : String → Resource → Except Failure Resource)
    (text : Resource → Except Failure String) (root : Document) : Prop :=
  ∃ d, Relation.ReflTransGen (Document.Imports find text) root d ∧
    Relation.TransGen (Document.Imports find text) d d

private theorem ImportLine.mem_of_parseAll {content : String} {lines : List ImportLine}
    (h : parseAll content = .ok lines) {line : List Char} {parsed : ImportLine}
    (hline : line ∈ Text.lines content.toList) (hp : parse line = .ok parsed) : parsed ∈ lines := by
  unfold parseAll at h
  generalize Text.lines content.toList = all at h hline
  induction all generalizing lines with
  | nil => cases hline
  | cons first all ih =>
    rw [List.mapM_cons] at h
    cases hf : parse first with
    | error e => simp [hf, bind, Except.bind] at h
    | ok f =>
      cases hr : all.mapM parse with
      | error e => simp [hf, hr, bind, Except.bind] at h
      | ok rest =>
        have hlines : f :: rest = lines := by simpa [hf, hr, bind, Except.bind, pure, Except.pure] using h
        rw [← hlines]
        rcases List.mem_cons.mp hline with rfl | hline
        · cases hf.symm.trans hp
          exact List.mem_cons_self
        · exact List.mem_cons_of_mem f (ih hr hline)

/-- In a chunk without errors every import line counts. -/
theorem Chunk.mem_moduleImports {chunk : Chunk} {s : String} (hs : s ∈ chunk.importedSpecifiers)
    (hfault : chunk.fault? = none) : ∃ i ∈ chunk.moduleImports, i.specifier = s := by
  unfold importedSpecifiers at hs
  split at hs
  · rename_i htype
    obtain ⟨line, hline, hspecifier⟩ := List.mem_filterMap.mp hs
    obtain ⟨lines, hl⟩ : ∃ lines, ImportLine.parseAll chunk.content = .ok lines := by
      unfold fault? at hfault
      have hkind : ChunkKind.ofType chunk.type = .ok .imports := by rw [htype]; rfl
      rw [hkind] at hfault
      cases hl : ImportLine.parseAll chunk.content with
      | error e => simp [hl] at hfault
      | ok lines => exact ⟨lines, rfl⟩
    unfold ImportLine.specifier? at hspecifier
    split at hspecifier
    · rename_i i hp
      refine ⟨i, ?_, Option.some.inj hspecifier⟩
      unfold moduleImports
      rw [htype, hl]
      exact List.mem_filterMap.mpr ⟨_, ImportLine.mem_of_parseAll hl hline hp, rfl⟩
    all_goals cases hspecifier
  · cases hs

private theorem Content.chunks_of_ofText {text : String} {content : Content} (h : ofText text = .ok content) :
    content.chunks = Chunk.discover (Frontmatter.split (normal text.toList)).2 := by
  unfold ofText at h
  cases hr : Frontmatter.read (Frontmatter.split (normal text.toList)).1 with
  | error e => simp [hr, bind, Except.bind] at h
  | ok frontmatter =>
    simp only [hr, bind, Except.bind, pure, Except.pure, Except.ok.injEq] at h
    rw [← h]

/-- In a document without errors every import line is registered. -/
theorem Document.mem_specifiers {d : Document} {s : String} (hs : s ∈ d.importedSpecifiers)
    (hfault : d.fault? = none) : s ∈ d.specifiers := by
  obtain ⟨chunk, hchunk, hs⟩ := List.mem_flatMap.mp hs
  unfold Document.fault? at hfault
  cases hc : Content.ofText d.text with
  | error e => simp [hc] at hfault
  | ok content =>
    rw [hc] at hfault
    rw [← Content.chunks_of_ofText hc] at hchunk
    obtain ⟨i, hi, rfl⟩ :=
      Chunk.mem_moduleImports hs (List.findSome?_eq_none_iff.mp hfault chunk hchunk)
    have hd : i ∈ d.moduleImports := by
      unfold Document.moduleImports
      rw [hc]
      exact List.mem_flatMap.mpr ⟨chunk, hchunk, hi⟩
    exact Registry.mem_registerAll.mpr (.inr (List.mem_map_of_mem hd))

namespace Compiler
variable {c : Compiler} {limit : Nat} {find : String → Resource → Except Failure Resource}
  {text : Resource → Except Failure String} {level : String} {tree : ModuleTree}

private theorem Compiles.fault_eq_none {d : Document} (h : c.Compiles d level tree) : d.fault? = none := by
  cases h with
  | @node _ _ content _ _ _ read generated _ _ _ _ =>
    unfold Document.fault?
    rw [read]
    cases hf : content.chunks.findSome? Chunk.fault? with
    | none => exact hf
    | some e => simp [Chunk.generateAll_of_fault hf] at generated

/-- The tree of an imported document is part of the tree of the document that imports it. -/
theorem Compiles.of_imports {d e : Document} (hration : c.library.Rationed limit find text)
    (h : c.Compiles d level tree) (himports : d.Imports find text e) :
    ∃ level' tree', c.Compiles e level' tree' ∧ tree'.modules.length < tree.modules.length := by
  obtain ⟨s, hs, hfind, htext⟩ := himports
  have hspecifier := Document.mem_specifiers hs h.fault_eq_none
  cases h with
  | @node _ _ content body registry followed read generated entries located fetched compiled =>
    rw [← specifiers_moduleOf read generated entries] at hspecifier
    obtain ⟨child, hc, rfl⟩ := List.mem_map.mp hspecifier
    obtain ⟨f, hf, rfl⟩ := List.mem_map.mp hc
    have hresource : f.document.resource = e.resource := by
      obtain ⟨calls, hl⟩ := located f hf
      rw [hration.locate_eq] at hl
      exact Except.ok.inj (hl.symm.trans hfind)
    have hdocument : f.document.text = e.text := by
      obtain ⟨calls, hfetch⟩ := fetched f hf
      have ht := (hration.of_fetch hfetch).2
      rw [hresource] at ht
      exact Except.ok.inj (ht.symm.trans htext)
    have he : f.document = e := by
      change (⟨f.document.text, f.document.resource⟩ : Document) = e
      rw [hdocument, hresource]
    refine ⟨f.entry.level level, f.tree, he ▸ compiled f hf, ?_⟩
    rw [ModuleTree.modules_node, List.flatMap_map, List.length_append, List.length_singleton,
      List.length_flatMap]
    have := List.single_le_sum (l := followed.map fun f => f.tree.modules.length) (by simp) _
      (List.mem_map_of_mem hf)
    omega

private theorem Compiles.of_transGen {d e : Document} (hration : c.library.Rationed limit find text)
    (h : c.Compiles d level tree) (hpath : Relation.TransGen (Document.Imports find text) d e) :
    ∃ level' tree', c.Compiles e level' tree' ∧ tree'.modules.length < tree.modules.length := by
  induction hpath with
  | single himports => exact h.of_imports hration himports
  | tail _ himports ih =>
    obtain ⟨_, mid, hmid, hlt⟩ := ih
    obtain ⟨level', tree', he, hlt'⟩ := hmid.of_imports hration himports
    exact ⟨level', tree', he, hlt'.trans hlt⟩

/-- A document that import lines lead back to does not compile: at each turn of the circle its tree
would be smaller. -/
theorem not_compiles_of_transGen {d : Document} (hration : c.library.Rationed limit find text)
    (hcycle : Relation.TransGen (Document.Imports find text) d d) : ¬ c.Compiles d level tree := by
  intro h
  induction hn : tree.modules.length using Nat.strong_induction_on generalizing level tree with
  | _ n ih =>
    obtain ⟨level', tree', h', hlt⟩ := h.of_transGen hration hcycle
    exact ih _ (hn ▸ hlt) h' rfl

private theorem Compiles.not_cyclic {root : Document} (hration : c.library.Rationed limit find text)
    (h : c.Compiles root level tree) : ¬ root.Cyclic find text := by
  rintro ⟨d, hpath, hcycle⟩
  rcases Relation.reflTransGen_iff_eq_or_transGen.mp hpath with rfl | hpath
  · exact not_compiles_of_transGen hration hcycle h
  · obtain ⟨_, _, hd, _⟩ := h.of_transGen hration hpath
    exact not_compiles_of_transGen hration hcycle hd

end Compiler

namespace Compile
variable {α β : Type} {limit : Nat} {cyclic : Prop} {x : Nat → Compile α} {j : Journal}

/-- The computation comes to an end, with `limit + 1` fetches at most and with an error if `cyclic`.
Whatever depth above the limit it is given, it is never cut off. -/
def Ends (limit : Nat) (cyclic : Prop) (x : Nat → Compile α) (j : Journal) : Prop :=
  ∃ out k, (∀ depth, limit < depth → (x depth).run.run j = (out, k)) ∧
    k.calls.countP Call.isFetch ≤ limit + 1 ∧ (cyclic → ∃ e, out = .error e)

/-- What follows makes no calls and does not fail. -/
theorem Ends.bind (h : Ends limit cyclic x j) {f : α → Compile β}
    (hf : ∀ a k, ∃ b l, (f a).run.run k = (.ok b, l) ∧ l.calls = k.calls) :
    Ends limit cyclic (fun depth => x depth >>= f) j := by
  obtain ⟨out, k, hrun, hcount, hcyclic⟩ := h
  cases out with
  | error e =>
    exact ⟨.error e, k, fun depth hdepth => run_bind_error (hrun depth hdepth), hcount,
      fun _ => ⟨e, rfl⟩⟩
  | ok a =>
    obtain ⟨b, l, hfa, hl⟩ := hf a k
    refine ⟨.ok b, l, fun depth hdepth => (run_bind_ok (hrun depth hdepth)).trans hfa, by rwa [hl], ?_⟩
    intro hc
    obtain ⟨e, he⟩ := hcyclic hc
    cases he

/-- A fetch that fails ends the computation. One that is answered is followed by the rest. -/
theorem Ends.fetch {library : Library} {resource : Resource} {f : Nat → String → Compile α}
    (hj : j.calls.countP Call.isFetch ≤ limit)
    (hf : ∀ text, library.fetch j.calls resource = .ok text →
      Ends limit cyclic (fun depth => f depth text)
        ⟨j.calls ++ [.fetch resource], j.notes ++ [.fetching resource]⟩) :
    Ends limit cyclic (fun depth => Compile.fetch library resource >>= f depth) j := by
  have hrun := run_fetch library resource j
  cases hfetch : library.fetch j.calls resource with
  | error cause =>
    rw [hfetch] at hrun
    refine ⟨_, _, fun depth _ => run_bind_error hrun, ?_, fun _ => ⟨_, rfl⟩⟩
    rw [countP_isFetch_concat]
    exact Nat.succ_le_succ hj
  | ok text =>
    rw [hfetch] at hrun
    obtain ⟨out, k, hk, hcount, hcyclic⟩ := hf text hfetch
    exact ⟨out, k, fun depth hdepth => (run_bind_ok hrun).trans (hk depth hdepth), hcount, hcyclic⟩

end Compile

namespace Compiler
variable {c : Compiler} {limit : Nat} {find : String → Resource → Except Failure Resource}
  {text : Resource → Except Failure String} {j : Journal}

private theorem ends_compileModule (hration : c.library.Rationed limit find text) (document : Document)
    (level : String) (hj : j.calls.countP Call.isFetch ≤ limit) :
    Compile.Ends limit (document.Cyclic find text)
      (fun depth => c.compileModule depth document level) j := by
  obtain ⟨out, k, hrun, hcount⟩ := run_compileTree_of_rationed hration document level hj
  have htree : Compile.Ends limit (document.Cyclic find text)
      (fun depth => c.compileTree depth document level) j := by
    refine ⟨out, k, hrun, hcount, fun hcyclic => ?_⟩
    cases out with
    | error e => exact ⟨e, rfl⟩
    | ok tree =>
      have hcompiles : c.Compiles document level tree :=
        compiles_of_returns (hrun (limit + 1) (Nat.lt_succ_self limit))
      exact absurd hcyclic (hcompiles.not_cyclic hration)
  exact htree.bind fun tree k => ⟨tree.module, k, rfl, rfl⟩

private theorem ends_compile (hration : c.library.Rationed limit find text) (document : Document)
    (hj : j.calls.countP Call.isFetch ≤ limit) :
    Compile.Ends limit (document.Cyclic find text) (fun depth => c.compile depth document) j :=
  (ends_compileModule hration document "" hj).bind fun m _ => ⟨m.source, _, rfl, rfl⟩

/-- With a library that refuses all fetches after the first `limit`, every compile comes to an end after
one more fetch at most. If imports lead from the document to one that they lead back to, the end is
an error. -/
theorem compile_ends (hration : c.library.Rationed limit find text) :
    (∀ document level, Compile.Ends limit (document.Cyclic find text)
      (fun depth => c.compileModule depth document level) {}) ∧
    (∀ document, Compile.Ends limit (document.Cyclic find text)
      (fun depth => c.compile depth document) {}) ∧
    ∀ resource, Compile.Ends limit
      (∃ t, text resource = .ok t ∧ Document.Cyclic find text ⟨t, resource⟩)
      (fun depth => c.compileResource depth resource) {} := by
  refine ⟨fun document level => ends_compileModule hration document level (Nat.zero_le _),
    fun document => ends_compile hration document (Nat.zero_le _), fun resource => ?_⟩
  refine Compile.Ends.fetch (Nat.zero_le _) fun answer hfetch => ?_
  obtain ⟨hlimit, htext⟩ := hration.of_fetch hfetch
  obtain ⟨out, k, hrun, hcount, hcyclic⟩ := ends_compile (c := c) hration ⟨answer, resource⟩
    (j := ⟨[.fetch resource], [.fetching resource]⟩) hlimit
  refine ⟨out, k, hrun, hcount, ?_⟩
  rintro ⟨t, ht, hcycle⟩
  cases ht.symm.trans htext
  exact hcyclic hcycle

/-- Two documents that import each other, below a third: the three fetches that are answered lead
around the circle, and the fourth fails. -/
theorem compile_ends_circle :
    let find := Library.relative
    let text (r : Resource) : Except Failure String :=
      if r.path = "a.md" then .ok "```{imports}\n{x} from b.md\n```"
      else .ok "```{imports}\n{x} from a.md\n```"
    let c : Compiler := ⟨Library.limited 3 ⟨fun _ => find, fun _ => text⟩, {}⟩
    let document : Document := ⟨"```{imports}\n{x} from a.md\n```", { path := "n.md" }⟩
    document.Cyclic find text ∧
    ∃ e k, (∀ depth, 3 < depth → (c.compile depth document).run.run {} = (.error e, k)) ∧
      k.calls.countP Call.isFetch = 4 := by
  intro find text c document
  let a : Document := ⟨"```{imports}\n{x} from b.md\n```", { path := "a.md" }⟩
  let b : Document := ⟨"```{imports}\n{x} from a.md\n```", { path := "b.md" }⟩
  have hroot : document.Imports find text a :=
    ⟨"a.md", by decide +kernel, by decide +kernel, by decide +kernel⟩
  have hab : a.Imports find text b := ⟨"b.md", by decide +kernel, by decide +kernel, by decide +kernel⟩
  have hba : b.Imports find text a := ⟨"a.md", by decide +kernel, by decide +kernel, by decide +kernel⟩
  have hcyclic : document.Cyclic find text := ⟨a, .single hroot, .tail (.single hab) hba⟩
  obtain ⟨out, k, hrun, _, herror⟩ := (compile_ends (c := c) (.of_limited 3 find text)).2.1 document
  obtain ⟨e, rfl⟩ := herror hcyclic
  refine ⟨hcyclic, e, k, hrun, ?_⟩
  have hcount : ((c.compile 4 document).run.run {}).2.calls.countP Call.isFetch = 4 := by decide +kernel
  rw [hrun 4 (by decide)] at hcount
  exact hcount

end Compiler

end Notebook
