import Notebook.Proofs.Runs
import Notebook.Proofs.ViewCompanions
import Notebook.Proofs.Wiring

/-! Where relative paths lead. `..` stops at the root of a repository, so whatever specifiers and origins
documents write, the documents that are fetched and the addresses of the files that are loaded stay
inside the repository of the root. -/
namespace Notebook

namespace Resource

def IsName (segment : List Char) : Prop :=
  segment ≠ [] ∧ segment ≠ ['.'] ∧ segment ≠ ['.', '.'] ∧ '/' ∉ segment

instance : DecidablePred IsName := fun _ => inferInstanceAs (Decidable (_ ∧ _))

/-- A path all of whose segments are names. The path of the root directory has none. -/
def IsPlain (path : String) : Prop :=
  ∃ names : List (List Char), (∀ n ∈ names, IsName n) ∧
    path = Text.joined "/" (names.map String.ofList)

/-- A resource of the same repository at the same revision, with a plain path. -/
structure Within (root r : Resource) : Prop where
  owner : r.owner = root.owner
  repo : r.repo = root.repo
  revision : r.revision = root.revision
  plain : IsPlain r.path

private theorem IsPlain.head?_ne {path : String} (h : IsPlain path) : path.toList.head? ≠ some '/' := by
  obtain ⟨names, hnames, rfl⟩ := h
  cases names with
  | nil => simp [Text.joined]
  | cons name rest =>
    obtain ⟨hne, _, _, hslash⟩ := hnames name List.mem_cons_self
    obtain ⟨c, cs, rfl⟩ := List.exists_cons_of_ne_nil hne
    have hc : c ≠ '/' := fun he => hslash (he ▸ List.mem_cons_self)
    cases rest with
    | nil => simpa [Text.joined] using hc
    | cons => simpa [Text.joined] using hc

theorem mem_segments {path : String} {segment : List Char} (h : segment ∈ segments path) :
    segment ≠ [] ∧ '/' ∉ segment := by
  obtain ⟨hmem, hne⟩ := List.mem_filter.mp h
  refine ⟨by simpa using hne, fun hslash => ?_⟩
  have := Text.forall_of_mem_split hmem '/' hslash
  simp at this

/-- The segments of a path that is made of segments are these, dots among them included. -/
theorem segments_joined {names : List (List Char)} (h : ∀ n ∈ names, n ≠ [] ∧ '/' ∉ n) :
    segments (Text.joined "/" (names.map String.ofList)) = names := by
  apply Text.filter_split_joined (c := '/') rfl rfl
  intro n hn
  obtain ⟨hne, hslash⟩ := h n hn
  exact ⟨hne, fun c hc => beq_false_of_ne fun he => hslash (he ▸ hc)⟩

/-- A step from a directory adds a name or takes one away. -/
theorem names_step {directory : List (List Char)} {segment : List Char}
    (hd : ∀ n ∈ directory, IsName n) (hs : segment ≠ [] ∧ '/' ∉ segment) :
    ∀ n ∈ step directory segment, IsName n := by
  unfold step
  split
  · exact hd
  · split
    · intro n hn
      exact hd n (List.mem_of_mem_dropLast hn)
    · intro n hn
      rcases List.mem_append.mp hn with hn | hn
      · exact hd n hn
      · rw [List.mem_singleton.mp hn]
        exact ⟨hs.1, ‹_›, ‹_›, hs.2⟩

private theorem names_foldl_step {directory followed : List (List Char)} (hd : ∀ n ∈ directory, IsName n)
    (hs : ∀ segment ∈ followed, segment ≠ [] ∧ '/' ∉ segment) :
    ∀ n ∈ followed.foldl step directory, IsName n := by
  induction followed generalizing directory with
  | nil => exact hd
  | cons segment followed ih =>
    exact ih (names_step hd (hs segment List.mem_cons_self)) fun s h =>
      hs s (List.mem_cons_of_mem segment h)

private theorem names_directory {r : Resource} (h : IsPlain r.path) (relative : String) :
    ∀ n ∈ r.directory relative, IsName n := by
  obtain ⟨names, hnames, hpath⟩ := h
  unfold directory
  split
  · intro n hn
    cases hn
  · rw [hpath, segments_joined fun n hn => ⟨(hnames n hn).1, (hnames n hn).2.2.2⟩]
    intro n hn
    exact hnames n (List.mem_of_mem_dropLast hn)

theorem Within.join {root r : Resource} (h : root.Within r) (relative : String) :
    root.Within (r.join relative) := by
  refine ⟨h.owner, h.repo, h.revision, _, ?_, rfl⟩
  exact names_foldl_step (names_directory h.plain relative) fun _ hs => mem_segments hs

end Resource

private theorem Library.within_of_relative {specifier : String} {root origin resource : Resource}
    (horigin : root.Within origin) (h : relative specifier origin = .ok resource) :
    root.Within resource := by
  unfold relative at h
  dsimp only at h
  split at h
  · cases h
  · cases h
    exact horigin.join _

/-- An address of raw content in the repository of `root`: the base without the slashes at its end, the
repository, the revision and a plain path. -/
def Config.IsAddress (config : Config) (root : Resource) (url : String) : Prop :=
  ∃ base slashes path : String, config.rawBaseUrl = base ++ slashes ∧
    (∀ c ∈ slashes.toList, c = '/') ∧ base.toList.getLast? ≠ some '/' ∧ Resource.IsPlain path ∧
    url = base ++ "/" ++ root.owner ++ "/" ++ root.repo ++ "/blob/" ++
      root.revision.getD config.defaultRevision ++ "/" ++ path ++ "?raw=true"

private theorem Config.isAddress_rawUrl (config : Config) {root r : Resource} (h : root.Within r)
    (origin : String) : config.IsAddress root (config.rawUrl r origin) := by
  obtain ⟨howner, hrepo, hrevision, hplain⟩ := h.join origin
  refine ⟨String.ofList (config.rawBaseUrl.toList.reverse.dropWhile (· == '/')).reverse,
    String.ofList (config.rawBaseUrl.toList.reverse.takeWhile (· == '/')).reverse,
    (r.join origin).path, ?_, ?_, ?_, hplain, ?_⟩
  · rw [← String.ofList_append, ← List.reverse_append, List.takeWhile_append_dropWhile,
      List.reverse_reverse, String.ofList_toList]
  · intro c hc
    rw [String.toList_ofList, List.mem_reverse] at hc
    simpa using List.mem_takeWhile_imp hc
  · rw [String.toList_ofList, List.getLast?_reverse]
    intro hhead
    have := List.head?_dropWhile_not (· == '/') config.rawBaseUrl.toList.reverse
    rw [hhead] at this
    simp at this
  · rw [rawUrl, howner, hrepo, hrevision]

def ImportLine.file : ImportLine → Option FetchImport
  | fromModule _ => none
  | load i => some i

/-- The files that a chunk loads, each with whether its cell is hidden. -/
def Chunk.loads (chunk : Chunk) : List (FetchImport × Bool) :=
  match chunk.type, ImportLine.parseAll chunk.content with
  | "imports", .ok lines =>
    (lines.filterMap ImportLine.file).map fun i => (i, (CellName.parse chunk.name).hidden)
  | _, _ => []

def Fragment.fetching (i : FetchImport) (hidden : Bool) (url : String) : Fragment :=
  .define ((Cell.make (some i.name) []
    (.function false false ("\n  return fetch(" ++ Text.quoted url ++ ")\n"))).hide hidden)

/-- The statement for a file that a document at a resource loads. -/
def Config.loading (config : Config) (resource : Resource) (load : FetchImport × Bool) : Fragment :=
  .fetching load.1 load.2 (config.rawUrl resource load.1.origin)

def Fragment.isFunction : Fragment → Bool
  | define cell => !cell.body.isArrow
  | bring _ => false

/-- What a chunk generates. The functions among the statements of an `imports` chunk are the cells for the
files that its lines load, in order, and these files are in the repository of `root`. -/
structure Chunk.LoadsWithin (root : Resource) (site : Site) (chunk : Chunk) (part : List Fragment) : Prop where
  generated : ∃ before after, chunk.generate site before = .ok (part, after)
  functions : chunk.type = "imports" →
    part.filter Fragment.isFunction = chunk.loads.map (site.config.loading site.resource)
  addresses : ∀ load ∈ chunk.loads,
    site.config.IsAddress root (site.config.rawUrl site.resource load.1.origin)

private theorem ImportLine.functions_fragments (site : Site) (hidden : Bool) (r : Registry) (line : ImportLine) :
    (line.fragments site hidden r).1.filter Fragment.isFunction =
      (line.file.toList.map fun i => site.config.loading site.resource (i, hidden)) := by
  cases line with
  | load i =>
    have hfunction : Fragment.isFunction (.define (fetchCell site i hidden)) := by
      rw [Fragment.isFunction, fetchCell, Cell.body_hide]
      rfl
    exact List.filter_cons_of_pos hfunction
  | fromModule i =>
    unfold fragments symbolFragments
    dsimp only
    split
    · have harrow (view value : String) : (Cell.viewValue view value hidden).body.isArrow = true := by
        rw [Cell.viewValue, Cell.body_hide]
        rfl
      simp [Fragment.isFunction, harrow, file]
    · rfl

private theorem ImportLine.functions_allFragments (site : Site) (hidden : Bool) (lines : List ImportLine)
    (r : Registry) : (allFragments site hidden lines r).1.filter Fragment.isFunction =
      (lines.filterMap file).map fun i => site.config.loading site.resource (i, hidden) := by
  induction lines generalizing r with
  | nil => rfl
  | cons line lines ih =>
    have hsplit : (line :: lines).filterMap file = line.file.toList ++ lines.filterMap file := by
      rw [List.filterMap_cons]
      cases line.file <;> rfl
    rw [hsplit, List.map_append, ← ih, ← functions_fragments site hidden r line, ← List.filter_append]
    rfl

namespace Chunk
variable {root : Resource} {site : Site} {chunk : Chunk} {r last : Registry} {part : List Fragment}

private theorem functions_generate (h : chunk.generate site r = .ok (part, last))
    (ht : chunk.type = "imports") :
    part.filter Fragment.isFunction = chunk.loads.map (site.config.loading site.resource) := by
  rcases generate_cases h with ⟨ht', _⟩ | ⟨ht', _⟩ | ⟨ht', _⟩ | ⟨_, lines, hl, hout⟩
  · simp [ht] at ht'
  · simp [ht] at ht'
  · simp [ht] at ht'
  · have hloads : chunk.loads = (lines.filterMap ImportLine.file).map
        fun i => (i, (CellName.parse chunk.name).hidden) := by
      rw [loads, ht, hl]
      rfl
    rw [hloads, List.map_map, show part = _ from congrArg Prod.fst hout]
    exact ImportLine.functions_allFragments site _ lines r

private theorem loadsWithin_generate (hwithin : root.Within site.resource)
    (h : chunk.generate site r = .ok (part, last)) : chunk.LoadsWithin root site part :=
  ⟨⟨r, last, h⟩, functions_generate h, fun _ _ => site.config.isAddress_rawUrl hwithin _⟩

/-- The statements of chunks are those of one chunk after the other. -/
theorem loadsWithin_generateAll (hwithin : root.Within site.resource) {chunks : List Chunk}
    {body : List Fragment} (h : generateAll site chunks r = .ok (body, last)) :
    ∃ parts, body = parts.flatten ∧ List.Forall₂ (LoadsWithin root site) chunks parts := by
  induction chunks generalizing r body with
  | nil =>
    cases h
    exact ⟨[], rfl, .nil⟩
  | cons chunk chunks ih =>
    obtain ⟨first, mid, rest, hfirst, hrest, rfl⟩ := generateAll_cons_eq_ok h
    obtain ⟨parts, rfl, hparts⟩ := ih hrest
    exact ⟨first :: parts, rfl, .cons (loadsWithin_generate hwithin hfirst) hparts⟩

end Chunk

namespace Compile
variable {α β : Type} {root : Resource} {x : Compile α}

/-- Everything that the computation fetches is in the repository of `root`. -/
def StaysWithin (root : Resource) (x : Compile α) : Prop :=
  ∀ j resource, .fetch resource ∈ (x.run.run j).2.calls →
    .fetch resource ∈ j.calls ∨ root.Within resource

namespace StaysWithin

private theorem of_no_calls (h : ∀ j, (x.run.run j).2.calls = j.calls) : StaysWithin root x := by
  intro j resource hmem
  rw [h] at hmem
  exact .inl hmem

theorem bind (hx : StaysWithin root x) {f : α → Compile β} (hf : ∀ a, StaysWithin root (f a)) :
    StaysWithin root (x >>= f) := by
  intro j resource hmem
  have hfirst := hx j resource
  rw [run_bind] at hmem
  rcases hrun : x.run.run j with ⟨_ | a, k⟩
  · rw [hrun] at hmem hfirst
    exact hfirst hmem
  · rw [hrun] at hmem hfirst
    rcases hf a k resource hmem with hk | hwithin
    · exact hfirst hk
    · exact .inr hwithin

theorem fetch (library : Library) {r : Resource} (h : root.Within r) :
    StaysWithin root (Compile.fetch library r) := by
  intro j resource hmem
  rw [run_fetch] at hmem
  rcases List.mem_append.mp hmem with hmem | hmem
  · exact .inl hmem
  · cases List.mem_singleton.mp hmem
    exact .inr h

end StaysWithin

end Compile

namespace Compiler
variable {c : Compiler} {root : Resource}

section Relative
variable (hrelative : ∀ calls, c.library.locate calls = Library.relative)
include hrelative

private theorem within_of_located {calls : List Call} {s : String} {origin resource : Resource}
    (horigin : root.Within origin) (h : c.library.locate calls s origin = .ok resource) :
    root.Within resource := by
  rw [hrelative] at h
  exact Library.within_of_relative horigin h

private theorem staysWithin_compileModule {document : Document} (h : root.Within document.resource)
    (depth : Nat) (level : String) : (c.compileModule depth document level).StaysWithin root := by
  have htree : (c.compileTree depth document level).StaysWithin root := by
    intro j resource hmem
    obtain ⟨calls, ending, hruns, hcalls, _⟩ := c.performs_compileTree depth document level j
    rw [hcalls] at hmem
    rcases List.mem_append.mp hmem with hmem | hmem
    · exact .inl hmem
    · exact .inr (hruns.forall_fetch (within_of_located hrelative) h hmem)
  exact htree.bind fun _ => .of_no_calls fun _ => rfl

private theorem staysWithin_compile {document : Document} (h : root.Within document.resource) (depth : Nat) :
    (c.compile depth document).StaysWithin root :=
  (staysWithin_compileModule hrelative h depth "").bind fun _ => .of_no_calls fun _ => rfl

/-- With modules that are located by their relative paths, a compile that starts from a plain path
stays in the repository, whatever the documents say and whether it succeeds or not. If it succeeds, each
of its modules is made of the root or of a document that the library gives, chunk by chunk, and all
that the module loads is at an address in the repository. -/
theorem compile_staysWithin (hroot : Resource.IsPlain root.path) :
    (∀ resource, root.Within resource → resource.path.toList.head? ≠ some '/') ∧
    (∀ depth text level, (c.compileModule depth ⟨text, root⟩ level).StaysWithin root) ∧
    (∀ depth text, (c.compile depth ⟨text, root⟩).StaysWithin root) ∧
    (∀ depth, (c.compileResource depth root).StaysWithin root) ∧
    ∀ depth text level m j k, (c.compileModule depth ⟨text, root⟩ level).Returns j m k →
      ∃ tree, (c.compileTree depth ⟨text, root⟩ level).Returns j tree k ∧ tree.module = m ∧
        ∀ nested ∈ tree.modules, ∃ (source : Document) (content : Content) (registry : Registry)
            (parts : List (List Fragment)),
          (source = ⟨text, root⟩ ∨ ∃ calls, c.library.fetch calls source.resource = .ok source.text) ∧
          root.Within source.resource ∧ Content.ofText source.text = .ok content ∧
          Chunk.generateAll ⟨source.resource, nested.level, c.config⟩ content.chunks {} =
            .ok (nested.body, registry) ∧
          nested.body = parts.flatten ∧
          List.Forall₂ (Chunk.LoadsWithin root ⟨source.resource, nested.level, c.config⟩)
            content.chunks parts := by
  have hself : root.Within root := ⟨rfl, rfl, rfl, hroot⟩
  refine ⟨fun _ h => h.plain.head?_ne,
    fun depth text level => staysWithin_compileModule hrelative hself depth level,
    fun depth text => staysWithin_compile hrelative hself depth,
    fun depth => (Compile.StaysWithin.fetch c.library hself).bind fun text =>
      staysWithin_compile hrelative hself depth, ?_⟩
  intro depth text level m j k h
  obtain ⟨tree, _, ht, h⟩ := Compile.returns_bind.mp h
  obtain ⟨rfl, rfl⟩ := Compile.returns_pure.mp h
  refine ⟨tree, ht, rfl, fun nested hnested => ?_⟩
  have hsources := ((compiles_of_returns ht).exists_source_of_kept
    (I := fun source => (source = ⟨text, root⟩ ∨ ∃ calls,
      c.library.fetch calls source.resource = .ok source.text) ∧ root.Within source.resource)
    (P := fun _ _ => True)
    (fun hd ⟨_, located⟩ fetched => ⟨.inr fetched, within_of_located hrelative hd.2 located⟩)
    (fun _ _ _ _ => trivial) ⟨.inl rfl, hself⟩).2
  obtain ⟨source, ⟨hsource, hwithin⟩, ⟨content, registry, hread, hbody⟩, -⟩ := hsources nested hnested
  obtain ⟨parts, hparts, hloads⟩ := Chunk.loadsWithin_generateAll hwithin hbody
  exact ⟨source, content, registry, parts, hsource, hwithin, hread, hbody, hparts, hloads⟩

end Relative

/-- Paths that go up further than the repository does end in its root directory. -/
theorem compile_staysWithin_above_root :
    let root : Resource := { owner := "o", repo := "r", path := "docs/n.md" }
    let c : Compiler := ⟨⟨fun _ => Library.relative, fun _ _ => .ok "A"⟩, { rawBaseUrl := "https://h//" }⟩
    let text := "```{imports}\n{x} from ../../../a.md\nd load ../../d.csv\n```"
    let found : Resource := { owner := "o", repo := "r", path := "a.md" }
    Resource.IsPlain root.path ∧
    (Chunk.discover text.toList).flatMap Chunk.loads = [(⟨"d", "../../d.csv"⟩, false)] ∧
    c.config.rawUrl root "../../d.csv" = "https://h/o/r/blob/main/d.csv?raw=true" ∧
    ∃ m k, (c.compileModule 1 ⟨text, root⟩ "").Returns {} m k ∧
      k.calls = [.locate "../../../a.md" root, .fetch found] ∧ root.Within found ∧
      ∃ tree, (c.compileTree 1 ⟨text, root⟩ "").Returns {} tree k ∧ tree.module = m ∧
        ∀ nested ∈ tree.modules, ∃ (source : Document) (content : Content) (registry : Registry)
            (parts : List (List Fragment)),
          (source = ⟨text, root⟩ ∨ ∃ calls, c.library.fetch calls source.resource = .ok source.text) ∧
          root.Within source.resource ∧ Content.ofText source.text = .ok content ∧
          Chunk.generateAll ⟨source.resource, nested.level, c.config⟩ content.chunks {} =
            .ok (nested.body, registry) ∧
          nested.body = parts.flatten ∧
          List.Forall₂ (Chunk.LoadsWithin root ⟨source.resource, nested.level, c.config⟩)
            content.chunks parts := by
  intro root c text found
  have hplain : Resource.IsPlain root.path :=
    ⟨["docs".toList, "n.md".toList], by decide, by decide +kernel⟩
  have hrelative (calls : List Call) : c.library.locate calls = Library.relative := by dsimp only [c]
  obtain ⟨_, hmodule, _, _, htree⟩ := compile_staysWithin hrelative hplain
  obtain ⟨m, k, h, _⟩ := Compile.exists_returns (x := c.compileModule 1 ⟨text, root⟩ "") (j := {})
    (f := fun _ => ()) (b := ()) (by decide +kernel)
  have hcalls : ((c.compileModule 1 ⟨text, root⟩ "").run.run {}).2.calls =
      [.locate "../../../a.md" root, .fetch found] := by decide +kernel
  have hfound : root.Within found := by
    rcases hmodule 1 text "" {} found (by rw [hcalls]; simp) with hmem | hwithin
    · exact absurd hmem List.not_mem_nil
    · exact hwithin
  have hrun : (c.compileModule 1 ⟨text, root⟩ "").run.run {} = (.ok m, k) := h
  rw [hrun] at hcalls
  exact ⟨hplain, by decide +kernel, by decide +kernel, m, k, h, hcalls, hfound,
    htree 1 text "" m {} k h⟩

end Compiler

end Notebook
