import Notebook.Proofs.CleanFailure
import Notebook.Proofs.OutputOption
import Notebook.Proofs.Runs
import Notebook.Proofs.WrittenFiles

/-! What a call leaves behind. A call that fails prints nothing and changes no file. A compile that
succeeds makes the module of its document, and prints it or writes it to one file. -/
namespace Notebook

namespace Compiler
variable {c : Compiler} {j k : Journal} {document : Document} {level : String} {depth more : Nat}

/-- A compile that succeeds is not cut off. -/
theorem returns_compileTree_of_le {tree : ModuleTree} (hmore : depth ≤ more)
    (h : (c.compileTree depth document level).Returns j tree k) :
    (c.compileTree more document level).Returns j tree k := by
  obtain ⟨_, ending, _, _, hout, hdeeper⟩ := c.performs_compileTree depth document level j
  rw [show _ = _ from h] at hout hdeeper
  have hdone : ending.isCut = false := by
    rw [Ending.eq_done_of_outcome hout.symm]
    rfl
  obtain ⟨n, rfl⟩ := Nat.exists_eq_add_of_le hmore
  exact hdeeper hdone n

private theorem settles_compileResource {resource : Resource} {source : String}
    (h : (c.compileResource depth resource).Returns j source k) :
    Compile.Settles (fun depth => c.compileResource depth resource) j (.ok source) k := by
  refine ⟨depth, fun more hmore => ?_⟩
  obtain ⟨text, j₁, hfetch, h⟩ := Compile.returns_bind.mp h
  obtain ⟨module, j₂, hmodule, h⟩ := Compile.returns_bind.mp h
  obtain ⟨tree, j₃, htree, hpure⟩ := Compile.returns_bind.mp hmodule
  have htree := returns_compileTree_of_le hmore htree
  have hmodule : (c.compileModule more ⟨text, resource⟩ "").Returns j₁ module j₂ :=
    Compile.returns_bind.mpr ⟨tree, j₃, htree, hpure⟩
  exact Compile.returns_bind.mpr ⟨text, j₁, hfetch, Compile.returns_bind.mpr ⟨module, j₂, hmodule, h⟩⟩

end Compiler

namespace CommandLine
variable {w : Workspace} {options : CompileOptions} {source : String}

/-- `source` is the module of the document that the options name, compiled from the documents below
its root with the configuration that the options give. -/
def Makes (w : Workspace) (options : CompileOptions) (source : String) : Prop :=
  ∃ document root names config k, w.resolve options.document = .ok document ∧
    (options.root.elim (.ok document.dropLast) fun path => w.resolve path) = .ok root ∧
    document = root ++ names ∧ names ≠ [] ∧ loadConfig w options = .ok config ∧
    Compile.Settles (fun depth => (⟨library w root, config⟩ : Compiler).compileResource depth
      ⟨options.owner, options.repo, Text.joined "/" names, options.revision⟩) {} (.ok source) k

private theorem relativePath?_eq_some {root place : Place} {path : String}
    (h : relativePath? root place = some path) :
    ∃ names, place = root ++ names ∧ names ≠ [] ∧ path = Text.joined "/" names := by
  unfold relativePath? at h
  split_ifs at h with hbelow
  cases h
  rw [Bool.and_eq_true, List.isPrefixOf_iff_prefix, decide_eq_true_eq] at hbelow
  obtain ⟨⟨names, rfl⟩, hlt⟩ := hbelow
  refine ⟨names, rfl, ?_, by rw [List.drop_left]⟩
  rintro rfl
  simp at hlt

section Success
open Shell
variable {α β : Type} {s t : World} {verbose : Bool}

-- Looking up, reporting, printing and writing are changes of the world.
private theorem run_modify_bind (change : World → World) (f : Unit → Shell β) :
    (modify change >>= f).run.run s = (f ()).run.run (change s) :=
  rfl

private theorem run_workspace_bind (f : Workspace → Shell β) :
    (workspace >>= f).run.run s = (f s.workspace).run.run s :=
  rfl

private theorem run_lift (result : Except Fault α) (s : World) : (lift result).run.run s = (result, s) := by
  cases result <;> rfl

private theorem lift_eq_ok_iff {result : Except Fault α} {a : α} :
    (lift result).run.run s = (.ok a, t) ↔ result = .ok a ∧ s = t := by
  rw [run_lift, Prod.mk.injEq]

private theorem resolve_of_ok {path : String} {place : Place} (h : (resolve path).run.run s = (.ok place, t)) :
    s.workspace.resolve path = .ok place := by
  rw [resolve, lookUp, run_modify_bind, run_workspace_bind] at h
  exact mapError_eq_ok_iff.mp (lift_eq_ok_iff.mp h).1

private theorem root_of_ok {document root : Place}
    (h : (options.root.elim (pure document.dropLast) resolve).run.run s = (.ok root, t)) :
    (options.root.elim (.ok document.dropLast) fun path => s.workspace.resolve path) = .ok root := by
  cases hr : options.root with
  | none =>
    rw [hr] at h
    exact congrArg _ (run_pure_eq_ok_iff.mp h).1
  | some path =>
    rw [hr] at h
    exact resolve_of_ok h

/-- What is compiled: the document under its path below the root. -/
theorem plan_of_ok {p : Plan} (h : (plan options).run.run s = (.ok p, t)) :
    ∃ document names, s.workspace.resolve options.document = .ok document ∧
      (options.root.elim (.ok document.dropLast) fun path => s.workspace.resolve path) = .ok p.root ∧
      document = p.root ++ names ∧ names ≠ [] ∧ loadConfig s.workspace options = .ok p.config ∧
      p.resource = ⟨options.owner, options.repo, Text.joined "/" names, options.revision⟩ := by
  obtain ⟨_, s₁, hfind, h⟩ := run_bind_eq_ok_iff.mp h
  obtain ⟨document, s₂, hdocument, h⟩ := run_bind_eq_ok_iff.mp h
  obtain ⟨root, s₃, hroot, h⟩ := run_bind_eq_ok_iff.mp h
  have h₁ := (silent_find _).untouched hfind
  have h₂ := h₁.trans ((silent_resolve _).untouched hdocument)
  have h₃ := h₂.trans ((silent_root options document).untouched hroot)
  split at h
  · exact absurd h run_throw_ne_ok
  · rename_i path hpath
    rw [lookUp, run_modify_bind, run_workspace_bind] at h
    obtain ⟨config, _, hconfig, h⟩ := run_bind_eq_ok_iff.mp h
    rw [← (run_pure_eq_ok_iff.mp h).1]
    obtain ⟨names, hnames, hne, rfl⟩ := relativePath?_eq_some hpath
    have hconfig : loadConfig s₃.workspace options = .ok config :=
      mapError_eq_ok_iff.mp (lift_eq_ok_iff.mp hconfig).1
    exact ⟨document, names, h₁.workspace ▸ resolve_of_ok hdocument, h₂.workspace ▸ root_of_ok hroot,
      hnames, hne, h₃.workspace ▸ hconfig, rfl⟩

private theorem makeModule_of_ok {p : Plan} (h : (makeModule verbose p).run.run s = (.ok source, t)) :
    (((⟨library s.workspace p.root, p.config⟩ : Compiler).compileResource
      s.workspace.files.files.length p.resource).run.run {}).1 = .ok source := by
  rw [makeModule, run_workspace_bind] at h
  dsimp only at h
  rw [lookUp, run_modify_bind, report, run_modify_bind] at h
  exact mapError_eq_ok_iff.mp (lift_eq_ok_iff.mp h).1

/-- What a compile does before it hands over the module: it makes it, with the resource of its
document. -/
def make (verbose : Bool) (options : CompileOptions) : Shell (Resource × String) := do
  let p ← plan options
  let source ← makeModule verbose p
  return (p.resource, source)

private theorem runCompile_eq (verbose : Bool) (options : CompileOptions) : runCompile verbose options =
    make verbose options >>= fun module => deliver module.1 module.2 options.output := by
  simp only [runCompile, make, bind_assoc, pure_bind]

-- Only what follows looks at the output.
private theorem make_output (verbose : Bool) (options : CompileOptions) (output : Option String) :
    make verbose { options with output := output } = make verbose options :=
  rfl

private theorem silent_make (verbose : Bool) (options : CompileOptions) : Silent (make verbose options) :=
  (silent_plan options).bind fun p => (silent_makeModule verbose p).bind fun _ => silent_pure _

private theorem makes_of_make {resource : Resource}
    (h : (make verbose options).run.run s = (.ok (resource, source), t)) :
    Makes s.workspace options source := by
  obtain ⟨p, mid, hplan, h⟩ := run_bind_eq_ok_iff.mp h
  obtain ⟨_, _, hsource, h⟩ := run_bind_eq_ok_iff.mp h
  cases (run_pure_eq_ok_iff.mp h).1
  obtain ⟨document, names, hdocument, hroot, hnames, hne, hconfig, hresource⟩ := plan_of_ok hplan
  have hreturns : Compile.Returns _ {} source _ := Prod.ext (makeModule_of_ok hsource) rfl
  rw [hresource, ((silent_plan options).untouched hplan).workspace] at hreturns
  exact ⟨document, p.root, names, p.config, _, hdocument, hroot, hnames, hne, hconfig,
    Compiler.settles_compileResource hreturns⟩

private theorem create_of_ok {path : String} {place : Place} (h : (create path).run.run s = (.ok place, t)) :
    s.workspace.target path = .ok place ∧ t = (s.lookUp [path]).put place .empty := by
  rw [create, lookUp, run_modify_bind, run_workspace_bind] at h
  obtain ⟨_, _, htarget, h⟩ := run_bind_eq_ok_iff.mp h
  obtain ⟨hplace, rfl⟩ := lift_eq_ok_iff.mp htarget
  cases h
  exact ⟨mapError_eq_ok_iff.mp hplace, rfl⟩

/-- A file that is opened and then filled holds just what it is filled with. -/
theorem write_of_ok {path : String} (h : (write path source).run.run s = (.ok (), t)) :
    ∃ place, s.workspace.target path = .ok place ∧ t.stdout = s.stdout ∧
      t.workspace = { s.workspace with files := s.workspace.files.put place source.toUTF8 } := by
  obtain ⟨place, _, hcreate, h⟩ := run_bind_eq_ok_iff.mp h
  obtain ⟨htarget, rfl⟩ := create_of_ok hcreate
  cases h
  refine ⟨place, htarget, rfl, ?_⟩
  simp only [World.put, World.lookUp, FileTree.put_put]

private theorem deliver_of_ok {resource : Resource} {path : String}
    (h : (deliver resource source (some path)).run.run s = (.ok (), t)) :
    ∃ place, s.workspace.target path = .ok place ∧ t.stdout = s.stdout ∧
      t.workspace = { s.workspace with files := s.workspace.files.put place source.toUTF8 } := by
  obtain ⟨_, mid, hwrite, h⟩ := run_bind_eq_ok_iff.mp h
  obtain ⟨place, htarget, hstdout, hworkspace⟩ := write_of_ok hwrite
  cases h
  exact ⟨place, htarget, hstdout, hworkspace⟩

end Success

section Outcome
variable {about : About} {args : List String} {verbose : Bool}

private theorem outcome_of_run {t : World} {result : Except Fault Unit}
    (hargs : invocation {} args = .ok ⟨.compile options, verbose⟩)
    (hrun : (runCompile verbose options).run.run { workspace := w } = (result, t)) :
    outcome about w args = ⟨((conclude result).run t).1, ((conclude result).run t).2⟩ := by
  rw [outcome, call_of_run hargs hrun]

/-- A compile succeeds if its module is made and handed over. -/
theorem exists_make (hargs : invocation {} args = .ok ⟨.compile options, verbose⟩)
    (h : (outcome about w args).status = 0) : ∃ resource source mid t,
      (make verbose options).run.run { workspace := w } = (.ok (resource, source), mid) ∧
      (deliver resource source options.output).run.run mid = (.ok (), t) ∧
      outcome about w args = ⟨0, t⟩ := by
  rcases hrun : (runCompile verbose options).run.run { workspace := w } with ⟨fault | _, t⟩
  · rw [outcome_of_run hargs hrun] at h
    cases h
  · have hout : outcome about w args = ⟨0, t⟩ := outcome_of_run hargs hrun
    rw [runCompile_eq] at hrun
    obtain ⟨⟨resource, source⟩, mid, hmake, hdeliver⟩ := run_bind_eq_ok_iff.mp hrun
    exact ⟨resource, source, mid, t, hmake, hdeliver, hout⟩

/-- Without an output, the module that is made is printed. -/
theorem outcome_of_make {resource : Resource} {mid : World}
    (hargs : invocation {} args = .ok ⟨.compile options, verbose⟩) (hnone : options.output = none)
    (hmake : (make verbose options).run.run { workspace := w } = (.ok (resource, source), mid)) :
    (outcome about w args).stdout = source ++ "\n" ∧ (outcome about w args).files = w.files := by
  have hsame := (silent_make verbose options).untouched hmake
  have hrun : (runCompile verbose options).run.run { workspace := w } =
      (.ok (), mid.print (source ++ "\n")) := by
    rw [runCompile_eq, run_bind_ok hmake, hnone]
    rfl
  rw [outcome_of_run hargs hrun]
  refine ⟨?_, congrArg Workspace.files hsame.workspace⟩
  change mid.stdout ++ _ = _
  rw [hsame.stdout, String.empty_append]

end Outcome

/-- A call that fails prints nothing and changes no file. A compile without an output that succeeds
prints the module of its document and a line break, and changes no file. With `-o` put anywhere among
the same arguments, a compile that succeeds prints nothing, and just the file that the output names
is created or replaced: it holds the same module. (A call that asks for help is no compile.) -/
theorem outcome_delivers (about : About) (w : Workspace) (args : List String) :
    ((outcome about w args).status ≠ 0 →
      (outcome about w args).stdout = "" ∧ (outcome about w args).files = w.files) ∧
    ∀ options verbose, invocation {} args = .ok ⟨.compile options, verbose⟩ → options.output = none →
      ((outcome about w args).status = 0 → ∃ source, Makes w options source ∧
        (outcome about w args).stdout = source ++ "\n" ∧ (outcome about w args).files = w.files) ∧
      ∀ before rest out, args = before ++ rest →
        (outcome about w (before ++ "-o" :: out :: rest)).status = 0 →
        ∃ source place, Makes w options source ∧ (outcome about w args).stdout = source ++ "\n" ∧
          (outcome about w (before ++ "-o" :: out :: rest)).stdout = "" ∧ w.target out = .ok place ∧
          w.files.Replaced (outcome about w (before ++ "-o" :: out :: rest)).files place source.toUTF8 ∧
          (⟨w.directory, (outcome about w (before ++ "-o" :: out :: rest)).files⟩ : Workspace).read out =
            .ok source := by
  refine ⟨fun hstatus => ?_, fun options verbose hargs hnone => ⟨fun hstatus => ?_, ?_⟩⟩
  · have hsame := untouched_of_status (s := { workspace := w }) hstatus
    exact ⟨hsame.stdout, congrArg Workspace.files hsame.workspace⟩
  · obtain ⟨resource, source, mid, t, hmake, -, -⟩ := exists_make hargs hstatus
    exact ⟨source, makes_of_make hmake, outcome_of_make hargs hnone hmake⟩
  · rintro before rest out rfl hstatus
    rcases setsOutput_invocation out {} before rest options verbose hargs with husage | hcall
    · rw [outcome, call, husage] at hstatus
      cases hstatus
    · obtain ⟨resource, source, mid, t, hmake, hdeliver, hout⟩ := exists_make hcall hstatus
      rw [make_output] at hmake
      have hsame := (silent_make verbose options).untouched hmake
      obtain ⟨place, htarget, hstdout, hworkspace⟩ := deliver_of_ok hdeliver
      rw [hsame.workspace] at htarget hworkspace
      obtain ⟨hreplaced, hread⟩ := Workspace.replaced_of_target source htarget
      have hfiles : (outcome about w (before ++ "-o" :: out :: rest)).files =
          w.files.put place source.toUTF8 := by
        rw [hout]
        exact congrArg Workspace.files hworkspace
      have hempty : (outcome about w (before ++ "-o" :: out :: rest)).stdout = "" := by
        rw [hout]
        exact hstdout.trans hsame.stdout
      rw [hfiles]
      exact ⟨source, place, makes_of_make hmake, (outcome_of_make hargs hnone hmake).1, hempty, htarget,
        hreplaced, hread⟩

/-- A notebook and the one it imports: printed, written to a file, and not written where there is no
directory. -/
theorem outcome_delivers_import :
    let w : Workspace := ⟨["d"], { files := [(["d", "n.md"], "```{imports}\n{x} from a.md\n```".toUTF8),
      (["d", "a.md"], "A".toUTF8)] }⟩
    ∃ source, Makes w { document := "n.md" } source ∧
      (outcome ⟨"", ""⟩ w ["compile", "n.md"]).stdout = source ++ "\n" ∧
      (⟨w.directory, (outcome ⟨"", ""⟩ w ["compile", "-o", "n.js", "n.md"]).files⟩ : Workspace).read "n.js" =
        .ok source ∧
      (outcome ⟨"", ""⟩ w ["compile", "-o", "e/n.js", "n.md"]).status ≠ 0 ∧
      (outcome ⟨"", ""⟩ w ["compile", "-o", "e/n.js", "n.md"]).files = w.files := by
  intro w
  have hargs : invocation {} ["compile", "n.md"] = .ok ⟨.compile { document := "n.md" }, false⟩ := by rfl
  have hwritten : (outcome ⟨"", ""⟩ w ["compile", "-o", "n.js", "n.md"]).status = 0 := by decide +kernel
  have hfailed : (outcome ⟨"", ""⟩ w ["compile", "-o", "e/n.js", "n.md"]).status ≠ 0 := by decide +kernel
  have hcompile := ((outcome_delivers ⟨"", ""⟩ w ["compile", "n.md"]).2 _ _ hargs rfl).2
  obtain ⟨source, place, hmakes, hstdout, -, -, -, hread⟩ :=
    hcompile ["compile"] ["n.md"] "n.js" rfl hwritten
  exact ⟨source, hmakes, hstdout, hread, hfailed, ((outcome_delivers ⟨"", ""⟩ w _).1 hfailed).2⟩

end CommandLine
end Notebook
