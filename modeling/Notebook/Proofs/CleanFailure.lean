import Notebook.CommandLine.Outcome
import Notebook.Proofs.Effects

/-! Calls that fail leave nothing behind.

An action is clean if its failures come before it prints anything and before it touches a file. What
is silent may stand in front of a clean action, and what never fails may follow it; the two commands are
put together in this way. -/
namespace Notebook.CommandLine

/-- Nothing has been printed, and no file has been changed. -/
structure World.Untouched (s t : World) : Prop where
  stdout : t.stdout = s.stdout
  workspace : t.workspace = s.workspace

theorem World.Untouched.trans {s t u : World} (hst : Untouched s t) (htu : Untouched t u) : Untouched s u :=
  ⟨htu.stdout.trans hst.stdout, htu.workspace.trans hst.workspace⟩

namespace Shell
variable {α β : Type} {x : Shell α} {f : α → Shell β}

/-- However the action ends, it prints nothing and changes no file. -/
def Silent (x : Shell α) : Prop :=
  ∀ s : World, s.Untouched (x.run.run s).2

def Total (x : Shell α) : Prop :=
  ∀ s, ∃ a t, x.run.run s = (.ok a, t)

/-- If the action fails, it has printed nothing and changed no file. -/
def Clean (x : Shell α) : Prop :=
  ∀ s fault t, x.run.run s = (.error fault, t) → s.Untouched t

theorem Silent.untouched (h : Silent x) {s t : World} {result : Except Fault α}
    (hrun : x.run.run s = (result, t)) : s.Untouched t := by
  have hs := h s
  rwa [hrun] at hs

theorem Silent.bind (hx : Silent x) (hf : ∀ a, Silent (f a)) : Silent (x >>= f) := by
  intro s
  rcases hrun : x.run.run s with ⟨fault | a, t⟩
  · rw [run_bind_error hrun]
    exact hx.untouched hrun
  · rw [run_bind_ok hrun]
    exact (hx.untouched hrun).trans (hf a t)

theorem Total.bind (hx : Total x) (hf : ∀ a, Total (f a)) : Total (x >>= f) := by
  intro s
  obtain ⟨a, t, hrun⟩ := hx s
  rw [run_bind_ok hrun]
  exact hf a t

private theorem Total.clean (h : Total x) : Clean x := by
  intro s fault t hrun
  obtain ⟨a, u, hok⟩ := h s
  rw [hok] at hrun
  cases hrun

private theorem Silent.bind_clean (hx : Silent x) (hf : ∀ a, Clean (f a)) : Clean (x >>= f) := by
  intro s fault t hrun
  rcases hfirst : x.run.run s with ⟨e | a, mid⟩
  · rw [run_bind_error hfirst] at hrun
    cases hrun
    exact hx.untouched hfirst
  · rw [run_bind_ok hfirst] at hrun
    exact (hx.untouched hfirst).trans (hf a mid fault t hrun)

private theorem Clean.bind_total (hx : Clean x) (hf : ∀ a, Total (f a)) : Clean (x >>= f) := by
  intro s fault t hrun
  rcases hfirst : x.run.run s with ⟨e | a, mid⟩
  · rw [run_bind_error hfirst] at hrun
    cases hrun
    exact hx s _ _ hfirst
  · obtain ⟨b, u, hok⟩ := hf a mid
    rw [run_bind_ok hfirst, hok] at hrun
    cases hrun

section Primitives

theorem silent_pure (a : α) : Silent (pure a) :=
  fun _ => ⟨rfl, rfl⟩

private theorem silent_throw (fault : Fault) : Silent (throw fault : Shell α) :=
  fun _ => ⟨rfl, rfl⟩

private theorem silent_lift (result : Except Fault α) : Silent (lift result) := by
  cases result with
  | error fault => exact silent_throw fault
  | ok a => exact silent_pure a

private theorem silent_workspace : Silent workspace :=
  fun _ => ⟨rfl, rfl⟩

private theorem silent_lookUp (paths : List String) : Silent (lookUp paths) :=
  fun _ => ⟨rfl, rfl⟩

private theorem silent_report (r : Report) : Silent (report r) :=
  fun _ => ⟨rfl, rfl⟩

private theorem total_report (r : Report) : Total (report r) :=
  fun s => ⟨(), s.report r, rfl⟩

private theorem total_print (text : String) : Total (print text) :=
  fun s => ⟨(), s.print text, rfl⟩

private theorem total_put (place : Place) (bytes : ByteArray) : Total (put place bytes) :=
  fun s => ⟨(), s.put place bytes, rfl⟩

end Primitives

private theorem silent_isFile (path : String) : Silent (isFile path) :=
  (silent_lookUp _).bind fun _ => silent_workspace.bind fun _ => silent_pure _

theorem silent_resolve (path : String) : Silent (resolve path) :=
  (silent_lookUp _).bind fun _ => silent_workspace.bind fun _ => silent_lift _

private theorem silent_read (path : String) : Silent (read path) :=
  (silent_lookUp _).bind fun _ => silent_workspace.bind fun _ => silent_lift _

/-- A file that cannot be opened is not changed, and one that has been opened can be written. -/
theorem clean_write (path text : String) : Clean (write path text) := by
  have hcreate : Clean (create path) :=
    (silent_lookUp _).bind_clean fun _ => silent_workspace.bind_clean fun w =>
      (silent_lift _).bind_clean fun place =>
        ((total_put place _).bind fun _ s => ⟨place, s, rfl⟩).clean
  exact hcreate.bind_total fun place => total_put place _

end Shell

open Shell

theorem silent_find (document : String) : Silent (find document) := by
  refine (silent_isFile document).bind fun found => ?_
  cases found with
  | false => exact silent_throw _
  | true => exact silent_pure _

theorem silent_root (options : CompileOptions) (document : Place) :
    Silent (options.root.elim (pure document.dropLast) resolve) := by
  cases options.root with
  | none => exact silent_pure _
  | some root => exact silent_resolve root

theorem silent_plan (options : CompileOptions) : Silent (plan options) := by
  refine (silent_find _).bind fun _ => (silent_resolve _).bind fun document => ?_
  refine (silent_root options document).bind fun root => ?_
  cases relativePath? root document with
  | none => exact silent_throw _
  | some path =>
    refine (silent_lookUp _).bind fun _ => silent_workspace.bind fun w => ?_
    exact (silent_lift _).bind fun config => silent_pure _

theorem silent_makeModule (verbose : Bool) (p : Plan) : Silent (makeModule verbose p) :=
  silent_workspace.bind fun _ => (silent_lookUp _).bind fun _ => (silent_report _).bind fun _ => silent_lift _

private theorem clean_deliver (resource : Resource) (source : String) (output : Option String) :
    Clean (deliver resource source output) := by
  cases output with
  | none => exact (total_print _).clean
  | some path => exact (clean_write path source).bind_total fun _ => total_report _

private theorem clean_runCompile (verbose : Bool) (options : CompileOptions) : Clean (runCompile verbose options) :=
  (silent_plan options).bind_clean fun p => (silent_makeModule verbose p).bind_clean fun source =>
    clean_deliver p.resource source options.output

private theorem clean_runChunks (verbose : Bool) (document : String) : Clean (runChunks verbose document) := by
  refine (silent_find _).bind_clean fun _ => (silent_read _).bind_clean fun text => ?_
  refine (silent_lift _).bind_clean fun content => (silent_report _).bind_clean fun _ => ?_
  refine (silent_lift _).bind_clean fun json => ?_
  exact ((total_print _).bind fun _ => total_report _).clean

private theorem clean_run (i : Invocation) : Clean (run i) := by
  obtain ⟨command, verbose⟩ := i
  cases command with
  | compile options => exact clean_runCompile verbose options
  | chunks document => exact clean_runChunks verbose document

section Call
variable {about : About} {args : List String} {i : Invocation} {s t : World}

theorem call_of_run {result : Except Fault Unit} (hargs : invocation {} args = .ok i)
    (hrun : (run i).run.run s = (result, t)) : (call about args).run s = (conclude result).run t := by
  have hcall : (call about args).run s =
      (conclude ((run i).run.run s).1).run ((run i).run.run s).2 := by
    rw [call, hargs]
    rfl
  rw [hcall, hrun]

/-- A call with an exit status other than zero prints nothing and changes no file, from whatever world it
starts. -/
theorem untouched_of_status (h : ((call about args).run s).1 ≠ 0) :
    s.Untouched ((call about args).run s).2 := by
  cases hargs : invocation {} args with
  | error stop =>
    have hcall : (call about args).run s = (halt about stop).run s := by rw [call, hargs]
    rw [hcall] at h ⊢
    cases stop with
    | usage => exact ⟨rfl, rfl⟩
    | help => exact absurd rfl h
    | version => exact absurd rfl h
  | ok i =>
    rcases hrun : (run i).run.run s with ⟨fault | _, t⟩
    · rw [call_of_run hargs hrun]
      exact (clean_run i s fault t hrun).trans ⟨rfl, rfl⟩
    · rw [call_of_run hargs hrun] at h
      exact absurd rfl h

end Call

end Notebook.CommandLine
