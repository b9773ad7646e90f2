import Notebook.Proofs.ViewCompanions

/-! The parameters of the functions that a chunk generates.

Besides the inputs that a chunk declares, a template takes its tag and a rendered script takes `render`. A
script looks for `render` among its inputs first; a template does not look for its tag. -/
namespace Notebook

namespace Cell
variable {s t : String}

def param (input : String) : String :=
  String.ofList (input.toList.map fun c => if c = ' ' then '_' else c)

private theorem params_eq (cell : Cell) : cell.params = cell.inputs.map param := rfl

private theorem param_of_not_mem (h : ' ' ∉ s.toList) : param s = s := by
  have hsame (c : Char) (hc : c ∈ s.toList) : (if c = ' ' then '_' else c) = id c :=
    if_neg fun he : c = ' ' => h (he ▸ hc)
  rw [param, List.map_congr_left hsame, List.map_id, String.ofList_toList]

/-- A name without spaces and underscores is the parameter of itself only. -/
theorem param_eq_iff (hspace : ' ' ∉ t.toList) (hscore : '_' ∉ t.toList) : param s = t ↔ s = t := by
  constructor
  · intro h
    have hs : ' ' ∉ s.toList := by
      intro hmem
      apply hscore
      rw [← h, param, String.toList_ofList]
      exact List.mem_map.mpr ⟨' ', hmem, if_pos rfl⟩
    rwa [param_of_not_mem hs] at h
  · rintro rfl
    exact param_of_not_mem hspace

private theorem mem_params_iff (hspace : ' ' ∉ t.toList) (hscore : '_' ∉ t.toList) {inputs : List String} :
    t ∈ inputs.map param ↔ t ∈ inputs := by
  rw [List.mem_map]
  constructor
  · rintro ⟨s, hs, heq⟩
    rwa [← (param_eq_iff hspace hscore).mp heq]
  · exact fun ht => ⟨t, ht, param_of_not_mem hspace⟩

end Cell

/-- If the statement defines a cell with a function, the function takes the inputs. -/
def Fragment.Takes (inputs : List String) : Fragment → Prop
  | define cell => cell.body.isArrow = false → cell.inputs = inputs
  | bring _ => True

private theorem ImportLine.takes_fragments (site : Site) (hidden : Bool) (r : Registry) (line : ImportLine) :
    ∀ fragment ∈ (line.fragments site hidden r).1, fragment.Takes [] := by
  cases line with
  | fromModule i =>
    unfold fragments symbolFragments
    dsimp only
    split
    · refine List.forall_mem_cons.mpr ⟨trivial, List.forall_mem_singleton.mpr ?_⟩
      intro hbody
      simp [Cell.viewValue, Cell.make, CellBody.isArrow] at hbody
    · exact List.forall_mem_singleton.mpr trivial
  | load i =>
    refine List.forall_mem_singleton.mpr fun _ => ?_
    rw [fetchCell, Cell.inputs_hide]
    rfl

private theorem ImportLine.takes_allFragments (site : Site) (hidden : Bool) (lines : List ImportLine) (r : Registry) :
    ∀ fragment ∈ (allFragments site hidden lines r).1, fragment.Takes [] := by
  induction lines generalizing r with
  | nil => exact List.forall_mem_nil _
  | cons line lines ih =>
    exact List.forall_mem_append.mpr ⟨line.takes_fragments site hidden r, ih _⟩

namespace Chunk
variable {chunk : Chunk}

private theorem takes_templateFragments (chunk : Chunk) (tag : String) :
    ∀ fragment ∈ chunk.templateFragments tag, fragment.Takes (tag :: chunk.inputs) := by
  refine List.forall_mem_singleton.mpr fun _ => ?_
  rw [Cell.inputs_hide]
  rfl

private theorem takes_scriptFragments (chunk : Chunk) :
    ∀ fragment ∈ chunk.scriptFragments, fragment.Takes chunk.scriptInputs := by
  unfold scriptFragments
  refine List.forall_mem_cons.mpr ⟨fun _ => ?_, ?_⟩
  · rw [Cell.inputs_hide]
    rfl
  · split
    · refine List.forall_mem_singleton.mpr fun hbody => ?_
      simp [Cell.viewValue, Cell.make, CellBody.isArrow] at hbody
    · exact List.forall_mem_nil _

def isTemplate (chunk : Chunk) : Bool :=
  chunk.type = "md" || chunk.type = "html"

/-- The inputs of the functions that a chunk generates: a template has its tag before the declared inputs, a
rendered script has `render` behind them unless it is declared, and a function that fetches a file has none. -/
def functionInputs (chunk : Chunk) : List String :=
  if chunk.isTemplate then chunk.type :: chunk.inputs
  else if chunk.type = "imports" then []
  else chunk.inputs ++ if chunk.renderer.isSome && !chunk.inputs.contains "render" then ["render"] else []

private theorem takes_generate {site : Site} {registry after : Registry} {out : List Fragment}
    (h : chunk.generate site registry = .ok (out, after)) :
    ∀ fragment ∈ out, fragment.Takes chunk.functionInputs := by
  unfold functionInputs isTemplate
  rcases generate_cases h with ⟨ht, heq⟩ | ⟨ht, heq⟩ | ⟨ht, heq⟩ | ⟨ht, lines, hl, heq⟩
  · cases heq
    simpa [ht] using chunk.takes_templateFragments "md"
  · cases heq
    simpa [ht] using chunk.takes_templateFragments "html"
  · cases heq
    have hscript : chunk.scriptInputs = chunk.inputs ++
        if chunk.renderer.isSome && !chunk.inputs.contains "render" then ["render"] else [] := by
      unfold scriptInputs
      split <;> simp
    have htakes := chunk.takes_scriptFragments
    rw [hscript] at htakes
    rcases ht with ht | ht <;> simpa [ht] using htakes
  · have hout := congrArg Prod.fst heq
    dsimp only at hout
    rw [hout]
    simpa [ht] using ImportLine.takes_allFragments site _ lines registry

/-- The tags and `render` are the parameters of themselves only. -/
theorem nodup_params_iff (h : (chunk.inputs.map Cell.param).Nodup) :
    (chunk.functionInputs.map Cell.param).Nodup ↔ ¬ (chunk.isTemplate ∧ chunk.type ∈ chunk.inputs) := by
  unfold functionInputs
  by_cases ht : chunk.isTemplate
  · have htag : Cell.param chunk.type ∈ chunk.inputs.map Cell.param ↔ chunk.type ∈ chunk.inputs := by
      have htype : chunk.type = "md" ∨ chunk.type = "html" := by simpa [isTemplate] using ht
      rcases htype with htype | htype <;> rw [htype, Cell.param_of_not_mem (by decide)] <;>
        exact Cell.mem_params_iff (by decide) (by decide)
    rw [if_pos ht, List.map_cons, List.nodup_cons, htag, and_iff_left h]
    simp [ht]
  · rw [if_neg ht]
    refine iff_of_true ?_ (fun hboth => ht hboth.1)
    split
    · exact List.nodup_nil
    · split
      · rename_i hnew
        have hrender : "render" ∉ chunk.inputs.map Cell.param := by
          rw [Cell.mem_params_iff (by decide) (by decide)]
          simp only [Bool.and_eq_true, Bool.not_eq_true', List.contains_eq_mem, decide_eq_false_iff_not] at hnew
          exact hnew.2
        rw [List.map_append, List.map_singleton, Cell.param_of_not_mem (by decide)]
        exact h.append (List.nodup_singleton _) (List.disjoint_singleton.mpr hrender)
      · rwa [List.append_nil]

/-- The functions that a chunk generates have distinct parameters, unless the chunk is a template that declares
its tag as an input. The declared inputs must have distinct parameters themselves. -/
theorem generate_params_nodup (site : Site) (chunk : Chunk) (registry after : Registry) (out : List Fragment)
    (hinputs : (chunk.inputs.map Cell.param).Nodup)
    (h : chunk.generate site registry = .ok (out, after)) :
    ∀ cell, .define cell ∈ out → cell.body.isArrow = false →
      cell.inputs = chunk.functionInputs ∧
        (cell.params.Nodup ↔ ¬ (chunk.isTemplate ∧ chunk.type ∈ chunk.inputs)) := by
  intro cell hcell hbody
  have htaken : cell.inputs = chunk.functionInputs := takes_generate h _ hcell hbody
  refine ⟨htaken, ?_⟩
  rw [Cell.params_eq, htaken]
  exact nodup_params_iff hinputs

def chart : Chunk :=
  { index := 0, type := "js", name := some "viewof chart", inputs := ["viewof data", "scale"],
    renderer := some "mermaid", content := "draw(data)" }

theorem generate_params_nodup_chart : (chart.inputs.map Cell.param).Nodup ∧
    chart.generate {} {} = .ok (chart.scriptFragments, {}) ∧
    ∃ cell, .define cell ∈ chart.scriptFragments ∧ cell.body.isArrow = false ∧
      cell.inputs = ["viewof data", "scale", "render"] ∧ cell.params.Nodup := by
  have hinputs : (chart.inputs.map Cell.param).Nodup := by decide +kernel
  have hkind : ChunkKind.ofType chart.type = .ok .script := by decide +kernel
  have hok : chart.generate {} {} = .ok (chart.scriptFragments, {}) := by
    rw [generate, hkind]
    rfl
  obtain ⟨cell, hcell, hbody⟩ : ∃ cell, .define cell ∈ chart.scriptFragments ∧ cell.body.isArrow = false := by
    unfold scriptFragments
    refine ⟨_, List.mem_cons_self, ?_⟩
    rw [Cell.body_hide]
    rfl
  obtain ⟨htaken, hnodup⟩ := generate_params_nodup {} chart {} {} _ hinputs hok cell hcell hbody
  exact ⟨hinputs, hok, cell, hcell, hbody, htaken.trans (by decide +kernel), hnodup.mpr (by decide +kernel)⟩

/-- Two parameters of one name, from a template that declares its tag. -/
theorem generate_repeats_tag :
    let chunk : Chunk := { index := 0, type := "md", name := some "a", inputs := ["md"], content := "x" }
    (chunk.inputs.map Cell.param).Nodup ∧ ∃ cell, chunk.generate {} {} = .ok ([.define cell], {}) ∧
      cell.body.isArrow = false ∧ cell.params = ["md", "md"] ∧ ¬ cell.params.Nodup := by
  intro chunk
  have hok : chunk.generate {} {} = .ok (chunk.templateFragments "md", {}) := by decide +kernel
  refine ⟨by decide +kernel, _, hok, ?_, ?_, ?_⟩
  · rw [Cell.body_hide]
    rfl
  all_goals
    rw [Cell.params_eq, Cell.inputs_hide]
    decide +kernel

end Chunk

end Notebook
