import Notebook.Proofs.Runs

/-! What the calls of a compile tell about its result. A compile asks for one thing after the other and
stops at the first failure, so its calls show where an error comes from, and without an error how many
modules there are. -/
namespace Notebook

namespace Library
variable {library : Library} {before : List Call}

def Answers (library : Library) (before : List Call) : Call → Prop
  | .locate s origin => ∃ resource, library.locate before s origin = .ok resource
  | .fetch resource => ∃ text, library.fetch before resource = .ok text

def AnswersAll (library : Library) (before : List Call) : List Call → Prop
  | [] => True
  | call :: calls => library.Answers before call ∧ library.AnswersAll (before ++ [call]) calls

private theorem answersAll_append {a b : List Call} : library.AnswersAll before (a ++ b) ↔
    library.AnswersAll before a ∧ library.AnswersAll (before ++ a) b := by
  induction a generalizing before with
  | nil => simp [AnswersAll]
  | cons call a ih => simp [AnswersAll, ih, and_assoc]

theorem AnswersAll.dropLast {calls : List Call} (h : library.AnswersAll before calls) :
    library.AnswersAll before calls.dropLast := by
  rcases List.eq_nil_or_concat calls with rfl | ⟨start, call, rfl⟩
  · exact h
  · rw [List.concat_eq_append] at h ⊢
    rw [List.dropLast_concat]
    exact (answersAll_append.mp h).1

/-- Calls that may end with an unanswered one, after calls that are all answered. -/
theorem AnswersAll.append_dropLast {a b : List Call} (ha : library.AnswersAll before a)
    (hb : library.AnswersAll (before ++ a) b.dropLast) :
    library.AnswersAll before (a ++ b).dropLast := by
  by_cases hne : b = []
  · rw [hne, List.append_nil]
    exact ha.dropLast
  · rw [List.dropLast_append_of_ne_nil hne]
    exact answersAll_append.mpr ⟨ha, hb⟩

end Library

/-- Where the error of a failed run comes from: from the last call, if that has no answer, and otherwise
from the text of the document that has been fetched last. -/
inductive Blame (library : Library) (before : List Call) : Work → List Call → Error → Prop
  | unlocated {work : Work} (calls : List Call) {s : String} {origin : Resource} {cause : Failure}
      (located : library.locate (before ++ calls) s origin = .error cause) :
      Blame library before work (calls ++ [.locate s origin]) (.resolution s cause)
  | unfetched {work : Work} (calls : List Call) {resource : Resource} {cause : Failure}
      (fetched : library.fetch (before ++ calls) resource = .error cause) :
      Blame library before work (calls ++ [.fetch resource]) (.fetch resource cause)
  | fetched {work : Work} (calls : List Call) {resource : Resource} {text : String} {e : Error}
      (fetched : library.fetch (before ++ calls) resource = .ok text)
      (fault : Document.fault? ⟨text, resource⟩ = some e) :
      Blame library before work (calls ++ [.fetch resource]) e
  | root {document : Document} {e : Error} (fault : document.fault? = some e) :
      Blame library before (.document document) [] e

/-- The error of a part of a run is the error of the run. If the part is a document with an error of
its own, this has to be accounted for by the calls before it. -/
theorem Blame.append {library : Library} {before calls : List Call} {work part : Work} {e : Error}
    (earlier : List Call) (h : Blame library (before ++ earlier) part calls e)
    (hroot : ∀ document, part = .document document → document.fault? = some e →
      Blame library before work earlier e) : Blame library before work (earlier ++ calls) e := by
  cases h with
  | unlocated calls located =>
    rw [← List.append_assoc]
    exact .unlocated _ (by rwa [← List.append_assoc])
  | unfetched calls fetched =>
    rw [← List.append_assoc]
    exact .unfetched _ (by rwa [← List.append_assoc])
  | fetched calls fetched fault =>
    rw [← List.append_assoc]
    exact .fetched _ (by rwa [← List.append_assoc]) fault
  | root fault =>
    rw [List.append_nil]
    exact hroot _ rfl fault

/-- If all calls are answered, the error is one in a text. -/
theorem Blame.isTextual {library : Library} {before calls : List Call} {work : Work} {e : Error}
    (h : Blame library before work calls e) (hall : library.AnswersAll before calls) :
    e.isTextual := by
  cases h with
  | unlocated calls located =>
    obtain ⟨_, ⟨resource, hl⟩, _⟩ := Library.answersAll_append.mp hall
    simp [located] at hl
  | unfetched calls fetched =>
    obtain ⟨_, ⟨text, hf⟩, _⟩ := Library.answersAll_append.mp hall
    simp [fetched] at hf
  | fetched calls fetched fault => exact Document.isTextual_of_fault fault
  | root fault => exact Document.isTextual_of_fault fault

def Work.own : Work → Nat
  | .document _ => 1
  | .imports _ _ => 0

namespace Runs
variable {library : Library} {depth : Nat} {before calls : List Call} {work : Work} {ending : Ending}

private theorem answersAll_pair {s text : String} {origin resource : Resource}
    (located : library.locate before s origin = .ok resource)
    (fetched : library.fetch (before ++ [.locate s origin]) resource = .ok text) :
    library.AnswersAll before [.locate s origin, .fetch resource] :=
  ⟨⟨resource, located⟩, ⟨text, fetched⟩, trivial⟩

/-- In a whole run all calls are answered. -/
theorem answersAll_of_done (h : Runs library depth before work calls ending) (hdone : ending.isDone) :
    library.AnswersAll before calls := by
  induction h with
  | faulty | unlocated | unfetched | cut => cases hdone
  | nil => trivial
  | sound _ _ ih => exact ih (by simpa using hdone)
  | stopped _ _ _ stops _ => simp [stops] at hdone
  | @next _ _ before calls more origin resource s _ _ _ located fetched _ _ ih ihmore =>
    have hchild : library.AnswersAll before ([.locate s origin, .fetch resource] ++ calls) :=
      Library.answersAll_append.mpr ⟨answersAll_pair located fetched, ih rfl⟩
    exact Library.answersAll_append.mpr ⟨hchild, ihmore (by simpa using hdone)⟩

/-- In every run all calls before the last one are answered. -/
theorem answersAll_dropLast (h : Runs library depth before work calls ending) :
    library.AnswersAll before calls.dropLast := by
  induction h with
  | faulty | nil | unlocated => trivial
  | sound _ _ ih => exact ih
  | cut located | unfetched located _ => exact ⟨⟨_, located⟩, trivial⟩
  | stopped located fetched _ _ ih => exact (answersAll_pair located fetched).append_dropLast ih
  | @next _ _ before calls more origin resource s _ _ _ located fetched child _ _ ih =>
    have hchild : library.AnswersAll before ([.locate s origin, .fetch resource] ++ calls) :=
      Library.answersAll_append.mpr
        ⟨answersAll_pair located fetched, child.answersAll_of_done rfl⟩
    exact hchild.append_dropLast ih

/-- The calls of a failed run show where its error comes from. -/
theorem blame {e : Error} (h : Runs library depth before work calls ending)
    (he : ending = .failed e) : Blame library before work calls e := by
  induction h with
  | nil | cut => cases he
  | faulty fault =>
    cases he
    exact .root fault
  | sound _ _ ih =>
    have hpart := ih (Ending.eq_failed_of_plus he)
    exact .append [] (by simpa using hpart) (by simp)
  | unlocated located =>
    cases he
    exact .unlocated [] (by simpa using located)
  | unfetched _ fetched =>
    cases he
    exact .unfetched [_] fetched
  | stopped _ fetched _ _ ih =>
    refine .append [_, _] (ih he) ?_
    intro document hdocument fault
    cases hdocument
    exact .fetched [_] fetched fault
  | next _ _ _ _ _ ih => exact .append (_ :: _ :: _) (ih (Ending.eq_failed_of_plus he)) (by simp)

/-- A whole run locates and fetches once for each module, but for the document that it starts from. -/
theorem countP_of_done {n : Nat} (h : Runs library depth before work calls ending)
    (hdone : ending = .done n) :
    calls.countP Call.isFetch + work.own = n ∧ calls.countP (!·.isFetch) + work.own = n := by
  induction h generalizing n with
  | faulty | unlocated | unfetched | cut => cases hdone
  | nil =>
    cases hdone
    exact ⟨rfl, rfl⟩
  | sound _ _ ih =>
    obtain ⟨m, rfl, hm⟩ := Ending.eq_done_of_plus hdone
    have himports := ih rfl
    simp only [Work.own] at himports ⊢
    omega
  | stopped _ _ _ stops _ =>
    cases hdone
    cases stops
  | next _ _ _ _ ih ihmore =>
    obtain ⟨m, rfl, hm⟩ := Ending.eq_done_of_plus hdone
    have hchild := ih rfl
    have hothers := ihmore rfl
    simp only [Work.own, List.countP_append, List.countP_cons, Call.isFetch] at hchild hothers ⊢
    simp only [Bool.not_false, Bool.not_true, Bool.false_eq_true, if_true, if_false]
    omega

end Runs

theorem Document.nodup_specifiers (document : Document) : document.specifiers.Nodup :=
  Registry.nodup_specifiers _

/-- What the calls of a compile that has come to its end say about the result. -/
def Concludes (library : Library) (before : List Call) (document : Document) (calls : List Call) :
    Except Error GeneratedModule → Prop
  | .ok m => library.AnswersAll before calls ∧
      calls.countP Call.isFetch + 1 = m.definitions.length ∧
      calls.countP (!·.isFetch) + 1 = m.definitions.length
  | .error e => library.AnswersAll before calls.dropLast ∧
      Blame library before (.document document) calls e ∧
      (library.AnswersAll before calls → e.isTextual)

namespace Compiler
variable {c : Compiler} {document : Document}

private theorem concludes_of_runs {depth : Nat} {before calls : List Call} {ending : Ending}
    {out : Except Error ModuleTree}
    (h : Runs c.library depth before (.document document) calls ending) (hcut : ending.isCut = false)
    (hout : out.map countTree = ending.outcome) :
    Concludes c.library before document calls (out.map ModuleTree.module) := by
  cases out with
  | ok tree =>
    have hdone := Ending.eq_done_of_outcome hout.symm
    have hall := h.answersAll_of_done (by rw [hdone]; rfl)
    exact ⟨hall, h.countP_of_done hdone⟩
  | error e =>
    have hfailed : ending = .failed e := by
      cases ending with
      | done n => cases hout
      | failed e' =>
        cases hout
        rfl
      | cut resource => cases hcut
    have hblame := h.blame hfailed
    exact ⟨h.answersAll_dropLast, hblame, hblame.isTextual⟩

theorem run_compileModule (c : Compiler) (depth : Nat) (document : Document) (level : String)
    (j : Journal) : (c.compileModule depth document level).run.run j =
      (((c.compileTree depth document level).run.run j).1.map ModuleTree.module,
        ((c.compileTree depth document level).run.run j).2) :=
  Compile.run_map _ ModuleTree.module j

private theorem run_compileModule_of_fault {e : Error} (hfault : document.fault? = some e) (c : Compiler)
    (depth : Nat) (level : String) (j : Journal) : ∃ k,
      (c.compileModule depth document level).run.run j = (.error e, k) ∧ k.calls = j.calls := by
  obtain ⟨k, hk, hrun⟩ := compileWith_of_fault hfault c level j
  refine ⟨k, ?_, hk⟩
  rw [run_compileModule]
  cases depth with
  | zero => rw [compileTree, hrun]; rfl
  | succ depth => rw [compileTree, hrun]; rfl

private theorem concludes_of_settles {level : String} {j k : Journal} {out : Except Error GeneratedModule}
    (h : Compile.Settles (fun depth => c.compileModule depth document level) j out k) :
    ∃ depth calls ending, Runs c.library depth j.calls (.document document) calls ending ∧
      ending.isCut = false ∧ k.calls = j.calls ++ calls ∧
      Concludes c.library j.calls document calls out := by
  obtain ⟨enough, hsettles⟩ := h
  simp only [run_compileModule] at hsettles
  have htrees (depth : Nat) (hdepth : enough ≤ depth) :
      ((c.compileTree depth document level).run.run j).2.calls = k.calls := by
    rw [(Prod.mk.inj (hsettles depth hdepth)).2]
  obtain ⟨depth, calls, ending, hdepth, hruns, hcut, hcalls, hout⟩ := exists_run_of_calls_eq htrees
  refine ⟨depth, calls, ending, hruns, hcut, hcalls, ?_⟩
  rw [← (Prod.mk.inj (hsettles depth hdepth)).1]
  exact concludes_of_runs hruns hcut hout

private theorem run_compile (c : Compiler) (depth : Nat) (document : Document) (j : Journal) :
    ((c.compile depth document).run.run j).1 =
        ((c.compileModule depth document "").run.run j).1.map GeneratedModule.source ∧
      ((c.compile depth document).run.run j).2.calls =
        ((c.compileModule depth document "").run.run j).2.calls := by
  rw [compile, run_bind]
  rcases (c.compileModule depth document "").run.run j with ⟨_ | m, k⟩ <;> exact ⟨rfl, rfl⟩

/-- A document with an error of its own makes no calls. Otherwise its specifiers are followed one after
the other, and so are those of each document that is found, before the next one; at whatever depth the
compile is cut off, its calls are those of such a run. If the compile comes to an end, the calls show
the number of its modules, or which call or which document the error comes from. -/
theorem compileModule_calls (c : Compiler) (document : Document) (level : String) (j : Journal) :
    document.specifiers.Nodup ∧
    (∀ e, document.fault? = some e → ∀ depth, ∃ k,
      (c.compileModule depth document level).run.run j = (.error e, k) ∧ k.calls = j.calls) ∧
    (∀ depth, ∃ calls ending, Runs c.library depth j.calls (.document document) calls ending ∧
      ((c.compileModule depth document level).run.run j).2.calls = j.calls ++ calls) ∧
    (∀ out k, Compile.Settles (fun depth => c.compileModule depth document level) j out k →
      ∃ depth calls ending, Runs c.library depth j.calls (.document document) calls ending ∧
        ending.isCut = false ∧ k.calls = j.calls ++ calls ∧
        Concludes c.library j.calls document calls out) ∧
    ∀ depth, ((c.compile depth document).run.run j).1 =
        ((c.compileModule depth document "").run.run j).1.map GeneratedModule.source ∧
      ((c.compile depth document).run.run j).2.calls =
        ((c.compileModule depth document "").run.run j).2.calls := by
  refine ⟨document.nodup_specifiers,
    fun e hfault depth => run_compileModule_of_fault hfault c depth level j, ?_,
    fun out k h => concludes_of_settles h, fun depth => c.run_compile depth document j⟩
  intro depth
  obtain ⟨calls, ending, hruns, hcalls, _⟩ := c.performs_compileTree depth document level j
  refine ⟨calls, ending, hruns, ?_⟩
  rw [run_compileModule]
  exact hcalls

/-- A chunk of no known type, found before any call, or after the calls for the document that it
stands in. -/
theorem compileModule_calls_unknown_type :
    let c : Compiler := ⟨Library.ofTexts [("a.md", "A"), ("b.md", "```{zig}\n```")], {}⟩
    let faulty : Document := ⟨"```{zig}\n```", { path := "z.md" }⟩
    let document : Document :=
      ⟨"```{imports}\n{x} from a.md\n{y} from a.md\n{z} from b.md\n```", { path := "n.md" }⟩
    (∃ k, (c.compileModule 0 faulty "").run.run {} = (.error (.unknownChunkType "zig"), k) ∧
      k.calls = []) ∧
    ∃ k, Compile.Settles (fun depth => c.compileModule depth document "") {}
        (.error (.unknownChunkType "zig")) k ∧
      k.calls = [.locate "a.md" document.resource, .fetch { path := "a.md" },
        .locate "b.md" document.resource, .fetch { path := "b.md" }] ∧
      Concludes c.library [] document k.calls (.error (.unknownChunkType "zig")) := by
  intro c faulty document
  refine ⟨(compileModule_calls c faulty "" {}).2.1 _ (by decide +kernel) 0, ?_⟩
  rcases hrun : (c.compileModule 2 document "").run.run {} with ⟨out, k⟩
  have hout : ((c.compileModule 2 document "").run.run {}).1.map (fun _ => ()) =
      .error (.unknownChunkType "zig") := by decide +kernel
  have hcalls : ((c.compileModule 2 document "").run.run {}).2.calls =
      [.locate "a.md" document.resource, .fetch { path := "a.md" },
        .locate "b.md" document.resource, .fetch { path := "b.md" }] := by decide +kernel
  rw [hrun] at hout hcalls
  cases out with
  | ok m => cases hout
  | error e =>
    cases hout
    have hsettles := settles_compileModule hrun (by rw [hcalls]; decide)
    obtain ⟨_, calls, _, _, _, hk, hconcludes⟩ :=
      (compileModule_calls c document "" {}).2.2.2.1 _ k hsettles
    exact ⟨k, hsettles, hcalls, hk ▸ hconcludes⟩

end Compiler

end Notebook
