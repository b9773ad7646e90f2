import Notebook.Proofs.Faults
import Notebook.Session

/-! Chunks that fail leave no trace: they are as if they had not been performed, and the ones after them
are performed as if they had not been there. -/
namespace Notebook

namespace Session
variable {A B : Type} {session : Session A} {next : A → Session B} {r r' : Registry}

private theorem on_lift (x : Except Error A) (r : Registry) : (liftM x : Session A).on r = (x, r) := rfl

private theorem on_bind_ok {a : A} (h : session.on r = (.ok a, r')) : (session >>= next).on r = (next a).on r' :=
  run_bind_ok h

private theorem on_bind_error {e : Error} (h : session.on r = (.error e, r')) :
    (session >>= next).on r = (.error e, r') :=
  run_bind_error h

end Session

namespace ImportLine
variable (site : Site) (hidden : Bool)

private theorem on_perform (line : ImportLine) (r : Registry) : (line.perform site hidden).on r =
    (.ok (line.fragments site hidden r).1, (line.fragments site hidden r).2) := by
  cases line <;> rfl

/-- Once all lines are read, nothing can fail. -/
theorem on_performAll (lines : List ImportLine) (r : Registry) : (performAll site hidden lines).on r =
    (.ok (allFragments site hidden lines r).1, (allFragments site hidden lines r).2) := by
  induction lines generalizing r with
  | nil => rfl
  | cons line lines ih =>
    rw [performAll, Session.on_bind_ok (on_perform site hidden line r), Session.on_bind_ok (ih _)]
    rfl

end ImportLine

namespace Chunk
variable {site : Site} {chunk : Chunk} {r : Registry} {e : Error}

/-- The only errors of a chunk come before it registers anything. -/
theorem on_perform_of_fault (h : chunk.fault? = some e) : (chunk.perform site).on r = (.error e, r) := by
  unfold fault? at h
  unfold perform
  cases hk : ChunkKind.ofType chunk.type with
  | error e' =>
    rw [hk] at h
    cases h
    exact Session.on_bind_error (Session.on_lift _ r)
  | ok kind =>
    rw [hk] at h
    rw [Session.on_bind_ok (Session.on_lift _ r)]
    cases kind with
    | imports =>
      cases hl : ImportLine.parseAll chunk.content with
      | error e' =>
        rw [hl] at h
        cases h
        exact Session.on_bind_error (Session.on_lift _ r)
      | ok lines => simp [hl] at h
    | markdown | html | script => cases h

/-- Without an error a chunk does the same in a session as apart from one. -/
theorem on_perform_of_generate {out : List Fragment × Registry} (h : chunk.generate site r = .ok out) :
    (chunk.perform site).on r = (.ok out.1, out.2) := by
  have hkind {k : ChunkKind} (hk : ChunkKind.ofType chunk.type = .ok k) :
      (liftM (ChunkKind.ofType chunk.type) : Session ChunkKind).on r = (.ok k, r) := by
    rw [hk]
    rfl
  unfold perform
  rcases generate_cases h with ⟨ht, rfl⟩ | ⟨ht, rfl⟩ | ⟨ht, rfl⟩ | ⟨ht, lines, hl, rfl⟩
  · rw [Session.on_bind_ok (hkind (k := .markdown) (by rw [ht]; rfl))]
    rfl
  · rw [Session.on_bind_ok (hkind (k := .html) (by rw [ht]; rfl))]
    rfl
  · rw [Session.on_bind_ok (hkind (k := .script) (by rcases ht with ht | ht <;> rw [ht] <;> rfl))]
    rfl
  · rw [Session.on_bind_ok (hkind (k := .imports) (by rw [ht]; rfl))]
    dsimp only
    rw [hl, Session.on_bind_ok (Session.on_lift _ r), ImportLine.on_performAll]

def registryAfter (start : Registry) (steps : List (Except Error (List Fragment) × Registry)) : Registry :=
  steps.foldl (fun _ step => step.2) start

/-- The chunks whose step succeeds when all of them are performed in order. -/
def succeeding (site : Site) (chunks : List Chunk) (registry : Registry) : List Chunk :=
  ((chunks.zip (performEach site chunks registry)).filter (·.2.1.isOk)).map Prod.fst

private theorem on_perform_eq_error_iff : ((chunk.perform site).on r).1 = .error e ↔ chunk.fault? = some e := by
  constructor
  · intro h
    cases hf : chunk.fault? with
    | some e' =>
      rw [on_perform_of_fault hf] at h
      cases h
      rfl
    | none =>
      obtain ⟨out, hg⟩ := exists_generate site r hf
      rw [on_perform_of_generate hg] at h
      cases h
  · intro h
    rw [on_perform_of_fault h]

section Run
variable {chunks : List Chunk}

private theorem performEach_cons_of_fault (h : chunk.fault? = some e) :
    performEach site (chunk :: chunks) r = (.error e, r) :: performEach site chunks r := by
  rw [performEach, on_perform_of_fault h]

private theorem performEach_cons_of_generate {first : List Fragment} {mid : Registry}
    (h : chunk.generate site r = .ok (first, mid)) :
    performEach site (chunk :: chunks) r = (.ok first, mid) :: performEach site chunks mid := by
  rw [performEach, on_perform_of_generate h]

private theorem succeeding_cons_of_fault (h : chunk.fault? = some e) :
    succeeding site (chunk :: chunks) r = succeeding site chunks r := by
  rw [succeeding, performEach_cons_of_fault h]
  rfl

private theorem succeeding_cons_of_generate {first : List Fragment} {mid : Registry}
    (h : chunk.generate site r = .ok (first, mid)) :
    succeeding site (chunk :: chunks) r = chunk :: succeeding site chunks mid := by
  rw [succeeding, performEach_cons_of_generate h]
  rfl

private theorem performEach_succeeding (site : Site) (chunks : List Chunk) (r : Registry) :
    performEach site (succeeding site chunks r) r = (performEach site chunks r).filter (·.1.isOk) := by
  induction chunks generalizing r with
  | nil => rfl
  | cons chunk chunks ih =>
    cases hf : chunk.fault? with
    | some e =>
      rw [succeeding_cons_of_fault hf, performEach_cons_of_fault hf, ih]
      rfl
    | none =>
      obtain ⟨⟨first, mid⟩, hg⟩ := exists_generate site r hf
      rw [succeeding_cons_of_generate hg, performEach_cons_of_generate hg, performEach_cons_of_generate hg, ih]
      rfl

private theorem registryAfter_filter (site : Site) (chunks : List Chunk) (r : Registry) :
    registryAfter r ((performEach site chunks r).filter (·.1.isOk)) =
      registryAfter r (performEach site chunks r) := by
  induction chunks generalizing r with
  | nil => rfl
  | cons chunk chunks ih =>
    cases hf : chunk.fault? with
    | some e =>
      rw [performEach_cons_of_fault hf]
      exact ih r
    | none =>
      obtain ⟨⟨first, mid⟩, hg⟩ := exists_generate site r hf
      rw [performEach_cons_of_generate hg]
      exact ih mid

/-- Either all steps succeed and a body is made of their statements, or the first failure is the answer. -/
theorem generateAll_cases (site : Site) (chunks : List Chunk) (r : Registry) :
    (∃ parts : List (List Fragment), (performEach site chunks r).map Prod.fst = parts.map .ok ∧
      generateAll site chunks r = .ok (parts.flatten, registryAfter r (performEach site chunks r))) ∨
    ∃ (parts : List (List Fragment)) (e : Error) (later : List (Except Error (List Fragment))),
      (performEach site chunks r).map Prod.fst = parts.map .ok ++ .error e :: later ∧
      generateAll site chunks r = .error e := by
  induction chunks generalizing r with
  | nil => exact .inl ⟨[], rfl, rfl⟩
  | cons chunk chunks ih =>
    cases hf : chunk.fault? with
    | some e =>
      refine .inr ⟨[], e, (performEach site chunks r).map Prod.fst, ?_, ?_⟩
      · rw [performEach_cons_of_fault hf]
        rfl
      · rw [generateAll, generate_of_fault hf]
        rfl
    | none =>
      obtain ⟨⟨first, mid⟩, hg⟩ := exists_generate site r hf
      rw [performEach_cons_of_generate hg, generateAll, hg]
      rcases ih mid with ⟨parts, hsteps, hall⟩ | ⟨parts, e, later, hsteps, hall⟩
      · refine .inl ⟨first :: parts, by simp [hsteps], ?_⟩
        simp only [bind, Except.bind, hall]
        rfl
      · refine .inr ⟨first :: parts, e, later, by simp [hsteps], ?_⟩
        simp only [bind, Except.bind, hall]

/-- A body comes about just if all steps succeed. -/
theorem exists_generateAll_iff (site : Site) (chunks : List Chunk) (r : Registry) :
    (∃ out, generateAll site chunks r = .ok out) ↔ ∀ step ∈ performEach site chunks r, step.1.isOk := by
  have hanswers : (∀ step ∈ performEach site chunks r, step.1.isOk) ↔
      ∀ answer ∈ (performEach site chunks r).map Prod.fst, answer.isOk := by
    rw [List.forall_mem_map]
  rw [hanswers]
  rcases generateAll_cases site chunks r with ⟨parts, hsteps, hall⟩ | ⟨parts, e, later, hsteps, hall⟩
  · refine iff_of_true ⟨_, hall⟩ ?_
    rw [hsteps, List.forall_mem_map]
    intro part _
    rfl
  · refine iff_of_false ?_ ?_
    · rintro ⟨out, h⟩
      rw [hall] at h
      cases h
    · intro hok
      cases hok (.error e) (by simp [hsteps])

/-- Chunks that fail leave no trace. A step that fails keeps the registry. Whether a chunk fails depends
on the chunk alone. The other steps and the last registry are those of the chunks that succeed. A body
needs all of them to succeed, and otherwise the first failure is its answer. -/
theorem failures_leave_no_trace (site : Site) (chunks : List Chunk) (registry : Registry) :
    (∀ (chunk : Chunk) (before after : Registry) (e : Error),
      (chunk.perform site).on before = (.error e, after) → after = before) ∧
    (∀ (chunk : Chunk) (site' : Site) (r r' : Registry) (e : Error),
      ((chunk.perform site).on r).1 = .error e ↔ ((chunk.perform site').on r').1 = .error e) ∧
    performEach site (succeeding site chunks registry) registry =
      (performEach site chunks registry).filter (·.1.isOk) ∧
    registryAfter registry (performEach site (succeeding site chunks registry) registry) =
      registryAfter registry (performEach site chunks registry) ∧
    ((∃ out, generateAll site chunks registry = .ok out) ↔
      ∀ step ∈ performEach site chunks registry, step.1.isOk) ∧
    (∀ body after, generateAll site chunks registry = .ok (body, after) →
      ∃ parts : List (List Fragment), (performEach site chunks registry).map Prod.fst = parts.map .ok ∧
        body = parts.flatten ∧ after = registryAfter registry (performEach site chunks registry)) ∧
    ∀ e, generateAll site chunks registry = .error e →
      ∃ (parts : List (List Fragment)) (later : List (Except Error (List Fragment))),
        (performEach site chunks registry).map Prod.fst = parts.map .ok ++ .error e :: later := by
  refine ⟨?_, ?_, performEach_succeeding site chunks registry, ?_, exists_generateAll_iff site chunks registry,
    ?_, ?_⟩
  · intro chunk before after e h
    have hf : chunk.fault? = some e := on_perform_eq_error_iff.mp (congrArg Prod.fst h)
    rw [on_perform_of_fault hf] at h
    exact (congrArg Prod.snd h).symm
  · intro chunk site' r r' e
    rw [on_perform_eq_error_iff, on_perform_eq_error_iff]
  · rw [performEach_succeeding, registryAfter_filter]
  · intro body after h
    rcases generateAll_cases site chunks registry with ⟨parts, hsteps, hall⟩ | ⟨_, _, _, _, hall⟩
    · rw [hall] at h
      cases h
      exact ⟨parts, hsteps, rfl, rfl⟩
    · rw [hall] at h
      cases h
  · intro e h
    rcases generateAll_cases site chunks registry with ⟨_, _, hall⟩ | ⟨parts, e', later, hsteps, hall⟩
    · rw [hall] at h
      cases h
    · rw [hall] at h
      cases h
      exact ⟨parts, later, hsteps⟩

def interrupted : List Chunk :=
  [{ index := 0, type := "imports", content := "\x7ba\x7d from m" },
    { index := 1, type := "imports", content := "\x7bb\x7d from n\nwrong" },
    { index := 2, type := "imports", content := "\x7bc\x7d from o" }]

/-- The last import gets the label that it would have without the chunk that fails, and without that
chunk there is a body. -/
theorem failures_leave_no_trace_interrupted :
    succeeding {} interrupted {} = [interrupted[0], interrupted[2]] ∧
    registryAfter {} (performEach {} interrupted {}) = ({} : Registry).registerAll ["m", "o"] ∧
    registryAfter {} (performEach {} [interrupted[0], interrupted[2]] {}) =
      ({} : Registry).registerAll ["m", "o"] ∧
    (∃ after, (interrupted[1].perform {}).on (({} : Registry).registerAll ["m"]) =
        (.error (.importSyntax "wrong"), after) ∧ after = ({} : Registry).registerAll ["m"]) ∧
    (∃ (parts : List (List Fragment)) (later : List (Except Error (List Fragment))),
      (performEach {} interrupted {}).map Prod.fst = parts.map .ok ++ .error (.importSyntax "wrong") :: later) ∧
    ∃ parts : List (List Fragment), generateAll {} [interrupted[0], interrupted[2]] {} =
      .ok (parts.flatten, ({} : Registry).registerAll ["m", "o"]) := by
  have hkept : succeeding {} interrupted {} = [interrupted[0], interrupted[2]] := by decide +kernel
  have hafter : registryAfter {} (performEach {} interrupted {}) =
      ({} : Registry).registerAll ["m", "o"] := by decide +kernel
  have hfails : (interrupted[1].perform {}).on (({} : Registry).registerAll ["m"]) =
      (.error (.importSyntax "wrong"), ({} : Registry).registerAll ["m"]) := by decide +kernel
  have hwrong : generateAll {} interrupted {} = .error (.importSyntax "wrong") := by decide +kernel
  obtain ⟨hkeeps, -, -, hsame, -, -, herror⟩ := failures_leave_no_trace {} interrupted {}
  rw [hkept, hafter] at hsame
  obtain ⟨-, -, -, -, hexists, hbody, -⟩ := failures_leave_no_trace {} [interrupted[0], interrupted[2]] {}
  obtain ⟨⟨body, after⟩, hok⟩ := hexists.mpr (by decide +kernel)
  obtain ⟨parts, -, hparts, hlast⟩ := hbody body after hok
  rw [hparts, hlast, hsame] at hok
  exact ⟨hkept, hafter, hsame, ⟨_, hfails, hkeeps _ _ _ _ hfails⟩, herror _ hwrong, parts, hok⟩

end Run

end Chunk

end Notebook
