import Notebook.Proofs.ImportFragments

/-! What is wrong with a document by itself: its frontmatter, or a chunk of it. This depends neither on
where the document is nor on the modules that are registered when it is found. -/
namespace Notebook

def Chunk.fault? (chunk : Chunk) : Option Error :=
  match ChunkKind.ofType chunk.type with
  | .error e => some e
  | .ok .imports =>
    match ImportLine.parseAll chunk.content with
    | .error e => some e
    | .ok _ => none
  | .ok _ => none

/-- The error of a document: that of its frontmatter, or else that of the first chunk with one. -/
def Document.fault? (document : Document) : Option Error :=
  match Content.ofText document.text with
  | .error e => some e
  | .ok content => content.chunks.findSome? Chunk.fault?

def Error.isTextual : Error → Bool
  | unknownChunkType _ | importSyntax _ | frontmatter _ | frontmatterKind _ => true
  | resolution _ _ | fetch _ _ | config _ => false

namespace Chunk
variable {site : Site} {chunk : Chunk} {r : Registry}

theorem generate_of_fault {e : Error} (h : chunk.fault? = some e) : chunk.generate site r = .error e := by
  unfold fault? at h
  unfold generate
  cases hk : ChunkKind.ofType chunk.type with
  | error e' =>
    rw [hk] at h
    cases h
    rfl
  | ok kind =>
    rw [hk] at h
    cases kind with
    | imports =>
      cases hl : ImportLine.parseAll chunk.content with
      | error e' =>
        rw [hl] at h
        cases h
        simp [importFragments, hl, bind, Except.bind]
      | ok lines => simp [hl] at h
    | markdown | html | script => cases h

theorem exists_generate (site : Site) (r : Registry) (h : chunk.fault? = none) :
    ∃ out, chunk.generate site r = .ok out := by
  unfold fault? at h
  unfold generate
  cases hk : ChunkKind.ofType chunk.type with
  | error e => simp [hk] at h
  | ok kind =>
    rw [hk] at h
    cases kind with
    | imports =>
      cases hl : ImportLine.parseAll chunk.content with
      | error e => simp [hl] at h
      | ok lines =>
        refine ⟨ImportLine.allFragments site (CellName.parse chunk.name).hidden lines r, ?_⟩
        simp [importFragments, hl, bind, Except.bind, pure, Except.pure]
    | markdown | html | script => exact ⟨_, rfl⟩

/-- The first chunk with an error ends the work on a document. -/
theorem generateAll_of_fault {chunks : List Chunk} {e : Error}
    (h : chunks.findSome? fault? = some e) : generateAll site chunks r = .error e := by
  induction chunks generalizing r with
  | nil => cases h
  | cons chunk chunks ih =>
    rw [List.findSome?_cons] at h
    cases hc : chunk.fault? with
    | some e' =>
      rw [hc] at h
      cases h
      simp [generateAll, generate_of_fault hc, bind, Except.bind]
    | none =>
      rw [hc] at h
      obtain ⟨⟨first, mid⟩, hg⟩ := exists_generate site r hc
      simp [generateAll, hg, ih h, bind, Except.bind]

theorem exists_generateAll (site : Site) (r : Registry) {chunks : List Chunk}
    (h : chunks.findSome? fault? = none) : ∃ out, generateAll site chunks r = .ok out := by
  induction chunks generalizing r with
  | nil => exact ⟨_, rfl⟩
  | cons chunk chunks ih =>
    rw [List.findSome?_eq_none_iff] at h
    obtain ⟨⟨first, mid⟩, hg⟩ := exists_generate site r (h chunk List.mem_cons_self)
    obtain ⟨⟨rest, last⟩, hr⟩ := ih mid
      (List.findSome?_eq_none_iff.mpr fun c hc => h c (List.mem_cons_of_mem chunk hc))
    exact ⟨(first ++ rest, last), by simp [generateAll, hg, hr, bind, Except.bind, pure, Except.pure]⟩

end Chunk

private theorem ChunkKind.isTextual_of_ofType {type : String} {e : Error} (h : ofType type = .error e) :
    e.isTextual := by
  unfold ofType at h
  split at h
  · cases h
  split at h
  · cases h
  split at h
  · cases h
  split at h
  · cases h
  · cases h
    rfl

private theorem ImportLine.isTextual_of_parseAll {text : String} {e : Error} (h : parseAll text = .error e) :
    e.isTextual := by
  unfold parseAll at h
  generalize Text.lines text.toList = lines at h
  induction lines with
  | nil => cases h
  | cons line lines ih =>
    rw [List.mapM_cons] at h
    cases hp : parse line with
    | error e' =>
      have he : e' = e := by simpa [hp, bind, Except.bind] using h
      unfold parse at hp
      split at hp
      · cases hp
      · rw [← he]
        cases hp
        rfl
    | ok parsed =>
      apply ih
      cases hl : lines.mapM parse with
      | error e' => simpa [hp, hl, bind, Except.bind] using h
      | ok rest => simp [hp, hl, bind, Except.bind, pure, Except.pure] at h

private theorem Frontmatter.isTextual_of_read {body : Option (List Char)} {e : Error}
    (h : read body = .error e) : e.isTextual := by
  unfold read at h
  split at h
  · cases h
  split at h
  · cases h
    rfl
  · cases h
  · cases h
  · cases h
    rfl

/-- What is wrong with a document is wrong with its text. -/
theorem Document.isTextual_of_fault {document : Document} {e : Error} (h : document.fault? = some e) :
    e.isTextual := by
  unfold fault? at h
  split at h
  · rename_i e' hc
    cases h
    cases hr : Frontmatter.read (Frontmatter.split (Content.normal document.text.toList)).1 with
    | error e' =>
      have he : e' = e := by simpa [Content.ofText, hr, bind, Except.bind] using hc
      exact he ▸ Frontmatter.isTextual_of_read hr
    | ok frontmatter => simp [Content.ofText, hr, bind, Except.bind, pure, Except.pure] at hc
  · obtain ⟨chunk, _, hf⟩ := List.exists_of_findSome?_eq_some h
    unfold Chunk.fault? at hf
    split at hf
    · rename_i hk
      cases hf
      exact ChunkKind.isTextual_of_ofType hk
    · split at hf
      · rename_i hl
        cases hf
        exact ImportLine.isTextual_of_parseAll hl
      · cases hf
    · cases hf

end Notebook
