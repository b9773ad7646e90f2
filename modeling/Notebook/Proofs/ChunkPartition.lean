import Notebook.Chunk.Segment
import Notebook.Proofs.BlockPattern

/-! The chunks of a text account for all of it.

A text is cut at its blocks, each at the first place where one starts. What stands between them is
prose, and all of it that is not blank is some chunk's content. -/
namespace Notebook

/-- A block of a text, and the prose between it and the block before. -/
structure Cut where
  gap : List Char
  block : List Char
  fence : Fence
  reads : Fence.read? block = some (fence, [])

namespace Cut

theorem matches_block (c : Cut) : Fence.Matches c.fence c.block := by
  obtain ⟨block, hmatches, hblock⟩ := Fence.matches_of_read? c.reads
  rw [List.append_nil] at hblock
  exact hblock ▸ hmatches

private theorem opens_with_ticks (c : Cut) : Fence.ticks ++ ['{'] <+: c.block := by
  obtain ⟨_, _, suffix, _, hblock⟩ := c.matches_block
  rw [hblock]
  exact ⟨_, by simp only [List.append_assoc, List.cons_append, List.nil_append]; rfl⟩

private theorem ends_with_ticks (c : Cut) : Fence.ticks <:+ c.block := by
  obtain ⟨_, _, suffix, _, hblock⟩ := c.matches_block
  rw [hblock]
  exact List.suffix_append _ Fence.ticks

private theorem trim_content (c : Cut) (index : Nat) :
    Text.trim (c.fence.toChunk index).content.toList = (c.fence.toChunk index).content.toList := by
  rw [Fence.toChunk, String.toList_ofList, Text.trim_trim]

private theorem not_infix_content (c : Cut) (index : Nat) :
    ¬ Fence.ticks <:+: (c.fence.toChunk index).content.toList := by
  rw [Fence.toChunk, String.toList_ofList]
  exact fun h => Fence.not_infix_body_of_read? c.reads (h.trans (Text.trim_infix _))

/-- The text that is cut: prose and blocks in turn, and what follows the last block. -/
def text (cuts : List Cut) (last : List Char) : List Char :=
  cuts.flatMap (fun c => c.gap ++ c.block) ++ last

/-- No match of the pattern of blocks starts in the prose. -/
def Leftmost : List Cut → List Char → Prop
  | [], last => Text.Clear Fence.StartsBlock last []
  | c :: cuts, last =>
    Text.Clear Fence.StartsBlock c.gap (c.block ++ text cuts last) ∧ Leftmost cuts last

def gapChunk (gap : List Char) : List (Nat → Chunk) :=
  if gap.all Text.isBlank then [] else [fun index => .markdown index (String.ofList (Text.trim gap))]

/-- One chunk for each stretch of prose that is not blank and one for each block, in order. -/
def chunks (cuts : List Cut) (last : List Char) : List (Nat → Chunk) :=
  cuts.flatMap (fun c => gapChunk c.gap ++ [c.fence.toChunk]) ++ gapChunk last

def segments (cuts : List Cut) (last : List Char) : List Segment :=
  cuts.flatMap (fun c => [.prose c.gap, .fenced c.fence]) ++ [.prose last]

theorem gapChunk_of_blank {gap : List Char} (h : ∀ c ∈ gap, Text.isBlank c) : gapChunk gap = [] := by
  rw [gapChunk, if_pos (List.all_eq_true.mpr h)]

theorem gapChunk_of_trim {gap : List Char} (h : Text.trim gap ≠ []) :
    gapChunk gap = [fun index => .markdown index (String.ofList (Text.trim gap))] := by
  rw [gapChunk, if_neg fun hall => h (Text.trim_eq_nil_iff.mpr (List.all_eq_true.mp hall))]

theorem filterMap_prose (gap : List Char) :
    [Segment.prose gap].filterMap Segment.toChunk? = gapChunk gap := by
  by_cases htrim : Text.trim gap = []
  · have hnone : Segment.toChunk? (.prose gap) = none := by
      rw [Segment.toChunk?, Text.nonBlank?, htrim]
      rfl
    rw [List.filterMap_cons_none hnone, gapChunk_of_blank (Text.trim_eq_nil_iff.mp htrim)]
    rfl
  · have hsome : Segment.toChunk? (.prose gap) =
        some fun index => .markdown index (String.ofList (Text.trim gap)) := by
      rw [Segment.toChunk?, Text.nonBlank?, if_neg (by rwa [List.isEmpty_iff])]
      rfl
    rw [List.filterMap_cons_some hsome, gapChunk_of_trim htrim]
    rfl

theorem filterMap_prose_fenced (gap : List Char) (fence : Fence) (rest : List Segment) :
    (.prose gap :: .fenced fence :: rest).filterMap Segment.toChunk? =
      gapChunk gap ++ fence.toChunk :: rest.filterMap Segment.toChunk? := by
  have hfenced : Segment.toChunk? (.fenced fence) = some fence.toChunk := rfl
  rw [← filterMap_prose, ← List.filterMap_cons_some hfenced, ← List.filterMap_append]
  rfl

theorem filterMap_segments (cuts : List Cut) (last : List Char) :
    (segments cuts last).filterMap Segment.toChunk? = chunks cuts last := by
  induction cuts with
  | nil => exact filterMap_prose last
  | cons c cuts ih =>
    have hsegments : segments (c :: cuts) last =
        .prose c.gap :: .fenced c.fence :: segments cuts last := rfl
    rw [hsegments, filterMap_prose_fenced, ih]
    simp [chunks]

/-- The segments of a text cut it at the first place where a block starts, and again after that. -/
theorem exists_segments (cs : List Char) : ∃ cuts last, text cuts last = cs ∧ Leftmost cuts last ∧
    Segment.ofText cs = segments cuts last := by
  fun_induction Segment.ofText cs with
  | case1 cs hfirst => exact ⟨[], cs, rfl, Fence.first?_eq_none_iff.mp hfirst, rfl⟩
  | case2 cs before fence rest hfirst ih =>
    obtain ⟨cuts, last, rfl, hleftmost, hsegments⟩ := ih
    obtain ⟨tail, hcs, hread, hclear⟩ := Fence.first?_eq_some_iff.mp hfirst
    obtain ⟨block, _, htail⟩ := Fence.matches_of_read? hread
    rw [htail] at hread hclear
    refine ⟨⟨before, block, fence, Fence.read?_of_read?_append hread⟩ :: cuts, last, ?_, ?_, ?_⟩
    · rw [hcs, htail]
      simp [text]
    · exact ⟨hclear, hleftmost⟩
    · rw [hsegments]
      rfl

end Cut

private theorem Segment.index_of_toChunk? {segment : Segment} {chunk : Nat → Chunk}
    (h : segment.toChunk? = some chunk) (index : Nat) : (chunk index).index = index := by
  cases segment with
  | prose text =>
    obtain ⟨content, _, rfl⟩ := Option.map_eq_some_iff.mp h
    rfl
  | fenced fence =>
    cases h
    rfl

private theorem Chunk.index_of_discover {cs : List Char} {index : Nat} {chunk : Chunk}
    (h : (discover cs)[index]? = some chunk) : chunk.index = index := by
  rw [discover, List.getElem?_mapIdx] at h
  obtain ⟨unnumbered, hget, rfl⟩ := Option.map_eq_some_iff.mp h
  obtain ⟨segment, _, hsegment⟩ := List.mem_filterMap.mp (List.mem_of_getElem? hget)
  exact Segment.index_of_toChunk? hsegment index

/-- Discovering the chunks of a text cuts it into prose and blocks, and loses nothing of it. -/
theorem Chunk.discover_partition (cs : List Char) : ∃ (cuts : List Cut) (last : List Char),
    Cut.text cuts last = cs ∧
    discover cs = (Cut.chunks cuts last).mapIdx (fun index chunk => chunk index) ∧
    Cut.Leftmost cuts last ∧
    (∀ c ∈ cuts, Fence.Matches c.fence c.block ∧ Fence.ticks ++ ['{'] <+: c.block ∧
      Fence.ticks <:+ c.block ∧ ∀ index,
        Text.trim (c.fence.toChunk index).content.toList = (c.fence.toChunk index).content.toList ∧
        ¬ Fence.ticks <:+: (c.fence.toChunk index).content.toList) ∧
    ∀ (index : Nat) (chunk : Chunk), (discover cs)[index]? = some chunk → chunk.index = index := by
  obtain ⟨cuts, last, htext, hleftmost, hsegments⟩ := Cut.exists_segments cs
  refine ⟨cuts, last, htext, ?_, hleftmost, ?_, fun _ _ => index_of_discover⟩
  · rw [discover, hsegments, Cut.filterMap_segments]
  · exact fun c _ => ⟨c.matches_block, c.opens_with_ticks, c.ends_with_ticks,
      fun index => ⟨c.trim_content index, c.not_infix_content index⟩⟩

end Notebook
