import Notebook.Proofs.ChunkPrinting

/-! Fences inside blocks.

The lists in parentheses of a block, which give its inputs and the arguments of its renderer, go on to
their ends whatever stands in them. All else between the fences of a block is free of fences. -/
namespace Notebook

namespace Fence

def inputLists (fence : Fence) : List (List Char) :=
  fence.headerInputs.toList ++ fence.inputs.toList

def lists (fence : Fence) : List (List Char) :=
  fence.inputLists ++ (fence.renderer.bind (·.2)).toList

private theorem eq_of_mem_ticks {c : Char} (h : c ∈ ticks) : c = '\x60' := by
  simpa [ticks] using h

private theorem free_group {list : Option (List Char)} (h : ∀ inner ∈ list, ¬ ticks <:+: inner) :
    Text.Free ticks (group list) := by
  cases list with
  | none => exact Text.free_of_not_mem List.not_mem_nil
  | some inner =>
    have hopen : Text.Free ticks ['('] := Text.free_of_not_mem (by decide)
    exact hopen.append (Text.free_concat (h inner rfl) (by decide))

private theorem infix_group {list : Option (List Char)} {inner : List Char} (h : inner ∈ list) :
    inner <:+: group list := by
  cases h
  exact ⟨['('], [')'], rfl⟩

private theorem free_rendererGroup {blanks : List Char} {renderer : Option (List Char × Option (List Char))}
    (hblanks : ∀ c ∈ blanks, c = ' ' ∨ c = '\t') (hname : ∀ r ∈ renderer, ∀ c ∈ r.1, isRendererChar c)
    (hargs : ∀ inner ∈ renderer.bind (·.2), ¬ ticks <:+: inner) :
    Text.Free ticks (rendererGroup blanks renderer) := by
  cases renderer with
  | none => exact Text.free_of_not_mem List.not_mem_nil
  | some r =>
    obtain ⟨name, args⟩ := r
    have hopen : Text.Free ticks (blanks ++ '[' :: name) := by
      apply Text.free_of_not_mem
      intro hm
      rcases List.mem_append.mp hm with hm | hm
      · exact absurd (hblanks _ hm) (by decide)
      · rcases List.mem_cons.mp hm with hm | hm
        · exact absurd hm (by decide)
        · exact absurd (hname _ rfl _ hm) (by decide)
    have hclose : Text.Free ticks [']'] := Text.free_of_not_mem (by decide)
    exact (hopen.append (free_group hargs)).append hclose

private theorem infix_rendererGroup {blanks inner : List Char}
    {renderer : Option (List Char × Option (List Char))} (h : inner ∈ renderer.bind (·.2)) :
    inner <:+: rendererGroup blanks renderer := by
  obtain ⟨⟨name, args⟩, rfl, hargs⟩ := Option.bind_eq_some_iff.mp h
  exact (infix_group hargs).trans (List.infix_append (blanks ++ '[' :: name) (group args) [']'])

def opening (blanks : List Char) (fence : Fence) : List Char :=
  '{' :: fence.header ++ group fence.headerInputs ++ ['}'] ++ group fence.inputs ++
    rendererGroup blanks fence.renderer

private theorem infix_opening {blanks list : List Char} {fence : Fence} (h : list ∈ fence.lists) :
    list <:+: fence.opening blanks := by
  simp only [lists, inputLists, List.mem_append, Option.mem_toList] at h
  rcases h with (h | h) | h
  · refine (infix_group h).trans ⟨'{' :: fence.header,
      ['}'] ++ group fence.inputs ++ rendererGroup blanks fence.renderer, ?_⟩
    simp [opening]
  · exact (infix_group h).trans (List.infix_append _ _ _)
  · exact (infix_rendererGroup h).trans (List.suffix_append _ _).isInfix

private theorem free_opening {blanks : List Char} {fence : Fence} (hheader : ∀ c ∈ fence.header, isHeaderChar c)
    (hblanks : ∀ c ∈ blanks, c = ' ' ∨ c = '\t')
    (hname : ∀ r ∈ fence.renderer, ∀ c ∈ r.1, isRendererChar c)
    (hlists : ∀ list ∈ fence.lists, ¬ ticks <:+: list) : Text.Free ticks (fence.opening blanks) := by
  simp only [lists, inputLists, List.mem_append, Option.mem_toList] at hlists
  have hopen : Text.Free ticks ('{' :: fence.header) := by
    apply Text.free_of_not_mem
    intro hm
    rcases List.mem_cons.mp hm with hm | hm
    · exact absurd hm (by decide)
    · exact absurd (hheader _ hm) (by decide)
  have hbrace : Text.Free ticks ['}'] := Text.free_of_not_mem (by decide)
  have hinputs := free_group fun inner hi => hlists inner (.inl (.inl hi))
  have hmore := free_group fun inner hi => hlists inner (.inl (.inr hi))
  have hrenderer := free_rendererGroup hblanks hname fun inner hi => hlists inner (.inr hi)
  exact (((hopen.append hinputs).append hbrace).append hmore).append hrenderer

end Fence

namespace Cut

/-- Between the fences of a block there is another fence just if one of its lists holds one. -/
theorem exists_inner (c : Cut) : ∃ inner, c.block = Fence.ticks ++ inner ++ Fence.ticks ∧
    (Text.Clear (Fence.ticks <+: ·) inner Fence.ticks ↔
      ∀ list ∈ c.fence.lists, ¬ Fence.ticks <:+: list) := by
  obtain ⟨tail, after, hblock, _, hchars, hend, hclose⟩ := Fence.read?_eq_some_iff.mp c.reads
  obtain ⟨htail, _⟩ := Fence.headerEnd?_eq_some_iff.mp hend
  obtain ⟨_, ⟨_, _, hname, _, blanks, hblanks, rfl⟩, hafter, hbody, _⟩ :=
    Fence.close?_eq_some_iff.mp hclose
  rw [List.append_nil] at hbody
  refine ⟨c.fence.opening blanks ++ c.fence.body, ?_, ?_, ?_⟩
  · rw [hblock, htail, hafter, Fence.opening]
    simp
  · intro hclear list hlist hticks
    exact hclear.not_infix (by decide)
      (hticks.trans ((Fence.infix_opening hlist).trans (List.prefix_append _ _).isInfix))
  · intro hlists
    exact (Fence.free_opening hchars hblanks hname hlists _).append hbody

end Cut

namespace RenderArgs

private theorem mem_setFirst {key : String} {value : Option String} {entries : List (String × Option String)}
    {e : String × Option String} (h : e ∈ setFirst key value entries) : e ∈ entries ∨ e = (key, value) := by
  induction entries with
  | nil => exact .inr (List.mem_singleton.mp h)
  | cons first entries ih =>
    rw [setFirst] at h
    split at h
    · rename_i hkey
      rcases List.mem_cons.mp h with rfl | h
      · exact .inr (by rw [hkey])
      · exact .inl (List.mem_cons_of_mem _ h)
    · rcases List.mem_cons.mp h with rfl | h
      · exact .inl List.mem_cons_self
      · exact (ih h).imp_left (List.mem_cons_of_mem _)

/-- The entries of an argument list are written in its pieces. -/
theorem exists_piece {list : List Char} {e : String × Option String} (h : e ∈ (parse list).entries) :
    ∃ piece ∈ Text.split (· == ',') list, setting? piece = some e := by
  suffices hfold : ∀ (written : List (String × Option String)) (args : RenderArgs),
      e ∈ (written.foldl (fun args e => args.insert e.1 e.2) args).entries →
        e ∈ args.entries ∨ e ∈ written by
    rcases hfold _ {} h with h | h
    · cases h
    · exact List.mem_filterMap.mp h
  intro written
  induction written with
  | nil => exact fun args h => .inl h
  | cons first written ih =>
    intro args h
    rcases ih _ h with h | h
    · rcases mem_setFirst h with h | h
      · exact .inl h
      · exact .inr (h ▸ List.mem_cons_self)
    · exact .inr (List.mem_cons_of_mem first h)

/-- Keys and values stand in the list as they are. -/
theorem infix_of_mem_parse {list : List Char} {e : String × Option String}
    (h : e ∈ (parse list).entries) : e.1.toList <:+: list ∧ ∀ value ∈ e.2, value.toList <:+: list := by
  obtain ⟨piece, hpiece, hentry⟩ := exists_piece h
  have htrim : Text.trim piece <:+: list := (Text.trim_infix piece).trans (Text.infix_of_mem_split hpiece)
  unfold setting? at hentry
  split at hentry
  · cases hentry
  · rename_i key parts hs
    have hpart {part : List Char} (hm : part ∈ key :: parts) : Text.trim part <:+: list :=
      (Text.trim_infix part).trans ((Text.infix_of_mem_split (hs ▸ hm)).trans htrim)
    obtain ⟨key', hkey, rfl⟩ := Option.map_eq_some_iff.mp hentry
    refine ⟨?_, ?_⟩
    · rw [(Text.nonBlank?_eq_some_iff.mp hkey).2]
      exact hpart List.mem_cons_self
    · intro value hvalue
      obtain ⟨part, hhead, rfl⟩ := Option.map_eq_some_iff.mp hvalue
      rw [String.toList_ofList]
      exact hpart (List.mem_cons_of_mem key (List.mem_of_mem_head? hhead))

end RenderArgs

/-- No part of the chunk that its header writes holds a fence. -/
structure Chunk.Fenceless (chunk : Chunk) : Prop where
  type : ¬ Fence.ticks <:+: chunk.type.toList
  name : ∀ name ∈ chunk.name, ¬ Fence.ticks <:+: name.toList
  inputs : ∀ input ∈ chunk.inputs, ¬ Fence.ticks <:+: input.toList
  renderer : ∀ renderer ∈ chunk.renderer, ¬ Fence.ticks <:+: renderer.toList
  args : ∀ e ∈ chunk.renderArgs.entries,
    ¬ Fence.ticks <:+: e.1.toList ∧ ∀ value ∈ e.2, ¬ Fence.ticks <:+: value.toList

namespace Fence

/-- The type and the name of a header are stretches of it. -/
theorem infix_typeAndName (header : List Char) : (typeAndName header).1.toList <:+: header ∧
    ∀ name ∈ (typeAndName header).2, name.toList <:+: header := by
  unfold typeAndName
  split
  · rename_i type name hcut
    have hheader := Text.eq_append_of_cutAt? hcut
    refine ⟨?_, ?_⟩
    · rw [String.toList_ofList, hheader, List.append_assoc]
      exact (Text.trim_infix type).trans (List.prefix_append type _).isInfix
    · intro name' hname
      rw [(Text.nonBlank?_eq_some_iff.mp hname).2, hheader]
      exact (Text.trim_infix name).trans (List.suffix_append _ name).isInfix
  · exact ⟨by simpa using Text.trim_infix header, nofun⟩

/-- The items of a list hold its fences, as these hold neither commas nor white space. -/
theorem infix_commaList_iff {list : List Char} :
    (∃ item ∈ Text.commaList list, ticks <:+: item.toList) ↔ ticks <:+: list := by
  have hcomma : ∀ c ∈ ticks, (c == ',') = false := fun c hc => eq_of_mem_ticks hc ▸ rfl
  have hblank : ∀ c ∈ ticks, Text.isBlank c = false := fun c hc => eq_of_mem_ticks hc ▸ rfl
  rw [Text.infix_iff_mem_split (by decide) hcomma]
  constructor
  · rintro ⟨item, hitem, hticks⟩
    obtain ⟨piece, hpiece, hsome⟩ := List.mem_filterMap.mp hitem
    rw [(Text.nonBlank?_eq_some_iff.mp hsome).2, Text.infix_trim_iff hblank] at hticks
    exact ⟨piece, hpiece, hticks⟩
  · rintro ⟨piece, hpiece, hticks⟩
    rw [← Text.infix_trim_iff hblank] at hticks
    have hne : Text.trim piece ≠ [] := by
      intro hnil
      rw [hnil] at hticks
      exact absurd (List.infix_nil.mp hticks) (by decide)
    refine ⟨String.ofList (Text.trim piece), List.mem_filterMap.mpr ⟨piece, hpiece, ?_⟩, ?_⟩
    · exact Text.nonBlank?_eq_some_iff.mpr ⟨hne, String.toList_ofList⟩
    · rwa [String.toList_ofList]

private theorem infix_inputs_iff (fence : Fence) (index : Nat) :
    (∃ input ∈ (fence.toChunk index).inputs, ticks <:+: input.toList) ↔
      ∃ list ∈ fence.inputLists, ticks <:+: list := by
  have hlist (list : Option (List Char)) :
      (∃ input ∈ list.elim [] Text.commaList, ticks <:+: input.toList) ↔
        ∃ inner ∈ list.toList, ticks <:+: inner := by
    cases list with
    | none => simp
    | some inner => simpa using infix_commaList_iff
  simp only [toChunk, inputLists, List.mem_append, or_and_right, exists_or, hlist]

/-- What a header writes outside its lists is free of fences; the arguments that are kept are what
matters of the last list. -/
theorem fenceless_iff {fence : Fence} {block : List Char} (h : Matches fence block) (index : Nat) :
    (fence.toChunk index).Fenceless ↔ (∀ list ∈ fence.inputLists, ¬ ticks <:+: list) ∧
      ∀ e ∈ (fence.toChunk index).renderArgs.entries,
        ¬ ticks <:+: e.1.toList ∧ ∀ value ∈ e.2, ¬ ticks <:+: value.toList := by
  have hinputs : (∀ input ∈ (fence.toChunk index).inputs, ¬ ticks <:+: input.toList) ↔
      ∀ list ∈ fence.inputLists, ¬ ticks <:+: list := by
    simpa using not_congr (fence.infix_inputs_iff index)
  have hheader {cs : List Char} (hcs : cs <:+: fence.header) : ¬ ticks <:+: cs := by
    intro hticks
    have htick := h.header_chars '\x60' ((hticks.trans hcs).subset (by decide))
    exact absurd htick (by decide)
  constructor
  · intro hfree
    exact ⟨hinputs.mp hfree.inputs, hfree.args⟩
  · rintro ⟨hlists, hargs⟩
    obtain ⟨htype, hname⟩ := infix_typeAndName fence.header
    refine ⟨hheader htype, fun name hn => hheader (hname name hn), hinputs.mpr hlists, ?_, hargs⟩
    intro renderer hrenderer hticks
    obtain ⟨r, hr, rfl⟩ := Option.map_eq_some_iff.mp hrenderer
    obtain ⟨suffix, hsuffix, _⟩ := h.block_eq
    rw [String.toList_ofList] at hticks
    have htick := hsuffix.renderer_chars r hr '\x60' (hticks.subset (by decide))
    exact absurd htick (by decide)

/-- If no list of a block holds a fence, no part of its chunk does. -/
theorem fenceless_of_lists {fence : Fence} {block : List Char} (h : Matches fence block) (index : Nat)
    (hlists : ∀ list ∈ fence.lists, ¬ ticks <:+: list) : (fence.toChunk index).Fenceless := by
  refine (fenceless_iff h index).mpr ⟨fun list hl => hlists list (List.mem_append_left _ hl), ?_⟩
  intro e he
  cases hargs : fence.renderer.bind (·.2) with
  | none =>
    rw [toChunk, hargs] at he
    cases he
  | some args =>
    rw [toChunk, hargs] at he
    have hfree : ¬ ticks <:+: args := hlists args (by simp [lists, hargs])
    obtain ⟨hkey, hvalue⟩ := RenderArgs.infix_of_mem_parse he
    exact ⟨fun ht => hfree (ht.trans hkey), fun value hv ht => hfree (ht.trans (hvalue value hv))⟩

end Fence

/-- Between the fences of a block there is another one just if a list in parentheses holds it, in the
header, after it or in the renderer; otherwise no part of the chunk holds a fence. The type, the name and
the renderer never do, and the inputs do just if their lists do. -/
theorem Chunk.discover_fences (cs : List Char) : ∃ (cuts : List Cut) (last : List Char),
    Cut.text cuts last = cs ∧
    discover cs = (Cut.chunks cuts last).mapIdx (fun index chunk => chunk index) ∧
    ∀ c ∈ cuts, (∃ inner, c.block = Fence.ticks ++ inner ++ Fence.ticks ∧
      (Text.Clear (Fence.ticks <+: ·) inner Fence.ticks ↔
        ∀ list ∈ c.fence.lists, ¬ Fence.ticks <:+: list)) ∧
      ∀ index, ((∀ list ∈ c.fence.lists, ¬ Fence.ticks <:+: list) → (c.fence.toChunk index).Fenceless) ∧
        ((c.fence.toChunk index).Fenceless ↔ (∀ list ∈ c.fence.inputLists, ¬ Fence.ticks <:+: list) ∧
          ∀ e ∈ (c.fence.toChunk index).renderArgs.entries,
            ¬ Fence.ticks <:+: e.1.toList ∧ ∀ value ∈ e.2, ¬ Fence.ticks <:+: value.toList) := by
  obtain ⟨cuts, last, htext, _, hsegments⟩ := Cut.exists_segments cs
  refine ⟨cuts, last, htext, ?_, ?_⟩
  · rw [discover, hsegments, Cut.filterMap_segments]
  · intro c _
    exact ⟨c.exists_inner, fun index => ⟨Fence.fenceless_of_lists c.matches_block index,
      Fence.fenceless_iff c.matches_block index⟩⟩

/-- A text that is one block is one chunk. -/
theorem Chunk.discover_of_read? {cs : List Char} {fence : Fence} (h : Fence.read? cs = some (fence, [])) :
    discover cs = [fence.toChunk 0] := by
  have hsegments : Segment.ofText cs = Cut.segments [⟨[], cs, fence, h⟩] [] := by
    have hnone : Text.Free Fence.ticks [] := Text.free_of_not_mem List.not_mem_nil
    have hone := Segment.ofText_of_read? hnone h
    rwa [Segment.ofText_of_free hnone] at hone
  rw [discover, hsegments, Cut.filterMap_segments]
  rfl

/-- Inputs that are not closed in a header go on to the end of the next header: the two blocks make one
chunk, and the second of them alone makes another. -/
theorem Chunk.discover_runs_past_fence :
    discover "```\x7bjs#a(x\x7d\n1\n```\n\n```\x7bjs#b(y)\x7d\n2\n```".toList =
      [{ index := 0, type := "js", name := some "a", inputs := ["x\x7d\n1\n```\n\n```\x7bjs#b(y"]
         content := "2" }] ∧
    discover "```\x7bjs#b(y)\x7d\n2\n```".toList =
      [{ index := 0, type := "js", name := some "b", inputs := ["y"], content := "2" }] ∧
    ∃ chunk ∈ discover "```\x7bjs#a(x\x7d\n1\n```\n\n```\x7bjs#b(y)\x7d\n2\n```".toList,
      ¬ chunk.Fenceless := by
  have hfirst : Fence.read? "```\x7bjs#a(x\x7d\n1\n```\n\n```\x7bjs#b(y)\x7d\n2\n```".toList =
      some (⟨"js#a".toList, some "x\x7d\n1\n```\n\n```\x7bjs#b(y".toList, none, none, "\n2\n".toList⟩, []) := by
    decide +kernel
  have hsecond : Fence.read? "```\x7bjs#b(y)\x7d\n2\n```".toList =
      some (⟨"js#b".toList, some "y".toList, none, none, "\n2\n".toList⟩, []) := by
    decide +kernel
  rw [discover_of_read? hfirst, discover_of_read? hsecond]
  refine ⟨by decide +kernel, by decide +kernel, _, List.mem_singleton_self _, ?_⟩
  intro hfree
  exact hfree.inputs "x\x7d\n1\n```\n\n```\x7bjs#b(y" (by decide +kernel) (by decide +kernel)

end Notebook
