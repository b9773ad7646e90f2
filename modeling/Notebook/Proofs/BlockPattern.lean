import Notebook.Chunk.Fence
import Notebook.Proofs.Text

/-! The pattern of fenced blocks, and that reading a block finds a match of it whenever there is one.

Reading prefers some matches to others: inputs in the header end as early as they can, and inputs and
a renderer after the header are read where they are there. -/
namespace Notebook.Fence

def group : Option (List Char) → List Char
  | none => []
  | some inner => '(' :: inner ++ [')']

def rendererGroup (blanks : List Char) : Option (List Char × Option (List Char)) → List Char
  | none => []
  | some (name, args) => blanks ++ '[' :: name ++ group args ++ [']']

structure Suffix (inputs : Option (List Char)) (renderer : Option (List Char × Option (List Char)))
    (text : List Char) : Prop where
  inputs_inner : ∀ inner ∈ inputs, ∀ c ∈ inner, isInner c
  renderer_ne : ∀ r ∈ renderer, r.1 ≠ []
  renderer_chars : ∀ r ∈ renderer, ∀ c ∈ r.1, isRendererChar c
  args_inner : ∀ r ∈ renderer, ∀ inner ∈ r.2, ∀ c ∈ inner, isInner c
  text_eq : ∃ blanks, (∀ c ∈ blanks, c = ' ' ∨ c = '\t') ∧
    text = group inputs ++ rendererGroup blanks renderer

/-- The pattern of blocks: `block` is a fenced block with the given parts. -/
structure Matches (fence : Fence) (block : List Char) : Prop where
  header_ne : fence.header ≠ []
  header_chars : ∀ c ∈ fence.header, isHeaderChar c
  block_eq : ∃ suffix, Suffix fence.inputs fence.renderer suffix ∧
    block = ticks ++ '{' :: fence.header ++ group fence.headerInputs ++ '}' :: suffix ++
      fence.body ++ ticks

/-- Some match of the pattern starts where the text does. -/
def StartsBlock (text : List Char) : Prop :=
  ∃ fence block rest, Matches fence block ∧ text = block ++ rest

private theorem parens?_eq_some_iff {cs inner rest : List Char} :
    parens? cs = some (inner, rest) ↔
      cs = group (some inner) ++ rest ∧ ∀ c ∈ inner, isInner c := by
  constructor
  · intro h
    unfold parens? at h
    split at h
    · rename_i cs
      split at h
      · rename_i r hr
        cases h
        have hsplit := List.takeWhile_append_dropWhile (p := isInner) (l := cs)
        rw [hr] at hsplit
        refine ⟨?_, fun c hc => List.mem_takeWhile_imp hc⟩
        simp [group, hsplit]
      · cases h
    · cases h
  · rintro ⟨rfl, hinner⟩
    have hstop : isInner ')' = false := by decide
    simp [group, parens?, Text.takeWhile_append_cons hinner hstop,
      Text.dropWhile_append_cons hinner hstop]

/-- Inputs in a header end at the first parenthesis that a closing brace follows. -/
theorem headerEnd?_eq_some_iff {cs rest : List Char} {inputs : Option (List Char)} :
    headerEnd? cs = some (inputs, rest) ↔ cs = group inputs ++ '}' :: rest ∧
      ∀ inner ∈ inputs, Text.Clear ([')', '}'] <+: ·) inner ([')', '}'] ++ rest) := by
  constructor
  · intro h
    unfold headerEnd? at h
    split at h
    · cases h
      exact ⟨rfl, by simp⟩
    · obtain ⟨⟨i, r⟩, hr, he⟩ := Option.map_eq_some_iff.mp h
      cases he
      obtain ⟨hcs, hclear⟩ := Text.cutAt?_eq_some_iff.mp hr
      exact ⟨by simp [group, hcs], by simpa using hclear⟩
    · cases h
  · rintro ⟨rfl, hclear⟩
    cases inputs with
    | none => rfl
    | some inner =>
      have hcut := Text.cutAt?_eq_some_iff.mpr ⟨rfl, hclear inner rfl⟩
      have htext : group (some inner) ++ '}' :: rest = '(' :: (inner ++ [')', '}'] ++ rest) := by
        simp [group]
      rw [htext, headerEnd?, hcut]
      rfl

private theorem rendererEnd?_eq_some_iff {cs rest : List Char} {args : Option (List Char)} :
    rendererEnd? cs = some (args, rest) ↔
      cs = group args ++ ']' :: rest ∧ ∀ inner ∈ args, ∀ c ∈ inner, isInner c := by
  constructor
  · intro h
    unfold rendererEnd? at h
    split at h
    · cases h
      exact ⟨rfl, by simp⟩
    · split at h
      · rename_i hp
        cases h
        obtain ⟨hcs, hinner⟩ := parens?_eq_some_iff.mp hp
        exact ⟨hcs, by simpa using hinner⟩
      · cases h
  · rintro ⟨rfl, hinner⟩
    cases args with
    | none => rfl
    | some inner =>
      have hp : parens? (group (some inner) ++ ']' :: rest) = some (inner, ']' :: rest) :=
        parens?_eq_some_iff.mpr ⟨rfl, hinner inner rfl⟩
      unfold rendererEnd?
      split
      · rename_i heq
        simp [group] at heq
      · rw [hp]
        rfl

private theorem renderer?_eq_some_iff {cs rest name : List Char} {args : Option (List Char)} :
    renderer? cs = some ((name, args), rest) ↔ name ≠ [] ∧ (∀ c ∈ name, isRendererChar c) ∧
      (∀ inner ∈ args, ∀ c ∈ inner, isInner c) ∧
      ∃ blanks, (∀ c ∈ blanks, c = ' ' ∨ c = '\t') ∧
        cs = rendererGroup blanks (some (name, args)) ++ rest := by
  constructor
  · intro h
    unfold renderer? at h
    split at h
    · rename_i r hr
      dsimp only at h
      split at h
      · cases h
      · rename_i hname
        obtain ⟨⟨a, t⟩, ha, he⟩ := Option.map_eq_some_iff.mp h
        cases he
        obtain ⟨hrest, hinner⟩ := rendererEnd?_eq_some_iff.mp ha
        refine ⟨by simpa using hname, fun c hc => List.mem_takeWhile_imp hc, hinner,
          cs.takeWhile fun c => c == ' ' || c == '\t', ?_, ?_⟩
        · intro c hc
          simpa using List.mem_takeWhile_imp hc
        · have hcs := List.takeWhile_append_dropWhile (p := fun c => c == ' ' || c == '\t') (l := cs)
          have hr' := List.takeWhile_append_dropWhile (p := isRendererChar) (l := r)
          rw [hrest] at hr'
          rw [hr, ← hr'] at hcs
          simpa [rendererGroup] using hcs.symm
    · cases h
  · rintro ⟨hname, hchars, hinner, blanks, hblanks, rfl⟩
    have hblank : ∀ c ∈ blanks, (c == ' ' || c == '\t') = true := by simpa using hblanks
    obtain ⟨d, ds, hd, hend⟩ : ∃ d ds, isRendererChar d = false ∧
        group args ++ ']' :: rest = d :: ds := by
      cases args with
      | none => exact ⟨']', rest, by decide, rfl⟩
      | some inner => exact ⟨'(', _, by decide, rfl⟩
    have htext : rendererGroup blanks (some (name, args)) ++ rest =
        blanks ++ '[' :: (name ++ d :: ds) := by
      simp [rendererGroup, ← hend]
    have hempty : name.isEmpty = false := by simpa using hname
    rw [htext, renderer?, Text.dropWhile_append_cons hblank (by decide)]
    simp only [Text.takeWhile_append_cons hchars hd, Text.dropWhile_append_cons hchars hd, hempty]
    rw [← hend, rendererEnd?_eq_some_iff.mpr ⟨rfl, hinner⟩]
    rfl

/-- The ways to read what follows a header are all the ways to split it. -/
theorem mem_suffixes_iff {cs rest : List Char} {inputs : Option (List Char)}
    {renderer : Option (List Char × Option (List Char))} :
    (inputs, renderer, rest) ∈ suffixes cs ↔
      ∃ text, Suffix inputs renderer text ∧ cs = text ++ rest := by
  simp only [suffixes, List.mem_flatMap, List.mem_append, List.mem_map, List.mem_singleton,
    Option.mem_toList]
  constructor
  · rintro ⟨⟨i, mid⟩, hi, hr⟩
    have hmid : (∀ inner ∈ i, ∀ c ∈ inner, isInner c) ∧ cs = group i ++ mid := by
      rcases hi with ⟨⟨i', r'⟩, hp, he⟩ | he
      · cases he
        obtain ⟨hcs, hinner⟩ := parens?_eq_some_iff.mp hp
        exact ⟨by simpa using hinner, hcs⟩
      · cases he
        exact ⟨by simp, rfl⟩
    rcases hr with ⟨⟨⟨name, args⟩, t⟩, hp, he⟩ | he
    · cases he
      obtain ⟨hname, hchars, hargs, blanks, hblanks, hrest⟩ := renderer?_eq_some_iff.mp hp
      refine ⟨group i ++ rendererGroup blanks (some (name, args)),
        ⟨hmid.1, by simpa using hname, by simpa using hchars, by simpa using hargs,
          blanks, hblanks, rfl⟩, ?_⟩
      rw [hmid.2, show mid = _ from hrest, List.append_assoc]
    · cases he
      refine ⟨group i, ⟨hmid.1, by simp, by simp, by simp, [], by simp, ?_⟩, hmid.2⟩
      simp [rendererGroup]
  · rintro ⟨text, ⟨hinputs, hne, hchars, hargs, blanks, hblanks, rfl⟩, rfl⟩
    refine ⟨(inputs, rendererGroup blanks renderer ++ rest), ?_, ?_⟩
    · cases inputs with
      | none => exact .inr rfl
      | some inner =>
        refine .inl ⟨(inner, _), parens?_eq_some_iff.mpr ⟨?_, hinputs inner rfl⟩, rfl⟩
        rw [List.append_assoc]
    · cases renderer with
      | none => exact .inr rfl
      | some r =>
        exact .inl ⟨(r, rest), renderer?_eq_some_iff.mpr
          ⟨hne r rfl, hchars r rfl, hargs r rfl, blanks, hblanks, rfl⟩, rfl⟩

def close? (cs : List Char) :
    Option (Option (List Char) × Option (List Char × Option (List Char)) × List Char × List Char) :=
  (suffixes cs).findSome? fun (inputs, renderer, rest) =>
    (Text.cutAt? ticks rest).map fun (body, rest) => (inputs, renderer, body, rest)

/-- Reading a block is reading a header, its end and the rest. -/
theorem read?_eq_some_iff {cs rest : List Char} {fence : Fence} :
    read? cs = some (fence, rest) ↔ ∃ tail after, cs = ticks ++ '{' :: fence.header ++ tail ∧
      fence.header ≠ [] ∧ (∀ c ∈ fence.header, isHeaderChar c) ∧
      headerEnd? tail = some (fence.headerInputs, after) ∧
      close? after = some (fence.inputs, fence.renderer, fence.body, rest) := by
  have hclose (header : List Char) (headerInputs : Option (List Char)) (after : List Char) :
      ((suffixes after).findSome? fun (inputs, renderer, rest) =>
        (Text.cutAt? ticks rest).map fun (body, rest) =>
          ((⟨header, headerInputs, inputs, renderer, body⟩ : Fence), rest)) =
      (close? after).map fun (inputs, renderer, body, rest) =>
        (⟨header, headerInputs, inputs, renderer, body⟩, rest) := by
    simp only [close?, List.map_findSome?, Function.comp_def, Option.map_map]
  simp only [read?, Option.bind_eq_bind, Option.bind_eq_some_iff, hclose]
  constructor
  · rintro ⟨r, hr, h⟩
    split at h
    · cases h
    · rename_i hheader
      obtain ⟨⟨headerInputs, after⟩, hend, h⟩ := Option.bind_eq_some_iff.mp h
      obtain ⟨⟨inputs, renderer, body, rest⟩, hafter, he⟩ := Option.map_eq_some_iff.mp h
      cases he
      refine ⟨r.dropWhile isHeaderChar, after, ?_, by simpa using hheader,
        fun c hc => List.mem_takeWhile_imp hc, hend, hafter⟩
      simp [Text.eq_append_of_after? hr]
  · rintro ⟨tail, after, rfl, hne, hchars, hend, hafter⟩
    -- the header ends where its character class does: a brace or a parenthesis follows
    obtain ⟨d, ds, hd, rfl⟩ : ∃ d ds, isHeaderChar d = false ∧ tail = d :: ds := by
      have htail := (headerEnd?_eq_some_iff.mp hend).1
      cases hinputs : fence.headerInputs with
      | none => exact ⟨'}', after, by decide, by simp [htail, hinputs, group]⟩
      | some inner => exact ⟨'(', _, by decide, by rw [htail, hinputs]; rfl⟩
    refine ⟨fence.header ++ d :: ds, ?_, ?_⟩
    · have htext : ticks ++ '{' :: fence.header ++ d :: ds =
          (ticks ++ ['{']) ++ (fence.header ++ d :: ds) := by simp
      rw [htext, Text.after?_append]
    · rw [Text.takeWhile_append_cons hchars hd, Text.dropWhile_append_cons hchars hd,
        if_neg (by simpa using hne), hend, Option.bind_some, hafter]
      rfl

/-- The place of a reading in the order of preference: inputs count for more than a renderer. -/
def rank (inputs : Option (List Char)) (renderer : Option (List Char × Option (List Char))) : Nat :=
  (if inputs.isSome then 0 else 2) + if renderer.isSome then 0 else 1

private theorem suffixes_pairwise (cs : List Char) :
    (suffixes cs).Pairwise fun s t => rank s.1 s.2.1 < rank t.1 t.2.1 := by
  unfold suffixes
  cases parens? cs with
  | none => cases hr : renderer? cs <;> simp [rank, hr]
  | some p =>
    obtain ⟨inner, mid⟩ := p
    cases hm : renderer? mid <;> cases hr : renderer? cs <;> simp [rank, hm, hr]

/-- In a list ordered by rank, the first success is the success of least rank. -/
theorem findSome?_eq_some_iff_of_rank {A B : Type} {rank : A → Nat} {f : A → Option B} {l : List A}
    (hl : l.Pairwise (rank · < rank ·)) {b : B} : l.findSome? f = some b ↔
      ∃ a ∈ l, f a = some b ∧ ∀ a' ∈ l, rank a' < rank a → f a' = none := by
  induction l with
  | nil => simp
  | cons x l ih =>
    obtain ⟨hx, hl⟩ := List.pairwise_cons.mp hl
    cases hfx : f x with
    | some c =>
      rw [List.findSome?_cons, hfx]
      constructor
      · rintro ⟨⟩
        refine ⟨x, List.mem_cons_self, hfx, fun a' ha' hrank => ?_⟩
        rcases List.mem_cons.mp ha' with rfl | ha'
        · exact absurd hrank (Nat.lt_irrefl _)
        · exact absurd hrank (Nat.lt_asymm (hx a' ha'))
      · rintro ⟨a, ha, hfa, hleast⟩
        rcases List.mem_cons.mp ha with rfl | ha
        · exact hfx.symm.trans hfa
        · rw [hleast x List.mem_cons_self (hx a ha)] at hfx
          cases hfx
    | none =>
      rw [List.findSome?_cons, hfx, ih hl]
      constructor
      · rintro ⟨a, ha, hfa, hleast⟩
        refine ⟨a, List.mem_cons_of_mem x ha, hfa, fun a' ha' hrank => ?_⟩
        rcases List.mem_cons.mp ha' with rfl | ha'
        · exact hfx
        · exact hleast a' ha' hrank
      · rintro ⟨a, ha, hfa, hleast⟩
        rcases List.mem_cons.mp ha with rfl | ha
        · rw [hfx] at hfa
          cases hfa
        · exact ⟨a, ha, hfa, fun a' ha' => hleast a' (List.mem_cons_of_mem x ha')⟩

/-- What closes a block after its header is the most preferred way to split the text after which a
fence follows, up to the first fence. -/
theorem close?_eq_some_iff {cs body rest : List Char} {inputs : Option (List Char)}
    {renderer : Option (List Char × Option (List Char))} :
    close? cs = some (inputs, renderer, body, rest) ↔ ∃ text, Suffix inputs renderer text ∧
      cs = text ++ body ++ ticks ++ rest ∧ Text.Clear (ticks <+: ·) body (ticks ++ rest) ∧
      ∀ inputs' renderer' text' rest', Suffix inputs' renderer' text' → cs = text' ++ rest' →
        rank inputs' renderer' < rank inputs renderer → ¬ ticks <:+: rest' := by
  rw [close?, findSome?_eq_some_iff_of_rank (suffixes_pairwise cs)]
  constructor
  · rintro ⟨⟨i, r, u⟩, hmem, hmap, hpreferred⟩
    obtain ⟨⟨body', rest'⟩, hcut, he⟩ := Option.map_eq_some_iff.mp hmap
    cases he
    obtain ⟨text, hsuffix, hcs⟩ := mem_suffixes_iff.mp hmem
    obtain ⟨hu, hclear⟩ := Text.cutAt?_eq_some_iff.mp hcut
    refine ⟨text, hsuffix, by simp [hcs, hu], hclear, ?_⟩
    intro inputs' renderer' text' rest' hsuffix' hcs' hrank
    have hnone := hpreferred _ (mem_suffixes_iff.mpr ⟨text', hsuffix', hcs'⟩) hrank
    exact Text.cutAt?_eq_none_iff.mp (Option.map_eq_none_iff.mp hnone)
  · rintro ⟨text, hsuffix, hcs, hclear, hprefer⟩
    refine ⟨(inputs, renderer, body ++ ticks ++ rest),
      mem_suffixes_iff.mpr ⟨text, hsuffix, by simp [hcs]⟩, ?_, ?_⟩
    · simp only [Text.cutAt?_eq_some_iff.mpr ⟨rfl, hclear⟩, Option.map_some]
    · rintro ⟨inputs', renderer', rest'⟩ hmem hrank
      obtain ⟨text', hsuffix', hcs'⟩ := mem_suffixes_iff.mp hmem
      exact Option.map_eq_none_iff.mpr
        (Text.cutAt?_eq_none_iff.mpr (hprefer _ _ _ _ hsuffix' hcs' hrank))

private theorem isSome_close? {cs : List Char} (h : ticks <:+: cs) : (close? cs).isSome := by
  have hmem : (none, none, cs) ∈ suffixes cs :=
    mem_suffixes_iff.mpr ⟨[], ⟨by simp, by simp, by simp, by simp, [], by simp, rfl⟩, rfl⟩
  refine List.findSome?_isSome_iff.mpr ⟨_, hmem, ?_⟩
  rw [Option.isSome_map, Option.isSome_iff_ne_none]
  exact fun hnone => Text.cutAt?_eq_none_iff.mp hnone h

/-- What is written after a header, up to a line end, is the preferred way to read it. -/
theorem suffixes_of_newline {inputs : Option (List Char)}
    {renderer : Option (List Char × Option (List Char))} {text : List Char}
    (h : Suffix inputs renderer text) (rest : List Char) :
    ∃ others, suffixes (text ++ '\n' :: rest) = (inputs, renderer, '\n' :: rest) :: others := by
  obtain ⟨hinputs, hne, hchars, hargs, blanks, hblanks, rfl⟩ := h
  rw [List.append_assoc]
  generalize hmid : rendererGroup blanks renderer ++ '\n' :: rest = mid
  have hrenderer : ∃ others, (renderer? mid).toList.map (fun p => (inputs, some p.1, p.2)) ++
      [(inputs, none, mid)] = (inputs, renderer, '\n' :: rest) :: others := by
    cases renderer with
    | none =>
      subst hmid
      exact ⟨[], rfl⟩
    | some r =>
      have hread : renderer? mid = some (r, '\n' :: rest) := renderer?_eq_some_iff.mpr
        ⟨hne r rfl, hchars r rfl, hargs r rfl, blanks, hblanks, hmid.symm⟩
      exact ⟨[(inputs, none, mid)], by rw [hread]; rfl⟩
  obtain ⟨others, hothers⟩ := hrenderer
  cases inputs with
  | none =>
    have hparens : parens? mid = none := by
      rw [Option.eq_none_iff_forall_ne_some]
      rintro ⟨inner, after⟩ hsome
      have hopen := (parens?_eq_some_iff.mp hsome).1
      cases renderer with
      | none => simp [← hmid, rendererGroup, group] at hopen
      | some r =>
        cases blanks with
        | nil => simp [← hmid, rendererGroup, group] at hopen
        | cons b blanks =>
          have hb := hblanks b List.mem_cons_self
          simp only [← hmid, rendererGroup, group, List.cons_append, List.cons.injEq] at hopen
          rw [hopen.1] at hb
          exact absurd hb (by decide)
    refine ⟨others, ?_⟩
    simp only [group, List.nil_append, suffixes, hparens]
    simpa using hothers
  | some inner =>
    have hparens : parens? (group (some inner) ++ mid) = some (inner, mid) :=
      parens?_eq_some_iff.mpr ⟨rfl, hinputs inner rfl⟩
    simp only [suffixes, hparens, Option.toList_some, List.map_cons, List.cons_append,
      List.flatMap_cons]
    rw [hothers]
    exact ⟨_, rfl⟩

theorem close?_of_newline {inputs : Option (List Char)}
    {renderer : Option (List Char × Option (List Char))} {text content : List Char}
    (h : Suffix inputs renderer text) (hcontent : ¬ ticks <:+: content) (rest : List Char) :
    close? (text ++ '\n' :: content ++ '\n' :: ticks ++ rest) =
      some (inputs, renderer, '\n' :: content ++ ['\n'], rest) := by
  have hbody : Text.Free ticks ('\n' :: content ++ ['\n']) :=
    (Text.free_of_not_mem (by decide) : Text.Free ticks ['\n']).append
      (Text.free_concat hcontent (by decide))
  have hcut : Text.cutAt? ticks ('\n' :: content ++ ['\n'] ++ ticks ++ rest) =
      some ('\n' :: content ++ ['\n'], rest) := Text.cutAt?_of_free hbody
  have htext : text ++ '\n' :: content ++ '\n' :: ticks ++ rest =
      text ++ '\n' :: (content ++ ['\n'] ++ ticks ++ rest) := by simp
  obtain ⟨others, hothers⟩ := suffixes_of_newline h (content ++ ['\n'] ++ ticks ++ rest)
  rw [htext, close?, hothers, List.findSome?_cons]
  dsimp only
  rw [← List.cons_append, ← List.cons_append, ← List.cons_append, hcut]
  rfl

/-- A block that is read is a match of the pattern. -/
theorem matches_of_read? {cs rest : List Char} {fence : Fence} (h : read? cs = some (fence, rest)) :
    ∃ block, Matches fence block ∧ cs = block ++ rest := by
  obtain ⟨tail, after, hcs, hne, hchars, hend, hclose⟩ := read?_eq_some_iff.mp h
  obtain ⟨suffix, hsuffix, hafter, _, _⟩ := close?_eq_some_iff.mp hclose
  refine ⟨_, ⟨hne, hchars, suffix, hsuffix, rfl⟩, ?_⟩
  rw [hcs, (headerEnd?_eq_some_iff.mp hend).1, hafter]
  simp

theorem not_infix_body_of_read? {cs rest : List Char} {fence : Fence}
    (h : read? cs = some (fence, rest)) : ¬ ticks <:+: fence.body := by
  obtain ⟨_, _, _, _, _, _, hclose⟩ := read?_eq_some_iff.mp h
  obtain ⟨_, _, _, hclear, _⟩ := close?_eq_some_iff.mp hclose
  exact hclear.not_infix (by decide)

/-- A header that some parenthesis and brace close has an end, and no later than there. -/
theorem headerEnd?_of_group (inputs : Option (List Char)) (rest : List Char) :
    ∃ inputs' after, headerEnd? (group inputs ++ '}' :: rest) = some (inputs', after) ∧
      rest <:+ after := by
  cases inputs with
  | none => exact ⟨none, rest, rfl, List.suffix_refl rest⟩
  | some inner =>
    have htext : group (some inner) ++ '}' :: rest = '(' :: (inner ++ [')', '}'] ++ rest) := by
      simp [group]
    obtain ⟨before, after, hcut, hsuffix⟩ := Text.cutAt?_of_append [')', '}'] inner rest
    refine ⟨some before, after, ?_, hsuffix⟩
    rw [htext, headerEnd?, hcut]
    rfl

private theorem isSome_read?_iff {cs : List Char} : (read? cs).isSome ↔ StartsBlock cs := by
  constructor
  · intro h
    obtain ⟨⟨fence, rest⟩, hread⟩ := Option.isSome_iff_exists.mp h
    obtain ⟨block, hmatches, hcs⟩ := matches_of_read? hread
    exact ⟨fence, block, rest, hmatches, hcs⟩
  · rintro ⟨fence, _, rest, ⟨hne, hchars, suffix, _, rfl⟩, rfl⟩
    obtain ⟨headerInputs, after, hend, hsuffix⟩ :=
      headerEnd?_of_group fence.headerInputs (suffix ++ fence.body ++ ticks ++ rest)
    -- the fence that closes the match closes what is read too, if no earlier one does
    have hticks : ticks <:+: suffix ++ fence.body ++ ticks ++ rest :=
      List.infix_append (suffix ++ fence.body) ticks rest
    obtain ⟨⟨inputs, renderer, body, rest'⟩, hclose⟩ :=
      Option.isSome_iff_exists.mp (isSome_close? (hticks.trans hsuffix.isInfix))
    refine Option.isSome_iff_exists.mpr
      ⟨(⟨fence.header, headerInputs, inputs, renderer, body⟩, rest'),
        read?_eq_some_iff.mpr ⟨_, after, ?_, hne, hchars, hend, hclose⟩⟩
    simp

/-- Reading a block does not depend on what follows it. -/
theorem read?_of_read?_append {block rest : List Char} {fence : Fence}
    (h : read? (block ++ rest) = some (fence, rest)) : read? block = some (fence, []) := by
  obtain ⟨tail, after, hcs, hne, hchars, hend, hclose⟩ := read?_eq_some_iff.mp h
  obtain ⟨htail, hheader⟩ := headerEnd?_eq_some_iff.mp hend
  obtain ⟨suffix, hsuffix, hafter, hclear, hprefer⟩ := close?_eq_some_iff.mp hclose
  have hblock : block = ticks ++ '{' :: fence.header ++
      (group fence.headerInputs ++ '}' :: (suffix ++ fence.body ++ ticks)) := by
    have hwhole : block ++ rest = (ticks ++ '{' :: fence.header ++
        (group fence.headerInputs ++ '}' :: (suffix ++ fence.body ++ ticks))) ++ rest := by
      simp [hcs, htail, hafter]
    exact List.append_cancel_right hwhole
  refine read?_eq_some_iff.mpr ⟨_, _, hblock, hne, hchars,
    headerEnd?_eq_some_iff.mpr ⟨rfl, ?_⟩, close?_eq_some_iff.mpr ⟨suffix, hsuffix, ?_, ?_, ?_⟩⟩
  · intro inner hinner
    have hclear := hheader inner hinner
    rw [hafter, ← List.append_assoc] at hclear
    exact hclear.of_append
  · simp
  · rw [List.append_nil]
    exact hclear.of_append
  · intro inputs' renderer' text' rest' hsuffix' htext' hrank hticks
    refine hprefer inputs' renderer' text' (rest' ++ rest) hsuffix' ?_ hrank
      (hticks.trans (List.prefix_append rest' rest).isInfix)
    rw [hafter, htext', List.append_assoc]

theorem StartsBlock.ticks_prefix {text : List Char} (h : StartsBlock text) : ticks <+: text := by
  obtain ⟨fence, _, rest, ⟨_, _, suffix, _, rfl⟩, rfl⟩ := h
  simp only [List.append_assoc]
  exact List.prefix_append ticks _

/-- The first block found is the first place where a match starts. -/
theorem first?_eq_some_iff {cs before rest : List Char} {fence : Fence} :
    first? cs = some (before, fence, rest) ↔ ∃ tail, cs = before ++ tail ∧
      read? tail = some (fence, rest) ∧ Text.Clear StartsBlock before tail := by
  induction cs generalizing before with
  | nil =>
    constructor
    · intro h
      cases h
    · rintro ⟨tail, hcs, hread, _⟩
      obtain ⟨rfl, rfl⟩ := List.append_eq_nil_iff.mp hcs.symm
      cases hread
  | cons c cs ih =>
    rw [first?]
    constructor
    · intro h
      split at h
      · rename_i hread
        cases h
        exact ⟨c :: cs, rfl, hread, Text.clear_nil⟩
      · rename_i hnone
        obtain ⟨⟨b, f, r⟩, hfirst, he⟩ := Option.map_eq_some_iff.mp h
        cases he
        obtain ⟨tail, hcs, hread, hclear⟩ := ih.mp hfirst
        refine ⟨tail, by rw [hcs, List.cons_append], hread, Text.clear_cons.mpr ⟨?_, hclear⟩⟩
        rw [List.cons_append, ← hcs, ← isSome_read?_iff, hnone]
        exact Bool.false_ne_true
    · rintro ⟨tail, hcs, hread, hclear⟩
      cases before with
      | nil =>
        rw [List.nil_append] at hcs
        rw [hcs, hread]
      | cons d before =>
        rw [List.cons_append] at hcs
        obtain ⟨rfl, rfl⟩ := List.cons.inj hcs
        obtain ⟨hhead, htail⟩ := Text.clear_cons.mp hclear
        have hnone : read? (c :: (before ++ tail)) = none := by
          rw [← isSome_read?_iff] at hhead
          exact Option.not_isSome_iff_eq_none.mp hhead
        rw [hnone, ih.mpr ⟨tail, rfl, hread, htail⟩]
        rfl

theorem first?_eq_none_iff {cs : List Char} : first? cs = none ↔ Text.Clear StartsBlock cs [] := by
  induction cs with
  | nil => exact ⟨fun _ => Text.clear_nil, fun _ => rfl⟩
  | cons c cs ih =>
    rw [first?, Text.clear_cons, List.append_nil, ← isSome_read?_iff, ← ih]
    cases read? (c :: cs) <;> simp

end Notebook.Fence
