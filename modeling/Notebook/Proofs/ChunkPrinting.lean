import Notebook.Proofs.ChunkPartition

/-! Chunks that are written down one after another are discovered again. -/
namespace Notebook

structure Prose where
  text : String
  text_ne : text ≠ ""
  text_trim : Text.trim text.toList = text.toList
  text_ticks : ¬ Fence.ticks <:+: text.toList

/-- An item of a list: trimmed, and without the marks that divide and end it. -/
structure Item (marks : List Char) (s : String) : Prop where
  trim : Text.trim s.toList = s.toList
  avoids : ∀ c ∈ marks, c ∉ s.toList

instance (marks : List Char) (s : String) : Decidable (Item marks s) :=
  decidable_of_iff (Text.trim s.toList = s.toList ∧ marks.all (fun c => !s.toList.contains c))
    ⟨fun h => ⟨h.1, by simpa using h.2⟩, fun h => ⟨h.trim, by simpa using h.avoids⟩⟩

structure Rendering where
  name : String
  args : List (String × Option String)
  name_ne : name ≠ ""
  name_chars : ∀ c ∈ name.toList, Fence.isRendererChar c
  keys_nodup : (args.map Prod.fst).Nodup
  keys_ne : ∀ e ∈ args, e.1 ≠ ""
  keys_item : ∀ e ∈ args, Item [',', '=', ')', '\n'] e.1
  values_item : ∀ e ∈ args, ∀ value ∈ e.2, Item [',', '=', ')', '\n'] value

structure Directive where
  type : String
  name : Option String
  headerInputs : List String
  inputs : List String
  renderer : Option Rendering
  content : String
  type_ne : type ≠ ""
  type_word : ∀ c ∈ type.toList, Text.isWord c
  name_ne : ∀ n ∈ name, n ≠ ""
  name_chars : ∀ n ∈ name, ∀ c ∈ n.toList, Text.isWord c ∨ c = ' ' ∨ c = '#'
  name_outer : ∀ n ∈ name, n.toList.head? ≠ some ' ' ∧ n.toList.getLast? ≠ some ' '
  inputs_ne : ∀ s ∈ headerInputs ++ inputs, s ≠ ""
  inputs_item : ∀ s ∈ headerInputs ++ inputs, Item [',', ')', '\n'] s
  content_trim : Text.trim content.toList = content.toList
  content_ticks : ¬ Fence.ticks <:+: content.toList

/-- A stretch of a notebook before it is written down. -/
inductive Piece where
  | prose (p : Prose)
  | directive (d : Directive)

def parenthesised (items : List String) : List Char :=
  if items.isEmpty then [] else '(' :: (Text.joined ", " items).toList ++ [')']

namespace Rendering

def argument : String × Option String → String
  | (key, none) => key
  | (key, some value) => key ++ "=" ++ value

def print (r : Rendering) : List Char :=
  '[' :: r.name.toList ++ parenthesised (r.args.map argument) ++ [']']

end Rendering

namespace Directive

def header (d : Directive) : List Char :=
  d.type.toList ++ d.name.elim [] fun name => '#' :: name.toList

def print (d : Directive) : List Char :=
  Fence.ticks ++ '{' :: d.header ++ parenthesised d.headerInputs ++ '}' :: parenthesised d.inputs ++
    d.renderer.elim [] Rendering.print ++ '\n' :: d.content.toList ++ '\n' :: Fence.ticks ++ ['\n']

end Directive

namespace Piece

def isProse : Piece → Bool
  | prose _ => true
  | directive _ => false

def print : Piece → List Char
  | prose p => p.text.toList ++ ['\n']
  | directive d => d.print

def chunk (index : Nat) : Piece → Chunk
  | prose p => .markdown index p.text
  | directive d =>
    { index := index
      type := d.type
      name := d.name
      inputs := d.headerInputs ++ d.inputs
      renderer := d.renderer.map Rendering.name
      renderArgs := ⟨d.renderer.elim [] Rendering.args⟩
      content := d.content }

end Piece

def listed (items : List String) : Option (List Char) :=
  if items.isEmpty then none else some (Text.joined ", " items).toList

private theorem group_listed (items : List String) : Fence.group (listed items) = parenthesised items := by
  cases items <;> rfl

private theorem isInner_of_mem_listed {items : List String}
    (h : ∀ s ∈ items, ')' ∉ s.toList ∧ '\n' ∉ s.toList) :
    ∀ inner ∈ listed items, ∀ c ∈ inner, Fence.isInner c := by
  intro inner hinner c hc
  unfold listed at hinner
  split at hinner
  · cases hinner
  · cases hinner
    simp only [Fence.isInner, Bool.and_eq_true, bne_iff_ne]
    rcases Text.mem_joined hc with rfl | rfl | ⟨s, hs, hc⟩
    · decide
    · decide
    · obtain ⟨hparen, hnewline⟩ := h s hs
      exact ⟨fun he => hparen (he ▸ hc), fun he => hnewline (he ▸ hc)⟩

private theorem commaList_listed {items : List String} (hne : ∀ s ∈ items, s ≠ "")
    (hitem : ∀ s ∈ items, Item [',', ')', '\n'] s) :
    (listed items).elim [] Text.commaList = items := by
  cases items with
  | nil => rfl
  | cons s rest =>
    have hsplit := Text.filterMap_split_joined Text.nonBlank?_space_cons (List.cons_ne_nil s rest)
      fun t ht => (hitem t ht).avoids ',' List.mem_cons_self
    refine hsplit.trans ?_
    have hback : ∀ t ∈ s :: rest, Text.nonBlank? t.toList = some t :=
      fun t ht => Text.nonBlank?_of_trim_eq (hitem t ht).trim (hne t ht)
    rw [List.filterMap_congr hback, List.filterMap_some]

namespace RenderArgs

private theorem setFirst_of_not_mem {key : String} {value : Option String}
    {entries : List (String × Option String)} (h : key ∉ entries.map Prod.fst) :
    setFirst key value entries = entries ++ [(key, value)] := by
  induction entries with
  | nil => rfl
  | cons e entries ih =>
    rw [List.map_cons, List.mem_cons, not_or] at h
    rw [setFirst, if_neg (Ne.symm h.1), ih h.2, List.cons_append]

/-- Setting keys that are not there yet appends them. -/
theorem foldl_insert {entries more : List (String × Option String)}
    (h : ((entries ++ more).map Prod.fst).Nodup) :
    more.foldl (fun (args : RenderArgs) e => args.insert e.1 e.2) ⟨entries⟩ = ⟨entries ++ more⟩ := by
  induction more generalizing entries with
  | nil => rw [List.append_nil, List.foldl_nil]
  | cons e more ih =>
    have hnew : e.1 ∉ entries.map Prod.fst := by
      rw [List.map_append, List.nodup_append] at h
      exact fun hmem => h.2.2 e.1 hmem e.1 List.mem_cons_self rfl
    rw [List.foldl_cons, insert, setFirst_of_not_mem hnew, ih (by simpa using h)]
    simp

private theorem setting?_space_cons (cs : List Char) : setting? (' ' :: cs) = setting? cs := by
  unfold setting?
  rw [Text.trim_space_cons]

private theorem setting?_argument {e : String × Option String} (hne : e.1 ≠ "")
    (hkey : Item [',', '=', ')', '\n'] e.1) (hvalue : ∀ v ∈ e.2, Item [',', '=', ')', '\n'] v) :
    setting? (Rendering.argument e).toList = some e := by
  have hequals {s : String} (hs : Item [',', '=', ')', '\n'] s) :
      ∀ c ∈ s.toList, (c == '=') = false :=
    fun c hc => beq_false_of_ne fun he => hs.avoids '=' (by decide) (he ▸ hc)
  obtain ⟨key, value⟩ := e
  cases value with
  | none =>
    rw [Rendering.argument, setting?, hkey.trim, Text.split_of_forall (hequals hkey)]
    simp [Text.nonBlank?_of_trim_eq hkey.trim hne]
  | some value =>
    have htext : (Rendering.argument (key, some value)).toList = key.toList ++ '=' :: value.toList := by
      simp [Rendering.argument]
    have htrim : Text.trim (key.toList ++ '=' :: value.toList) = key.toList ++ '=' :: value.toList :=
      Text.trim_append_cons hkey.trim (hvalue value rfl).trim (by simpa using hne) (by decide)
    rw [htext, setting?, htrim, Text.split_append_cons (hequals hkey) rfl,
      Text.split_of_forall (hequals (hvalue value rfl))]
    simp [Text.nonBlank?_of_trim_eq hkey.trim hne, (hvalue value rfl).trim]

end RenderArgs

namespace Rendering
variable (r : Rendering)

private theorem not_mem_argument {e : String × Option String} (he : e ∈ r.args) {c : Char}
    (hc : c ∈ [',', ')', '\n']) : c ∉ (argument e).toList := by
  have hmark : c ∈ [',', '=', ')', '\n'] := by
    simp only [List.mem_cons] at hc ⊢
    tauto
  have hkey := (r.keys_item e he).avoids c hmark
  have hvalue := fun v hv => (r.values_item e he v hv).avoids c hmark
  obtain ⟨key, value⟩ := e
  cases value with
  | none => exact hkey
  | some value =>
    have hequals : c ≠ '=' := by
      rintro rfl
      exact absurd hc (by decide)
    simpa [argument, hequals] using ⟨hkey, hvalue value rfl⟩

private theorem parse_listed : (listed (r.args.map argument)).elim {} RenderArgs.parse = ⟨r.args⟩ := by
  by_cases hargs : r.args = []
  · rw [hargs]
    rfl
  · have hne : r.args.map argument ≠ [] := by simpa using hargs
    have hcomma : ∀ s ∈ r.args.map argument, ',' ∉ s.toList := by
      intro s hs
      obtain ⟨e, he, rfl⟩ := List.mem_map.mp hs
      exact r.not_mem_argument he List.mem_cons_self
    have hback : ∀ e ∈ r.args, RenderArgs.setting? (argument e).toList = some e :=
      fun e he => RenderArgs.setting?_argument (r.keys_ne e he) (r.keys_item e he) (r.values_item e he)
    have hfold : r.args.foldl (fun (args : RenderArgs) e => args.insert e.1 e.2) ⟨[]⟩ =
        ⟨[] ++ r.args⟩ :=
      RenderArgs.foldl_insert r.keys_nodup
    rw [listed, if_neg (by simpa using hargs), Option.elim_some, RenderArgs.parse,
      Text.filterMap_split_joined RenderArgs.setting?_space_cons hne hcomma, List.filterMap_map,
      Function.comp_def, List.filterMap_congr hback, List.filterMap_some]
    exact hfold

end Rendering

namespace Directive
variable (d : Directive)

def fence : Fence where
  header := d.header
  headerInputs := listed d.headerInputs
  inputs := listed d.inputs
  renderer := d.renderer.map fun r => (r.name.toList, listed (r.args.map Rendering.argument))
  body := '\n' :: d.content.toList ++ ['\n']

theorem header_ne : d.header ≠ [] := by
  simp [header, d.type_ne]

theorem header_chars : ∀ c ∈ d.header, Fence.isHeaderChar c := by
  intro c hc
  simp only [Fence.isHeaderChar, Bool.or_eq_true, beq_iff_eq]
  rcases List.mem_append.mp hc with hc | hc
  · exact .inl (.inl (d.type_word c hc))
  · cases hname : d.name with
    | none => simp [hname] at hc
    | some name =>
      rw [hname, Option.elim_some] at hc
      rcases List.mem_cons.mp hc with rfl | hc
      · exact .inl (.inr rfl)
      · rcases d.name_chars name hname c hc with h | h | h
        · exact .inl (.inl h)
        · exact .inr h
        · exact .inl (.inr h)

private theorem isInner_inputs {items : List String} (h : items ⊆ d.headerInputs ++ d.inputs) :
    ∀ inner ∈ listed items, ∀ c ∈ inner, Fence.isInner c :=
  isInner_of_mem_listed fun s hs =>
    ⟨(d.inputs_item s (h hs)).avoids ')' (by decide),
      (d.inputs_item s (h hs)).avoids '\n' (by decide)⟩

private theorem suffix_fence : Fence.Suffix d.fence.inputs d.fence.renderer
    (parenthesised d.inputs ++ d.renderer.elim [] Rendering.print) := by
  refine ⟨d.isInner_inputs (List.subset_append_right _ _), ?_, ?_, ?_, [], by simp, ?_⟩
  · intro written hr
    obtain ⟨r, _, rfl⟩ := Option.mem_map.mp hr
    simpa using r.name_ne
  · intro written hr
    obtain ⟨r, _, rfl⟩ := Option.mem_map.mp hr
    exact r.name_chars
  · intro written hr
    obtain ⟨r, _, rfl⟩ := Option.mem_map.mp hr
    refine isInner_of_mem_listed fun s hs => ?_
    obtain ⟨e, he, rfl⟩ := List.mem_map.mp hs
    exact ⟨r.not_mem_argument he (by decide), r.not_mem_argument he (by decide)⟩
  · rw [fence, group_listed]
    cases d.renderer with
    | none => rfl
    | some r => simp [Rendering.print, Fence.rendererGroup, group_listed]

/-- A block that is printed is read back, up to the line end after it. -/
theorem read?_print (rest : List Char) :
    Fence.read? (d.print ++ rest) = some (d.fence, '\n' :: rest) := by
  have htext : d.print ++ rest = Fence.ticks ++ '{' :: d.header ++
      (Fence.group (listed d.headerInputs) ++ '}' ::
        (parenthesised d.inputs ++ d.renderer.elim [] Rendering.print ++ '\n' :: d.content.toList ++
          '\n' :: Fence.ticks ++ '\n' :: rest)) := by
    simp [print, group_listed]
  refine Fence.read?_eq_some_iff.mpr ⟨_, _, htext, d.header_ne, d.header_chars,
    Fence.headerEnd?_eq_some_iff.mpr ⟨rfl, ?_⟩,
    Fence.close?_of_newline d.suffix_fence d.content_ticks _⟩
  intro inner hinner
  have hparen : ')' ∉ inner := by
    intro hmem
    have hinner := d.isInner_inputs (List.subset_append_left _ _) inner hinner ')' hmem
    exact absurd hinner (by decide)
  exact Text.free_of_not_mem hparen _

private theorem trim_type : Text.trim d.type.toList = d.type.toList :=
  Text.trim_eq_self_iff.mpr
    ⟨fun c hc => Text.isBlank_of_isWord (d.type_word c (List.mem_of_mem_head? hc)),
      fun c hc => Text.isBlank_of_isWord (d.type_word c (List.mem_of_mem_getLast? hc))⟩

private theorem trim_name {name : String} (hname : name ∈ d.name) : Text.trim name.toList = name.toList := by
  have hblank : ∀ c ∈ name.toList, c ≠ ' ' → Text.isBlank c = false := by
    intro c hc hspace
    rcases d.name_chars name hname c hc with h | h | h
    · exact Text.isBlank_of_isWord h
    · exact absurd h hspace
    · exact h ▸ (by decide)
  obtain ⟨hhead, hlast⟩ := d.name_outer name hname
  refine Text.trim_eq_self_iff.mpr ⟨fun c hc => ?_, fun c hc => ?_⟩
  · exact hblank c (List.mem_of_mem_head? hc) fun he => hhead (he ▸ hc)
  · exact hblank c (List.mem_of_mem_getLast? hc) fun he => hlast (he ▸ hc)

private theorem typeAndName_header : Fence.typeAndName d.header = (d.type, d.name) := by
  have hsign : '#' ∉ d.type.toList := fun h => absurd (d.type_word '#' h) (by decide)
  cases hname : d.name with
  | none =>
    have hheader : d.header = d.type.toList := by simp [header, hname]
    have hnone : Text.cutAt? ['#'] d.type.toList = none :=
      Text.cutAt?_eq_none_iff.mpr fun h => hsign (h.subset List.mem_cons_self)
    rw [hheader, Fence.typeAndName, hnone]
    simp [d.trim_type]
  | some name =>
    have hheader : d.header = d.type.toList ++ ['#'] ++ name.toList := by simp [header, hname]
    have hcut : Text.cutAt? ['#'] d.header = some (d.type.toList, name.toList) :=
      hheader ▸ Text.cutAt?_of_free (Text.free_of_not_mem hsign)
    rw [Fence.typeAndName, hcut]
    simp [d.trim_type, Text.nonBlank?_of_trim_eq (d.trim_name hname) (d.name_ne name hname)]

private theorem trim_body : Text.trim d.fence.body = d.content.toList := by
  have hnewline : ∀ c ∈ ['\n'], Text.isBlank c := List.forall_mem_singleton.mpr (by decide)
  have hbody : d.fence.body = ['\n'] ++ d.content.toList ++ ['\n'] := rfl
  rw [hbody, Text.trim_append_blanks hnewline, Text.trim_blanks_append hnewline, d.content_trim]

private theorem toChunk_fence : d.fence.toChunk = fun index => Piece.chunk index (.directive d) := by
  have hname : Fence.typeAndName d.fence.header = (d.type, d.name) := d.typeAndName_header
  have hinputs : d.fence.headerInputs.elim [] Text.commaList ++ d.fence.inputs.elim [] Text.commaList =
      d.headerInputs ++ d.inputs := by
    refine congrArg₂ (· ++ ·) (commaList_listed ?_ ?_) (commaList_listed ?_ ?_)
    · exact fun s hs => d.inputs_ne s (List.mem_append_left _ hs)
    · exact fun s hs => d.inputs_item s (List.mem_append_left _ hs)
    · exact fun s hs => d.inputs_ne s (List.mem_append_right _ hs)
    · exact fun s hs => d.inputs_item s (List.mem_append_right _ hs)
  have hrenderer : d.fence.renderer.map (fun r => String.ofList r.1) =
      d.renderer.map Rendering.name := by
    simp [fence, Function.comp_def]
  have hargs : (d.fence.renderer.bind (·.2)).elim {} RenderArgs.parse =
      ⟨d.renderer.elim [] Rendering.args⟩ := by
    cases hr : d.renderer with
    | none => simp [fence, hr]
    | some r => simpa [fence, hr] using r.parse_listed
  funext index
  simp only [Fence.toChunk, Piece.chunk, hname, hinputs, hrenderer, hargs, d.trim_body,
    String.ofList_toList]

end Directive

private theorem Prose.free_print (p : Prose) : Text.Free Fence.ticks (p.text.toList ++ ['\n']) :=
  Text.free_concat p.text_ticks (by decide)

private theorem Prose.gapChunk_print (p : Prose) {gap : List Char} (hgap : ∀ c ∈ gap, Text.isBlank c) :
    Cut.gapChunk (gap ++ (p.text.toList ++ ['\n'])) = [fun index => .markdown index p.text] := by
  have hnewline : ∀ c ∈ ['\n'], Text.isBlank c := List.forall_mem_singleton.mpr (by decide)
  have htrim : Text.trim (gap ++ (p.text.toList ++ ['\n'])) = p.text.toList := by
    rw [Text.trim_blanks_append hgap, Text.trim_append_blanks hnewline, p.text_trim]
  rw [Cut.gapChunk_of_trim (by simpa [htrim] using p.text_ne), htrim, String.ofList_toList]

namespace Segment

theorem ofText_of_free {gap : List Char} (hgap : Text.Free Fence.ticks gap) :
    ofText gap = [prose gap] := by
  have hnone : Fence.first? gap = none :=
    Fence.first?_eq_none_iff.mpr ((hgap []).imp fun _ => Fence.StartsBlock.ticks_prefix)
  rw [ofText]
  split
  · rfl
  · rename_i h
    rw [hnone] at h
    cases h

theorem ofText_of_read? {gap tail rest : List Char} {fence : Fence} (hgap : Text.Free Fence.ticks gap)
    (hread : Fence.read? tail = some (fence, rest)) :
    ofText (gap ++ tail) = prose gap :: fenced fence :: ofText rest := by
  have hsome : Fence.first? (gap ++ tail) = some (gap, fence, rest) := Fence.first?_eq_some_iff.mpr
    ⟨tail, rfl, hread, (hgap tail).imp fun _ => Fence.StartsBlock.ticks_prefix⟩
  rw [ofText]
  split
  · rename_i h
    rw [hsome] at h
    cases h
  · rename_i h
    rw [hsome] at h
    cases h
    rfl

end Segment

namespace Piece

/-- The chunks of printed pieces that follow some prose: one for the prose, unless it is blank, and one
for each piece. -/
theorem filterMap_ofText_print {pieces : List Piece} {gap : List Char}
    (h : pieces.IsChain fun p q => p.isProse → ¬ q.isProse) (hgap : Text.Free Fence.ticks gap)
    (hfirst : ∀ p ∈ pieces.head?, p.isProse → ∀ c ∈ gap, Text.isBlank c) :
    (Segment.ofText (gap ++ pieces.flatMap print)).filterMap Segment.toChunk? =
      Cut.gapChunk gap ++ pieces.map fun piece index => piece.chunk index := by
  induction pieces generalizing gap with
  | nil =>
    rw [List.flatMap_nil, List.append_nil, Segment.ofText_of_free hgap, Cut.filterMap_prose,
      List.map_nil, List.append_nil]
  | cons piece pieces ih =>
    obtain ⟨hnext, hchain⟩ := List.isChain_cons.mp h
    cases piece with
    | prose p =>
      -- the prose joins the blanks before it, and a block or the end of the text follows
      have hblank := hfirst (.prose p) rfl rfl
      have hrest := ih hchain (hgap.append p.free_print) fun q hq hprose =>
        absurd hprose (hnext q hq rfl)
      rw [List.flatMap_cons, print, ← List.append_assoc, hrest, p.gapChunk_print hblank,
        Cut.gapChunk_of_blank hblank]
      rfl
    | directive d =>
      -- the line end after the block is all that stands before the next piece
      have hline : Text.Free Fence.ticks ['\n'] := Text.free_of_not_mem (by decide)
      have hblank : ∀ c ∈ ['\n'], Text.isBlank c := List.forall_mem_singleton.mpr (by decide)
      have hrest := ih hchain hline fun _ _ _ => hblank
      rw [Cut.gapChunk_of_blank hblank, List.nil_append, List.singleton_append] at hrest
      rw [List.flatMap_cons, print, Segment.ofText_of_read? hgap (d.read?_print _),
        Cut.filterMap_prose_fenced, d.toChunk_fence, hrest]
      rfl

end Piece

/-- Printing pieces and discovering the chunks of the text gives one chunk for each piece. -/
theorem Chunk.discover_print (pieces : List Piece)
    (h : pieces.IsChain fun p q => p.isProse → ¬ q.isProse) :
    discover (pieces.flatMap Piece.print) = pieces.mapIdx Piece.chunk := by
  have hchunks := Piece.filterMap_ofText_print h (Text.free_of_not_mem List.not_mem_nil)
    fun _ _ _ c hc => absurd hc List.not_mem_nil
  have hempty : Cut.gapChunk [] = [] := Cut.gapChunk_of_blank fun c hc => absurd hc List.not_mem_nil
  rw [List.nil_append, hempty, List.nil_append] at hchunks
  rw [discover, hchunks]
  exact List.mapIdx_eq_iff.mpr fun i => by simp [Function.comp_def]

def Piece.totals : List Piece := [
  .prose ⟨"Totals `x`", by decide, by decide +kernel, by decide⟩,
  .directive {
    type := "plot", name := some "sum #1", headerInputs := ["a", "b (c"], inputs := ["d"]
    renderer := some {
      name := "vega/bar", args := [("wide", none), ("title", some "x y"), ("note", some "")]
      name_ne := by decide
      name_chars := List.all_eq_true.mp (by decide)
      keys_nodup := by decide
      keys_ne := by decide
      keys_item := by decide +kernel
      values_item := by decide +kernel }
    content := "(y)"
    type_ne := by decide
    type_word := List.all_eq_true.mp (by decide)
    name_ne := by decide
    name_chars := by simpa using by decide
    name_outer := by decide
    inputs_ne := by decide
    inputs_item := by decide +kernel
    content_trim := by decide +kernel
    content_ticks := by decide },
  .directive {
    type := "js", name := none, headerInputs := [], inputs := [], renderer := none, content := ""
    type_ne := by decide
    type_word := List.all_eq_true.mp (by decide)
    name_ne := by decide
    name_chars := by decide
    name_outer := by decide
    inputs_ne := by decide
    inputs_item := by decide
    content_trim := by decide
    content_ticks := by decide }]

theorem Chunk.discover_print_totals :
    Piece.totals.flatMap Piece.print =
      ("Totals `x`\n```\x7bplot#sum #1(a, b (c)\x7d(d)[vega/bar(wide, title=x y, note=)]\n(y)\n```\n" ++
        "```\x7bjs\x7d\n\n```\n").toList ∧
    discover (Piece.totals.flatMap Piece.print) = [
      .markdown 0 "Totals `x`",
      { index := 1, type := "plot", name := some "sum #1", inputs := ["a", "b (c", "d"]
        renderer := some "vega/bar"
        renderArgs := ⟨[("wide", none), ("title", some "x y"), ("note", some "")]⟩, content := "(y)" },
      { index := 2, type := "js", content := "" }] :=
  ⟨by decide +kernel, discover_print Piece.totals (by decide)⟩

end Notebook
