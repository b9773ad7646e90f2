import Notebook.Proofs.ImportClauses

/-! Import lines that are written down are read again, with any white space between their words. -/
namespace Notebook

structure LineGap where
  text : List Char
  isGap : Gap text
  inLine : '\n' ∉ text

def LineGap.single (c : Char) (hblank : Text.isBlank c) (hline : c ≠ '\n') : LineGap where
  text := [c]
  isGap := ⟨List.cons_ne_nil c [], List.forall_mem_singleton.mpr hblank⟩
  inLine := fun hm => hline (List.mem_singleton.mp hm).symm

namespace ModuleImport

/-- An import of a symbol that a line can write. -/
structure Writable (i : ModuleImport) : Prop where
  name_ne : i.name ≠ ""
  name_chars : ∀ c ∈ i.name.toList, Text.isBlank c = false ∧ c ≠ '{' ∧ c ≠ '}'
  name_viewof : i.name ≠ "viewof"
  newName_ne : ∀ n ∈ i.newName, n ≠ ""
  newName_word : ∀ n ∈ i.newName, ∀ c ∈ n.toList, Text.isWord c
  specifier_ne : i.specifier ≠ ""
  specifier_trim : Text.trim i.specifier.toList = i.specifier.toList
  specifier_line : '\n' ∉ i.specifier.toList

structure Layout where
  /-- Behind the brace that opens stands at most one blank. -/
  lead : List Char
  lead_blank : Blank lead
  lead_length : lead.length ≤ 1
  afterView : LineGap
  beforeAs : LineGap
  afterAs : LineGap
  /-- The white space behind a `viewof` in front of the new name, if there is one. -/
  afterNewView : Option LineGap
  /-- The white space in front of the brace that closes. -/
  trail : List Char
  trail_blank : Blank trail
  trail_line : '\n' ∉ trail
  beforeFrom : LineGap
  afterFrom : LineGap

namespace Layout

def mark (l : Layout) (viewOf : Bool) : List Char :=
  if viewOf then "viewof".toList ++ l.afterView.text else []

def newMark (l : Layout) : List Char :=
  l.afterNewView.elim [] fun gap => "viewof".toList ++ gap.text

def renamed (l : Layout) (newName : Option String) : List Char :=
  newName.elim [] fun n =>
    l.beforeAs.text ++ "as".toList ++ l.afterAs.text ++ l.newMark ++ n.toList

def plain (c : Char) (hblank : Text.isBlank c) : Layout where
  lead := [c]
  lead_blank := List.forall_mem_singleton.mpr hblank
  lead_length := Nat.le_refl 1
  afterView := .single ' ' (by decide) (by decide)
  beforeAs := .single '\t' (by decide) (by decide)
  afterAs := .single ' ' (by decide) (by decide)
  afterNewView := some (.single '\r' (by decide) (by decide))
  trail := []
  trail_blank := nofun
  trail_line := List.not_mem_nil
  beforeFrom := .single ' ' (by decide) (by decide)
  afterFrom := .single ' ' (by decide) (by decide)

private theorem viewMark_mark (l : Layout) (viewOf : Bool) : ViewMark viewOf (l.mark viewOf) := by
  cases viewOf with
  | false => exact .absent
  | true => exact .present l.afterView.isGap

private theorem renaming_renamed (l : Layout) (newName : Option String) : Renaming newName (l.renamed newName) := by
  cases newName with
  | none => exact .absent
  | some n =>
    have hmark : ∃ viewOf, ViewMark viewOf l.newMark := by
      unfold newMark
      cases l.afterNewView with
      | none => exact ⟨false, .absent⟩
      | some gap => exact ⟨true, .present gap.isGap⟩
    obtain ⟨viewOf, hmark⟩ := hmark
    exact .present l.beforeAs.isGap l.afterAs.isGap hmark

end Layout

def symbolText (i : ModuleImport) (l : Layout) : List Char :=
  l.lead ++ l.mark i.viewOf ++ i.name.toList ++ l.renamed i.newName ++ l.trail

def print (i : ModuleImport) (l : Layout) : List Char :=
  '{' :: (i.symbolText l ++ '}' ::
    (l.beforeFrom.text ++ "from".toList ++ l.afterFrom.text ++ i.specifier.toList))

end ModuleImport

namespace FetchImport

structure Writable (i : FetchImport) : Prop where
  name_ne : i.name ≠ ""
  name_chars : ∀ c ∈ i.name.toList, Text.isBlank c = false ∧ c ≠ '{'
  origin_ne : i.origin ≠ ""
  origin_trim : Text.trim i.origin.toList = i.origin.toList
  origin_line : '\n' ∉ i.origin.toList
  origin_brace : '{' ∉ i.origin.toList

def print (i : FetchImport) (gap gap' : List Char) : List Char :=
  i.name.toList ++ (gap ++ "load".toList ++ gap' ++ i.origin.toList)

end FetchImport

/-- White space follows a name, whether it gets a new one or not. -/
theorem Renaming.isBlank_head {newName : Option String} {renamed trail : List Char}
    (h : Renaming newName renamed) (htrail : Blank trail) :
    ∀ c ∈ (renamed ++ trail).head?, Text.isBlank c := by
  cases h with
  | absent => exact fun c hc => htrail c (List.mem_of_mem_head? hc)
  | present hgap =>
    simp only [List.append_assoc]
    rw [List.head?_append_of_ne_nil _ hgap.1]
    exact fun c hc => hgap.2 c (List.mem_of_mem_head? hc)

namespace ImportLine

section NewName
variable {gap gap' mark name after cs : List Char} {viewOf : Bool}

/-- Behind `as` a `viewof` in front of a word is preferred to a word. -/
theorem newName?_of_keyed {rest : List Char} (h : Keyed "as".toList cs rest)
    (hrest : ∀ c ∈ rest.head?, Text.isBlank c = false) : newName? cs =
      (((Text.after? "viewof".toList rest).bind afterBlanks?).bind word?).elim (word? rest) some := by
  have hkeyword : afterKeyword? "as".toList cs = some rest := by
    rw [← Text.trimStart_eq_self_iff.mpr hrest]
    exact afterKeyword?_of_keyed (by decide) h
  rw [newName?, hkeyword, Option.bind_some]
  cases ((Text.after? "viewof".toList rest).bind afterBlanks?).bind word? <;> rfl

/-- A new name is read as it is written, unless it is a `viewof` that a word follows. -/
theorem newName?_of_written (hgap : Gap gap) (hgap' : Gap gap') (hmark : ViewMark viewOf mark)
    (hne : name ≠ []) (hname : ∀ c ∈ name, Text.isWord c)
    (hafter : ∀ c ∈ after.head?, Text.isWord c = false)
    (hpreferred : viewOf = false → Unmarked (name ++ after)) :
    newName? (gap ++ "as".toList ++ gap' ++ (mark ++ (name ++ after))) = some name := by
  have hword : word? (name ++ after) = some name :=
    word?_eq_some_iff.mpr ⟨hne, hname, after, hafter, rfl⟩
  have hkeyed : Keyed "as".toList (gap ++ "as".toList ++ gap' ++ (mark ++ (name ++ after)))
    (mark ++ (name ++ after)) := ⟨gap, gap', hgap, hgap', rfl⟩
  rw [newName?_of_keyed hkeyed (hmark.not_isBlank_start hne hname after)]
  cases hmark with
  | present hgap'' =>
    have hblanks := afterBlanks?_eq_some_iff.mpr
      ⟨ViewMark.absent.not_isBlank_start hne hname after, _, hgap'', rfl⟩
    rw [List.nil_append] at hblanks
    rw [List.append_assoc, Text.after?_append, Option.bind_some, hblanks, Option.bind_some, hword]
    rfl
  | absent =>
    rw [List.nil_append]
    cases hview : ((Text.after? "viewof".toList (name ++ after)).bind afterBlanks?).bind word? with
    | none => exact hword
    | some word =>
      obtain ⟨text, htext, hw⟩ := Option.bind_eq_some_iff.mp hview
      obtain ⟨start, hstart, hblanks⟩ := Option.bind_eq_some_iff.mp htext
      obtain ⟨-, g, hg, rfl⟩ := afterBlanks?_eq_some_iff.mp hblanks
      obtain ⟨hwne, hchars, more, -, rfl⟩ := word?_eq_some_iff.mp hw
      obtain ⟨c, word, rfl⟩ := List.exists_cons_of_ne_nil hwne
      refine absurd ?_ (hpreferred rfl g c (word ++ more) hg (hchars c List.mem_cons_self))
      rw [Text.after?_eq_some_iff.mp hstart]
      simp only [List.append_assoc, List.cons_append]

theorem newName?_of_not_blank {c : Char} (hc : Text.isBlank c = false) : newName? (c :: cs) = none := by
  have hblanks : afterBlanks? (c :: cs) = none := by simp [afterBlanks?, hc]
  rw [newName?, afterKeyword?, hblanks]
  rfl

private theorem newName?_of_blank (h : Blank cs) : newName? cs = none := by
  refine Option.eq_none_iff_forall_ne_some.mpr fun name hname => ?_
  obtain ⟨gap, gap', _, mark, after, -, -, -, rfl, -⟩ := eq_of_newName? hname
  have ha : Text.isBlank 'a' := h 'a' (by simp)
  revert ha
  decide

/-- Nothing but white space is left behind a new name, so that no word follows a `viewof`. -/
theorem unmarked_of_blank (hname : ∀ c ∈ name, Text.isWord c) (hafter : Blank after) :
    Unmarked (name ++ after) := by
  intro g c rest hg hc heq
  have hview : ∀ c ∈ "viewof".toList, Text.isWord c := List.all_eq_true.mp (by decide)
  have hgap : ∀ d ∈ (g ++ c :: rest).head?, Text.isWord d = false := by
    rw [List.head?_append_of_ne_nil g hg.1]
    exact hg.2.not_isWord_head
  have hinj := Text.run_append_inj hname hview hafter.not_isWord_head hgap (by simpa using heq)
  have hblank := hafter c (hinj.2 ▸ by simp)
  simp [Text.isBlank_of_isWord hc] at hblank

end NewName

section Names
variable {before rest : List Char}

/-- A name goes on as long as no new name follows. -/
theorem names_append (h : Text.Clear (fun text => (newName? text).isSome) before rest) :
    names (before ++ rest) = (before ++ (names rest).1, (names rest).2) := by
  induction before with
  | nil => rfl
  | cons c before ih =>
    obtain ⟨hhead, htail⟩ := Text.clear_cons.mp h
    have hnone : newName? (c :: (before ++ rest)) = none := Option.not_isSome_iff_eq_none.mp hhead
    rw [List.cons_append, names_cons, hnone, ih htail]
    rfl

theorem names_of_newName? {name : List Char} (h : newName? rest = some name) :
    names rest = ([], some name) := by
  cases rest with
  | nil => cases h
  | cons c rest => rw [names_cons, h]

theorem clear_newName?_of_not_blank (h : ∀ c ∈ before, Text.isBlank c = false) (rest : List Char) :
    Text.Clear (fun text => (newName? text).isSome) before rest := by
  rintro x y rfl hy hsome
  obtain ⟨c, y, rfl⟩ := List.exists_cons_of_ne_nil hy
  rw [List.cons_append, newName?_of_not_blank (h c (by simp))] at hsome
  cases hsome

private theorem clear_newName?_of_blank (h : Blank before) :
    Text.Clear (fun text => (newName? text).isSome) before [] := by
  rintro x y rfl - hsome
  rw [List.append_nil, newName?_of_blank fun c hc => h c (by simp [hc])] at hsome
  cases hsome

/-- A name without white space is read up to its end, and with it the white space before the brace if
there is no new name. -/
theorem names_written {name renamed trail : List Char} {newName : Option String}
    (hname : ∀ c ∈ name, Text.isBlank c = false) (hrenamed : Renaming newName renamed)
    (hne : ∀ n ∈ newName, n ≠ "") (hword : ∀ n ∈ newName, ∀ c ∈ n.toList, Text.isWord c)
    (htrail : Blank trail) : ∃ blanks, Blank blanks ∧
      names (name ++ (renamed ++ trail)) = (name ++ blanks, newName.map String.toList) := by
  rw [names_append (clear_newName?_of_not_blank hname _)]
  cases hrenamed with
  | absent =>
    have hnames := names_append (clear_newName?_of_blank htrail)
    have hnil : names [] = ([], none) := rfl
    rw [List.append_nil, hnil, List.append_nil] at hnames
    exact ⟨trail, htrail, by rw [List.nil_append, hnames]; rfl⟩
  | @present gap gap' mark viewOf n hgap hgap' hmark =>
    have hchars := hword n rfl
    have hnew := newName?_of_written hgap hgap' hmark (by simpa using hne n rfl) hchars
      htrail.not_isWord_head fun _ => unmarked_of_blank hchars htrail
    have hnames := names_of_newName? hnew
    refine ⟨[], nofun, ?_⟩
    simp only [List.append_assoc] at hnames ⊢
    rw [hnames]
    rfl

end Names

theorem trim_of_not_blank {cs : List Char} (h : ∀ c ∈ cs, Text.isBlank c = false) : Text.trim cs = cs :=
  Text.trim_eq_self_iff.mpr ⟨fun c hc => h c (List.mem_of_mem_head? hc),
    fun c hc => h c (List.mem_of_getLast? hc)⟩

section Symbol
variable {text lead gap : List Char} {c : Char}

def started (start : Bool × List Char) : Option (Bool × List Char × Option (List Char)) :=
  match start.2 with
  | [] => none
  | c :: cs => some (start.1, c :: (names cs).1, (names cs).2)

theorem symbol?_eq (cs : List Char) : symbol? cs = (symbolStarts cs).findSome? started := by
  rw [symbol?]
  rfl

/-- The whole text is a start, if nothing better is found. -/
theorem mem_viewStarts (text : List Char) : (false, text) ∈ viewStarts text := by
  unfold viewStarts
  split
  · exact List.mem_singleton_self _
  · exact List.mem_append_right _ (List.mem_singleton_self _)

theorem viewStarts_of_unmarked (h : ∀ b rest, Text.isBlank b → text ≠ "viewof".toList ++ b :: rest) :
    viewStarts text = [(false, text)] := by
  unfold viewStarts
  split
  · rfl
  · rename_i rest hrest
    have hblanks : rest.takeWhile Text.isBlank = [] := by
      cases rest with
      | nil => rfl
      | cons b rest =>
        refine List.takeWhile_cons_of_neg fun hb => ?_
        exact h b rest hb (Text.after?_eq_some_iff.mp hrest)
    rw [hblanks]
    rfl

/-- A view is preferred, with all the white space before its name. -/
theorem findSome?_viewStarts_of_marked (hgap : Gap gap) (hc : Text.isBlank c = false) (rest : List Char) :
    (viewStarts ("viewof".toList ++ (gap ++ c :: rest))).findSome? started =
      some (true, c :: (names rest).1, (names rest).2) := by
  obtain ⟨n, hn⟩ := Nat.exists_eq_succ_of_ne_zero fun h => hgap.1 (List.length_eq_zero_iff.mp h)
  unfold viewStarts
  rw [Text.after?_append]
  dsimp only
  rw [Text.takeWhile_append_cons hgap.2 hc, hn, List.range_succ_eq_map, List.map_cons, Nat.sub_zero, ← hn,
    List.drop_left, List.cons_append, List.findSome?_cons]
  rfl

/-- At most one blank in front of a symbol is passed over. -/
theorem symbol?_of_lead (hlead : Blank lead) (hlength : lead.length ≤ 1) (hc : Text.isBlank c = false)
    (rest : List Char) : symbol? (lead ++ c :: rest) = (viewStarts (c :: rest)).findSome? started := by
  rw [symbol?_eq]
  cases lead with
  | nil =>
    dsimp only [List.nil_append, symbolStarts]
    rw [hc, if_neg Bool.false_ne_true, List.nil_append]
  | cons b lead =>
    obtain rfl : lead = [] := List.length_eq_zero_iff.mp (by simpa using hlength)
    have hsome : ((viewStarts (c :: rest)).findSome? started).isSome :=
      List.findSome?_isSome_iff.mpr ⟨_, mem_viewStarts (c :: rest), rfl⟩
    obtain ⟨read, hread⟩ := Option.isSome_iff_exists.mp hsome
    dsimp only [List.cons_append, List.nil_append, symbolStarts]
    rw [hlead b List.mem_cons_self, if_pos rfl, List.findSome?_append, hread]
    rfl

/-- The parts of a symbol are read back. -/
theorem exists_symbol? {i : ModuleImport} (hi : i.Writable) (l : ModuleImport.Layout) :
    ∃ name, symbol? (i.symbolText l) = some (i.viewOf, name, i.newName.map String.toList) ∧
      Text.nonBlank? name = some i.name := by
  obtain ⟨c, more, hname⟩ := List.exists_cons_of_ne_nil (by simpa using hi.name_ne : i.name.toList ≠ [])
  have hchars : ∀ d ∈ c :: more, Text.isBlank d = false := fun d hd => (hi.name_chars d (hname ▸ hd)).1
  have hc : Text.isBlank c = false := hchars c List.mem_cons_self
  obtain ⟨blanks, hblanks, hnames⟩ := names_written (fun d hd => hchars d (List.mem_cons_of_mem c hd))
    (l.renaming_renamed i.newName) hi.newName_ne hi.newName_word l.trail_blank
  refine ⟨c :: more ++ blanks, ?_, ?_⟩
  · rw [ModuleImport.symbolText, hname]
    simp only [List.append_assoc]
    have hmark := l.viewMark_mark i.viewOf
    generalize l.mark i.viewOf = mark at hmark ⊢
    generalize i.viewOf = viewOf at hmark ⊢
    cases hmark with
    | @present gap hgap =>
      have hv := symbol?_of_lead l.lead_blank l.lead_length (c := 'v') (by decide)
        ("iewof".toList ++ (gap ++ c :: (more ++ (l.renamed i.newName ++ l.trail))))
      have hview := findSome?_viewStarts_of_marked hgap hc (more ++ (l.renamed i.newName ++ l.trail))
      rw [hnames] at hview
      simp only [List.append_assoc, List.cons_append]
      exact hv.trans hview
    | absent =>
      rw [List.nil_append, List.cons_append, symbol?_of_lead l.lead_blank l.lead_length hc,
        viewStarts_of_unmarked, List.findSome?_cons]
      · dsimp only [started]
        rw [hnames]
        rfl
      · -- A name that goes up to white space is not `viewof`.
        intro b rest hb heq
        have hrun : ∀ d ∈ c :: more, (!Text.isBlank d) = true := by simpa using hchars
        have hview : ∀ d ∈ "viewof".toList, (!Text.isBlank d) = true := List.all_eq_true.mp (by decide)
        have hhead := (l.renaming_renamed i.newName).isBlank_head l.trail_blank
        have hinj := Text.run_append_inj hrun hview (by simpa using hhead) (by simpa using hb) heq
        exact hi.name_viewof (String.toList_inj.mp (hname.trans hinj.1))
  · have htrim := trim_of_not_blank hchars
    rw [Text.nonBlank?_eq_some_iff, Text.trim_append_blanks hblanks, htrim]
    exact ⟨List.cons_ne_nil c more, hname⟩

end Symbol

/-- A character that stands in none of the parts of a symbol does not stand in the symbol. -/
theorem not_mem_symbolText {i : ModuleImport} {l : ModuleImport.Layout} {d : Char} (hlead : d ∉ l.lead)
    (hkeywords : d ∉ "viewof".toList ++ "as".toList) (hname : d ∉ i.name.toList)
    (hnewName : ∀ n ∈ i.newName, d ∉ n.toList) (hgaps : ∀ gap : LineGap, d ∉ gap.text)
    (htrail : d ∉ l.trail) : d ∉ i.symbolText l := by
  rw [List.mem_append, not_or] at hkeywords
  have hmark : d ∉ l.mark i.viewOf := by
    unfold ModuleImport.Layout.mark
    split
    · exact fun hm => (List.mem_append.mp hm).elim hkeywords.1 (hgaps _)
    · exact List.not_mem_nil
  have hnewMark : d ∉ l.newMark := by
    unfold ModuleImport.Layout.newMark
    cases l.afterNewView with
    | none => exact List.not_mem_nil
    | some gap => exact fun hm => (List.mem_append.mp hm).elim hkeywords.1 (hgaps gap)
  have hrenamed : d ∉ l.renamed i.newName := by
    unfold ModuleImport.Layout.renamed
    cases hn : i.newName with
    | none => exact List.not_mem_nil
    | some n =>
      simp only [Option.elim_some, List.mem_append, not_or]
      exact ⟨⟨⟨⟨hgaps _, hkeywords.2⟩, hgaps _⟩, hnewMark⟩, hnewName n hn⟩
  simp only [ModuleImport.symbolText, List.mem_append, not_or]
  exact ⟨⟨⟨⟨hlead, hmark⟩, hname⟩, hrenamed⟩, htrail⟩

theorem clear_endsSymbol {symbol : List Char} (h : '}' ∉ symbol) (after : List Char) :
    Text.Clear EndsSymbol symbol after := by
  rintro x y rfl hy ⟨rest, _, hrest, -⟩
  obtain ⟨c, y, rfl⟩ := List.exists_cons_of_ne_nil hy
  obtain ⟨rfl, -⟩ := List.cons.inj hrest
  exact h (by simp)

theorem moduleImport?_of_symbol? {symbol module name : List Char} {newName : Option (List Char)}
    {viewOf : Bool} {n s : String} (hsymbol : symbol? symbol = some (viewOf, name, newName))
    (hname : Text.nonBlank? name = some n) (hmodule : Text.nonBlank? module = some s) :
    moduleImport? symbol module = some (.fromModule ⟨n, newName.map String.ofList, s, viewOf⟩) := by
  rw [moduleImport?, hsymbol]
  dsimp only [bind, Option.bind_some]
  rw [hname, hmodule]
  rfl

theorem read?_print {i : ModuleImport} (hi : i.Writable) {l : ModuleImport.Layout} (hlead : '\n' ∉ l.lead) :
    read? (i.print l) = some (.fromModule i) := by
  have hword {d : Char} (hd : Text.isWord d = false) : ∀ n ∈ i.newName, d ∉ n.toList := by
    intro n hn hm
    simp [hi.newName_word n hn d hm] at hd
  have hline : '\n' ∉ i.symbolText l :=
    not_mem_symbolText hlead (by decide) (fun hm => absurd (hi.name_chars _ hm).1 (by decide))
      (hword (by decide)) LineGap.inLine l.trail_line
  have hbrace : '}' ∉ i.symbolText l :=
    not_mem_symbolText (fun hm => absurd (l.lead_blank _ hm) (by decide)) (by decide)
      (fun hm => (hi.name_chars _ hm).2.2 rfl) (hword (by decide))
      (fun gap hm => absurd (gap.isGap.2 _ hm) (by decide)) (fun hm => absurd (l.trail_blank _ hm) (by decide))
  have hkeyed : Keyed "from".toList
      (l.beforeFrom.text ++ "from".toList ++ l.afterFrom.text ++ i.specifier.toList) i.specifier.toList :=
    ⟨_, _, l.beforeFrom.isGap, l.afterFrom.isGap, rfl⟩
  have hclause := moduleClause?_of_form List.not_mem_nil hline hkeyed (clear_endsSymbol hbrace _)
  rw [List.nil_append, Text.trimStart_eq_self_iff.mpr (Text.trim_eq_self_iff.mp hi.specifier_trim).1,
    untilBreak_of_line hi.specifier_line] at hclause
  obtain ⟨name, hsymbol, hname⟩ := exists_symbol? hi l
  have hmodule := Text.nonBlank?_of_trim_eq hi.specifier_trim hi.specifier_ne
  rw [ModuleImport.print, read?, hclause]
  refine (moduleImport?_of_symbol? hsymbol hname hmodule).trans ?_
  simp [Option.map_map, Function.comp_def]

private theorem moduleClause?_of_not_mem {cs : List Char} (h : '{' ∉ cs) : moduleClause? cs = none := by
  induction cs with
  | nil => rfl
  | cons c cs ih =>
    rw [moduleClause?, if_neg fun hc : c = '{' => h (hc ▸ List.mem_cons_self)]
    exact ih fun hm => h (List.mem_cons_of_mem _ hm)

private theorem read?_print_load {i : FetchImport} (hi : i.Writable) {gap gap' : List Char} (hgap : Gap gap)
    (hgap' : Gap gap') : read? (i.print gap gap') = some (.load i) := by
  have hblank {d : Char} (hd : Text.isBlank d = false) {g : List Char} (hg : Gap g) : d ∉ g := by
    intro hm
    simp [hg.2 d hm] at hd
  have hbrace : '{' ∉ i.print gap gap' := by
    simp only [FetchImport.print, List.mem_append, not_or]
    exact ⟨fun hm => (hi.name_chars _ hm).2 rfl, ⟨⟨hblank (by decide) hgap, by decide⟩,
      hblank (by decide) hgap'⟩, hi.origin_brace⟩
  have hkeyed : Keyed "load".toList (gap ++ "load".toList ++ gap' ++ i.origin.toList) i.origin.toList :=
    ⟨gap, gap', hgap, hgap', rfl⟩
  have hchars : ∀ c ∈ i.name.toList, Text.isBlank c = false := fun c hc => (hi.name_chars c hc).1
  have hclear (after : List Char) :
      Text.Clear (fun text => ∃ rest, Keyed "load".toList text rest) i.name.toList after := by
    rintro x y hxy hy ⟨_, g, _, hg, -, heq⟩
    obtain ⟨c, y, rfl⟩ := List.exists_cons_of_ne_nil hy
    obtain ⟨d, g, rfl⟩ := List.exists_cons_of_ne_nil hg.1
    obtain ⟨rfl, -⟩ := List.cons.inj heq
    have hc := hchars c (hxy ▸ by simp)
    simp [hg.2 c List.mem_cons_self] at hc
  have hclause := loadClause?_of_form (fun hm => absurd (hchars _ hm) (by decide)) hkeyed (hclear _)
  rw [Text.trimStart_eq_self_iff.mpr (Text.trim_eq_self_iff.mp hi.origin_trim).1,
    untilBreak_of_line hi.origin_line]
    at hclause
  have hname := Text.nonBlank?_of_trim_eq (trim_of_not_blank hchars) hi.name_ne
  have horigin := Text.nonBlank?_of_trim_eq hi.origin_trim hi.origin_ne
  rw [read?, moduleClause?_of_not_mem hbrace, FetchImport.print, hclause]
  dsimp only [Option.bind_some, fetchImport?, bind]
  rw [hname, horigin]
  rfl

/-- An import that is written on a line is read again, with any white space between its words. The
one blank that may stand behind the brace is any but a line feed, since a symbol stands on one line. -/
theorem parse_print :
    (∀ (i : ModuleImport) (l : ModuleImport.Layout), i.Writable → '\n' ∉ l.lead →
      parse (i.print l) = .ok (.fromModule i)) ∧
    ∀ (i : FetchImport) (gap gap' : List Char), i.Writable → Gap gap → Gap gap' →
      parse (i.print gap gap') = .ok (.load i) := by
  constructor
  · intro i l hi hlead
    rw [parse, read?_print hi hlead]
  · intro i gap gap' hi hgap hgap'
    rw [parse, read?_print_load hi hgap hgap']

/-- Keywords as names, and a load over three lines. -/
theorem parse_print_keywords :
    (∃ l : ModuleImport.Layout, '\n' ∉ l.lead ∧
      (⟨"as", some "viewof", "from m", true⟩ : ModuleImport).print l =
        "\x7b viewof as\tas viewof\rviewof\x7d from from m".toList ∧
      parse ((⟨"as", some "viewof", "from m", true⟩ : ModuleImport).print l) =
        .ok (.fromModule ⟨"as", some "viewof", "from m", true⟩)) ∧
    parse "load\nload\nx load y".toList = .ok (.load ⟨"load", "x load y"⟩) := by
  have hi : (⟨"as", some "viewof", "from m", true⟩ : ModuleImport).Writable := {
    name_ne := by decide
    name_chars := by simp; decide
    name_viewof := by decide
    newName_ne := by simp
    newName_word := by simp; decide
    specifier_ne := by decide
    specifier_trim := by decide +kernel
    specifier_line := by decide }
  have hload : (⟨"load", "x load y"⟩ : FetchImport).Writable := {
    name_ne := by decide
    name_chars := by simp; decide
    origin_ne := by decide
    origin_trim := by decide +kernel
    origin_line := by decide
    origin_brace := by decide }
  have hgap : Gap ['\n'] := ⟨by decide, List.forall_mem_singleton.mpr (by decide)⟩
  exact ⟨⟨.plain ' ' (by decide), by decide, by decide, parse_print.1 _ _ hi (by decide)⟩,
    parse_print.2 ⟨"load", "x load y"⟩ _ _ hload hgap hgap⟩

/-- With a line feed behind the brace the line is refused. -/
theorem parse_print_line_feed : ∃ (i : ModuleImport) (l : ModuleImport.Layout), i.Writable ∧
    i.print l = "\x7b\na\x7d from m".toList ∧
    parse (i.print l) = .error (.importSyntax "\x7b\na\x7d from m") := by
  have hi : (⟨"a", none, "m", false⟩ : ModuleImport).Writable := {
    name_ne := by decide
    name_chars := by simp; decide
    name_viewof := by decide
    newName_ne := by simp
    newName_word := by simp
    specifier_ne := by decide
    specifier_trim := by decide +kernel
    specifier_line := by decide }
  have hprint : (⟨"a", none, "m", false⟩ : ModuleImport).print (.plain '\n' (by decide)) =
    "\x7b\na\x7d from m".toList := by decide
  have hread : read? "\x7b\na\x7d from m".toList = none := by decide +kernel
  have htrim : String.ofList (Text.trim "\x7b\na\x7d from m".toList) = "\x7b\na\x7d from m" := by
    decide +kernel
  exact ⟨_, _, hi, hprint, by rw [hprint, parse, hread, htrim]⟩

end ImportLine

end Notebook
