import Notebook.Proofs.ImportPrinting

/-! White space behind the brace of a symbol import. One blank is passed over before a symbol is read,
and more of them count as the start of its name: a `viewof` behind them is a part of the name. -/
namespace Notebook.ImportLine

def lineOf (symbol module : List Char) : List Char :=
  '{' :: (symbol ++ '}' :: (" from ".toList ++ module))

def Renames (s : List Char) : Prop :=
  ∃ gap c rest, Gap gap ∧ Text.isWord c ∧ s = "as".toList ++ (gap ++ c :: rest)

/-- The import that a symbol writes if `viewof` is a name like others. -/
def plainImport (s : List Char) (specifier : String) : ModuleImport where
  name := String.ofList (Text.trim (names s).1)
  newName := (names s).2.map String.ofList
  specifier := specifier
  viewOf := false

section Names
variable {w s : List Char}

/-- Behind white space a text is read as a new name just if it starts with `as`. -/
theorem isSome_newName?_iff (hw : Gap w) (hs : ∀ c ∈ s.head?, Text.isBlank c = false) :
    (newName? (w ++ s)).isSome ↔ Renames s := by
  constructor
  · intro h
    obtain ⟨name, hname⟩ := Option.isSome_iff_exists.mp h
    obtain ⟨gap, gap', viewOf, mark, after, hgap, hgap', hmark, heq, hne, hword, -⟩ := eq_of_newName? hname
    simp only [List.append_assoc] at heq
    have has := not_isBlank_head (a := "as".toList) (by decide) (by simp; decide)
    obtain ⟨-, rfl⟩ := Text.run_append_inj hw.2 hgap.2 hs (has _) heq
    cases hmark with
    | absent =>
      obtain ⟨c, name, rfl⟩ := List.exists_cons_of_ne_nil hne
      exact ⟨gap', c, name ++ after, hgap', hword c List.mem_cons_self, rfl⟩
    | present => exact ⟨gap', 'v', _, hgap', by decide, rfl⟩
  · rintro ⟨gap, c, rest, hgap, hc, rfl⟩
    have hkeyed : Keyed "as".toList (w ++ ("as".toList ++ (gap ++ c :: rest))) (c :: rest) :=
      ⟨w, gap, hw, hgap, by simp only [List.append_assoc]⟩
    rw [newName?_of_keyed hkeyed (by simpa using Text.isBlank_of_isWord hc)]
    cases ((Text.after? "viewof".toList (c :: rest)).bind afterBlanks?).bind word? with
    | some word => rfl
    | none => simp [word?, hc]

private theorem names_cons_of_not_blank {c : Char} (hc : Text.isBlank c = false) (cs : List Char) :
    names (c :: cs) = (c :: (names cs).1, (names cs).2) := by
  rw [names_cons, newName?_of_not_blank hc]

/-- White space in front of a name belongs to it, if no new name follows at once. -/
theorem names_blanks_append (hw : Blank w) (hs : ∀ c ∈ s.head?, Text.isBlank c = false)
    (h : w = [] ∨ ¬ Renames s) : names (w ++ s) = (w ++ (names s).1, (names s).2) := by
  refine names_append ?_
  rintro x y rfl hy hsome
  rcases h with h | h
  · exact hy (List.append_eq_nil_iff.mp h).2
  · exact h ((isSome_newName?_iff ⟨hy, fun c hc => hw c (List.mem_append_right x hc)⟩ hs).mp hsome)

end Names

section Symbol
variable {w s : List Char} {c : Char}

private theorem symbol?_of_not_blank (hc : Text.isBlank c = false) (rest : List Char) :
    symbol? (c :: rest) = (viewStarts (c :: rest)).findSome? started := by
  have hlead : Blank [] := List.forall_mem_nil _
  exact symbol?_of_lead hlead (Nat.zero_le 1) hc rest

private theorem symbol?_of_few (hw : Blank w) (hlength : w.length ≤ 1) (hc : Text.isBlank c = false)
    (rest : List Char) : symbol? (w ++ c :: rest) = symbol? (c :: rest) :=
  (symbol?_of_lead hw hlength hc rest).trans (symbol?_of_not_blank hc rest).symm

/-- The second blank is the start of a name. -/
theorem symbol?_of_many {b b' : Char} (hb : Text.isBlank b) (hb' : Text.isBlank b') (cs : List Char) :
    symbol? (b :: b' :: cs) = some (false, b' :: (names cs).1, (names cs).2) := by
  have hunmarked : viewStarts (b' :: cs) = [(false, b' :: cs)] := by
    refine viewStarts_of_unmarked fun d rest _ heq => ?_
    obtain ⟨rfl, -⟩ := List.cons.inj heq
    revert hb'
    decide
  rw [symbol?_eq]
  dsimp only [symbolStarts]
  rw [hb, if_pos rfl, hunmarked, List.cons_append, List.findSome?_cons]
  rfl

/-- A symbol without a mark is read as a name from its start. -/
theorem eq_names_of_symbol? {name : List Char} {newName : Option (List Char)}
    (hc : Text.isBlank c = false) (rest : List Char)
    (h : symbol? (c :: rest) = some (false, name, newName)) : names (c :: rest) = (name, newName) := by
  rw [symbol?_of_not_blank hc] at h
  obtain ⟨⟨viewOf, text⟩, hmem, hread⟩ := List.exists_of_findSome?_eq_some h
  obtain ⟨mark, hmark, heq⟩ := viewMark_of_mem_viewStarts hmem
  cases text with
  | nil => cases hread
  | cons d text =>
    cases hread
    cases hmark
    obtain ⟨rfl, rfl⟩ := List.cons.inj heq
    exact names_cons_of_not_blank hc rest

/-- A symbol that is read as a view starts with its mark. -/
theorem viewof_of_symbol? {name : List Char} {newName : Option (List Char)}
    (hc : Text.isBlank c = false) (rest : List Char)
    (h : symbol? (c :: rest) = some (true, name, newName)) :
    ∃ text, c :: rest = "viewof".toList ++ text := by
  obtain ⟨lead, mark, tail, hlead, hmark, heq, -⟩ := eq_of_symbol? h
  cases hmark with
  | present hgap =>
    simp only [List.append_assoc] at heq
    have hview := not_isBlank_head (a := "viewof".toList) (by decide) (by simp; decide)
    have hnil : Blank [] := List.forall_mem_nil _
    exact ⟨_, (Text.run_append_inj hnil hlead (by simpa using hc) (hview _) heq).2⟩

end Symbol

section Import
variable {w s module : List Char} {b b' c : Char} {specifier : String}

/-- Trimming leaves a start alone that has no white space at either end. -/
theorem prefix_trim_append {a : List Char} (hne : a ≠ []) (ha : Text.trim a = a) (cs : List Char) :
    a <+: Text.trim (a ++ cs) := by
  obtain ⟨hhead, hlast⟩ := Text.trim_eq_self_iff.mp ha
  have hend : a.reverse.dropWhile Text.isBlank = a.reverse :=
    Text.trimStart_eq_self_iff.mpr (by simpa using hlast)
  rw [Text.trim, Text.trimStart_eq_self_iff.mpr (not_isBlank_head hne hhead cs), Text.trimEnd,
    List.reverse_append, List.dropWhile_append]
  split
  · rw [hend, List.reverse_reverse]
  · rw [List.reverse_append, List.reverse_reverse]
    exact List.prefix_append a _

/-- A symbol that a `viewof` starts has it in its name, if it is read as a name like others. -/
theorem viewof_prefix_plainImport (text : List Char) (specifier : String) :
    "viewof".toList <+: (plainImport ("viewof".toList ++ text) specifier).name.toList := by
  have hwords : "viewof".toList.all Text.isWord = true := by decide
  have hchars : ∀ c ∈ "viewof".toList, Text.isBlank c = false :=
    fun c hc => Text.isBlank_of_isWord (List.all_eq_true.mp hwords c hc)
  have hname : (plainImport ("viewof".toList ++ text) specifier).name.toList =
      Text.trim ("viewof".toList ++ (names text).1) := by
    rw [plainImport, names_append (clear_newName?_of_not_blank hchars text)]
    exact String.toList_ofList
  rw [hname]
  exact prefix_trim_append (by decide) (trim_of_not_blank hchars) _

private theorem moduleImport?_of_few (hw : Blank w) (hlength : w.length ≤ 1) (hc : Text.isBlank c = false)
    (rest : List Char) : moduleImport? (w ++ c :: rest) module = moduleImport? (c :: rest) module := by
  rw [moduleImport?, symbol?_of_few hw hlength hc rest]
  rfl

private theorem moduleImport?_of_many (hb : Text.isBlank b) (hb' : Text.isBlank b') (hw : Blank w)
    (hc : Text.isBlank c = false) {rest : List Char} (h : w = [] ∨ ¬ Renames (c :: rest))
    (hmodule : Text.nonBlank? module = some specifier) :
    moduleImport? (b :: b' :: (w ++ c :: rest)) module =
      some (.fromModule (plainImport (c :: rest) specifier)) := by
  have hnames := names_blanks_append hw (by simpa using hc) h
  have hblanks : Blank (b' :: w) := List.forall_mem_cons.mpr ⟨hb', hw⟩
  have hname : Text.nonBlank? (b' :: (names (w ++ c :: rest)).1) =
      some (plainImport (c :: rest) specifier).name := by
    rw [hnames, ← List.cons_append, Text.nonBlank?_eq_some_iff, Text.trim_blanks_append hblanks, plainImport,
      String.toList_ofList]
    refine ⟨fun hnil => ?_, rfl⟩
    have hblank := Text.trim_eq_nil_iff.mp hnil c (by simp [names_cons_of_not_blank hc])
    simp [hc] at hblank
  rw [moduleImport?_of_symbol? (symbol?_of_many hb hb' _) hname hmodule, hnames]
  rfl

/-- The second of three blanks is the whole name in front of an `as`. -/
theorem moduleImport?_of_renames (hb : Text.isBlank b) (hb' : Text.isBlank b') (hw : Gap w)
    (h : Renames s) : moduleImport? (b :: b' :: (w ++ s)) module = none := by
  have hs : ∀ c ∈ s.head?, Text.isBlank c = false := by
    obtain ⟨gap, c, rest, -, -, rfl⟩ := h
    exact not_isBlank_head (by decide) (by simp; decide) _
  obtain ⟨newName, hnew⟩ := Option.isSome_iff_exists.mp ((isSome_newName?_iff hw hs).mpr h)
  refine Option.eq_none_iff_forall_ne_some.mpr fun line hline => ?_
  obtain ⟨i, name, _, -, hsymbol, hname, -⟩ := eq_of_moduleImport? hline
  rw [symbol?_of_many hb hb', names_of_newName? hnew] at hsymbol
  obtain ⟨-, rfl, -⟩ : _ ∧ [b'] = name ∧ _ := by simpa using hsymbol
  rw [nonBlank?_of_blank (List.forall_mem_singleton.mpr hb')] at hname
  cases hname

/-- A symbol that is read as an import is read so without a look at its mark just if it has none. -/
theorem plainImport_eq_iff {i : ModuleImport} (hc : Text.isBlank c = false) {rest : List Char}
    (h : moduleImport? (c :: rest) module = some (.fromModule i)) :
    plainImport (c :: rest) i.specifier = i ↔ i.viewOf = false := by
  constructor
  · intro heq
    rw [← heq]
    rfl
  · intro hview
    obtain ⟨_, name, newName, hi, hsymbol, hname, -, hnew⟩ := eq_of_moduleImport? h
    cases hi
    rw [hview] at hsymbol
    have htrim := (Text.nonBlank?_eq_some_iff.mp hname).2
    rw [plainImport, eq_names_of_symbol? hc rest hsymbol, ← htrim, String.ofList_toList, ← hnew, ← hview]

private theorem not_renames_of_view {text : List Char} : ¬ Renames ("viewof".toList ++ text) := by
  rintro ⟨gap, c, rest, -, -, heq⟩
  exact absurd (List.cons.inj heq).1 (by decide)

end Import

private theorem read?_lineOf {s : List Char} (hline : '\n' ∉ s) (hbrace : '}' ∉ s) (m : List Char) :
    read? (lineOf s m) = moduleImport? s (untilBreak (Text.trimStart m)) := by
  have hspace : Gap [' '] := ⟨by decide, List.forall_mem_singleton.mpr (by decide)⟩
  have hkeyed : Keyed "from".toList (" from ".toList ++ m) m := ⟨[' '], [' '], hspace, hspace, rfl⟩
  have hclause := moduleClause?_of_form List.not_mem_nil hline hkeyed (clear_endsSymbol hbrace _)
  rw [List.nil_append] at hclause
  rw [lineOf, read?, hclause]

private theorem parse_eq_ok_iff {line : List Char} {parsed : ImportLine} :
    parse line = .ok parsed ↔ read? line = some parsed := by
  rw [parse_eq]
  cases read? line with
  | none => exact ⟨nofun, nofun⟩
  | some read => simp

/-- White space between the brace and a symbol that is read without it. It does not matter if it is at
most one blank. More of it turns a view into an import under a name that starts with `viewof`, and a
third blank takes the place of a name in front of an `as`. -/
theorem parse_spaced (w s m : List Char) (parsed : ImportLine) (hw : Blank w) (hwline : '\n' ∉ w)
    (hs : ∃ c ∈ s.head?, Text.isBlank c = false) (hbrace : '}' ∉ s) (hsline : '\n' ∉ s)
    (h : parse (lineOf s m) = .ok parsed) : ∃ i, parsed = .fromModule i ∧
      (parse (lineOf (w ++ s) m) = .ok parsed ↔
        w.length ≤ 1 ∨ (i.viewOf = false ∧ (w.length = 2 ∨ ¬ Renames s))) ∧
      (1 < w.length → i.viewOf → ∃ name newName, "viewof".toList <+: name.toList ∧
        parse (lineOf (w ++ s) m) = .ok (.fromModule ⟨name, newName, i.specifier, false⟩)) ∧
      (2 < w.length → Renames s → parse (lineOf (w ++ s) m) = malformed (lineOf (w ++ s) m)) := by
  obtain ⟨c, hhead, hc⟩ := hs
  obtain ⟨rest, rfl⟩ := List.head?_eq_some_iff.mp hhead
  have hline : '\n' ∉ w ++ c :: rest := fun hm => (List.mem_append.mp hm).elim hwline hsline
  have hclose : '}' ∉ w ++ c :: rest := fun hm =>
    (List.mem_append.mp hm).elim (fun hm => absurd (hw _ hm) (by decide)) hbrace
  rw [parse_eq_ok_iff, read?_lineOf hsline hbrace] at h
  rw [parse_eq_ok_iff, parse_eq, read?_lineOf hline hclose]
  generalize untilBreak (Text.trimStart m) = module at h ⊢
  obtain ⟨i, name, newName, rfl, hsymbol, -, hmodule, -⟩ := eq_of_moduleImport? h
  refine ⟨i, rfl, ?_⟩
  have hview (hi : i.viewOf = true) : ∃ text, c :: rest = "viewof".toList ++ text :=
    viewof_of_symbol? hc rest (hi ▸ hsymbol)
  by_cases hfew : w.length ≤ 1
  · rw [moduleImport?_of_few hw hfew hc, h]
    exact ⟨iff_of_true rfl (.inl hfew), fun hlt => absurd hfew (by omega), fun hlt => absurd hfew (by omega)⟩
  obtain ⟨b, b', w, rfl⟩ : ∃ b b' w', w = b :: b' :: w' := by
    rcases w with _ | ⟨b, _ | ⟨b', w⟩⟩
    · exact absurd (Nat.zero_le 1) hfew
    · exact absurd (Nat.le_refl 1) hfew
    · exact ⟨b, b', w, rfl⟩
  obtain ⟨hb, hb', hw⟩ : Text.isBlank b ∧ Text.isBlank b' ∧ Blank w := by
    rwa [Blank, List.forall_mem_cons, List.forall_mem_cons] at hw
  rw [List.cons_append, List.cons_append]
  by_cases hfree : w = [] ∨ ¬ Renames (c :: rest)
  -- The rest of the blanks belongs to the name, and so does a mark behind them.
  · have hsame : some (fromModule (plainImport (c :: rest) i.specifier)) = some (fromModule i) ↔
        i.viewOf = false := by
      simpa using plainImport_eq_iff hc h
    rw [moduleImport?_of_many hb hb' hw hc hfree hmodule, hsame]
    refine ⟨⟨fun hi => .inr ⟨hi, hfree.imp_left ?_⟩, ?_⟩, fun _ hi => ?_, fun hlt hrenames => ?_⟩
    · rintro rfl
      rfl
    · rintro (hle | ⟨hi, -⟩)
      · exact absurd hle hfew
      · exact hi
    · obtain ⟨text, htext⟩ := hview hi
      exact ⟨_, _, htext ▸ viewof_prefix_plainImport text i.specifier, rfl⟩
    · rcases hfree with rfl | hfree
      · simp at hlt
      · exact absurd hrenames hfree
  · rw [not_or, not_not] at hfree
    rw [moduleImport?_of_renames hb hb' ⟨hfree.1, hw⟩ hfree.2]
    refine ⟨iff_of_false (Option.some_ne_none _).symm ?_, fun _ hi => ?_, fun _ _ => rfl⟩
    · have hpos := List.length_pos_iff.mpr hfree.1
      simp only [List.length_cons]
      rintro (hle | ⟨-, hle | hnot⟩)
      · omega
      · omega
      · exact hnot hfree.2
    · obtain ⟨text, htext⟩ := hview hi
      exact absurd (htext ▸ hfree.2) not_renames_of_view

/-- A view with two blanks in front of it. -/
theorem parse_spaced_view :
    '\n' ∉ "  ".toList ∧ parse (lineOf "viewof a".toList "m".toList) = .ok (.fromModule ⟨"a", none, "m", true⟩) ∧
      ∃ name newName, "viewof".toList <+: name.toList ∧
        parse (lineOf ("  ".toList ++ "viewof a".toList) "m".toList) =
          .ok (.fromModule ⟨name, newName, "m", false⟩) := by
  have hplain : parse (lineOf "viewof a".toList "m".toList) = .ok (.fromModule ⟨"a", none, "m", true⟩) :=
    parse_eq_ok_iff.mpr (by decide +kernel)
  have hblank : Blank "  ".toList := List.all_eq_true.mp (by decide)
  obtain ⟨i, hi, -, hview, -⟩ := parse_spaced "  ".toList "viewof a".toList "m".toList _ hblank (by decide)
    ⟨'v', rfl, by decide⟩ (by decide) (by decide) hplain
  cases hi
  exact ⟨by decide, hplain, hview (by decide) rfl⟩

/-- Two blanks in front of a view are enough to turn it into a plain import. -/
theorem parse_spaced_drops_view :
    parse (lineOf "viewof a".toList "m".toList) = .ok (.fromModule ⟨"a", none, "m", true⟩) ∧
      parse (lineOf ("  ".toList ++ "viewof a".toList) "m".toList) =
        .ok (.fromModule ⟨"viewof a", none, "m", false⟩) :=
  ⟨parse_eq_ok_iff.mpr (by decide +kernel), parse_eq_ok_iff.mpr (by decide +kernel)⟩

end Notebook.ImportLine
