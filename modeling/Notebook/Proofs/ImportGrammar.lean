import Notebook.ImportLine
import Notebook.Proofs.Text

/-! What the line of a module import may hold. The parts that are read stand in the order of the
grammar, but the grammar does not cover the whole line: there may be text before the brace that opens
and between a new name and the brace that closes. -/
namespace Notebook

def Blank (cs : List Char) : Prop :=
  ∀ c ∈ cs, Text.isBlank c

def Gap (cs : List Char) : Prop :=
  cs ≠ [] ∧ Blank cs

section Gaps
variable {a b : List Char}

theorem Blank.append (ha : Blank a) (hb : Blank b) : Blank (a ++ b) :=
  List.forall_mem_append.mpr ⟨ha, hb⟩

theorem Gap.append_blank (ha : Gap a) (hb : Blank b) : Gap (a ++ b) :=
  ⟨List.append_ne_nil_of_left_ne_nil ha.1 b, ha.2.append hb⟩

private theorem Blank.append_gap (ha : Blank a) (hb : Gap b) : Gap (a ++ b) :=
  ⟨List.append_ne_nil_of_right_ne_nil a hb.1, ha.append hb.2⟩

theorem Blank.not_isWord_head (h : Blank a) : ∀ c ∈ a.head?, Text.isWord c = false := by
  intro c hc
  refine Bool.eq_false_iff.mpr fun hw => ?_
  simpa [Text.isBlank_of_isWord hw] using h c (List.mem_of_mem_head? hc)

theorem not_isBlank_head (hne : a ≠ []) (ha : ∀ c ∈ a.head?, Text.isBlank c = false) (b : List Char) :
    ∀ c ∈ (a ++ b).head?, Text.isBlank c = false := by
  rwa [List.head?_append_of_ne_nil a hne]

private theorem not_isBlank_getLast (hne : a ≠ []) (ha : ∀ c ∈ a.getLast?, Text.isBlank c = false)
    (b : List Char) : ∀ c ∈ (b ++ a).getLast?, Text.isBlank c = false := by
  rwa [List.getLast?_append_of_ne_nil b hne]

/-- The text does not start with a `viewof` that a word follows. -/
def Unmarked (cs : List Char) : Prop :=
  ∀ gap c rest, Gap gap → Text.isWord c → cs ≠ "viewof".toList ++ gap ++ c :: rest

end Gaps

inductive ViewMark : Bool → List Char → Prop
  | absent : ViewMark false []
  | present {gap : List Char} : Gap gap → ViewMark true ("viewof".toList ++ gap)

/-- `as` and a new name, if there is one. `viewof` may stand before it. -/
inductive Renaming : Option String → List Char → Prop
  | absent : Renaming none []
  | present {gap gap' mark : List Char} {viewOf : Bool} {name : String} : Gap gap → Gap gap' →
      ViewMark viewOf mark →
      Renaming (some name) (gap ++ "as".toList ++ gap' ++ mark ++ name.toList)

namespace ModuleImport

def SymbolWritten (i : ModuleImport) (after symbol : List Char) : Prop :=
  ∃ lead mark renamed, Blank lead ∧ ViewMark i.viewOf mark ∧ Renaming i.newName renamed ∧
    symbol = lead ++ mark ++ i.name.toList ++ renamed ++ after

/-- A line with the parts of an import in their order, with `before` in front of the brace that opens
and `after` in front of the brace that closes. -/
def WrittenBetween (i : ModuleImport) (before after line : List Char) : Prop :=
  ∃ symbol gap gap' last, i.SymbolWritten after symbol ∧ Gap gap ∧ Gap gap' ∧ Blank last ∧
    line = before ++ '{' :: (symbol ++ ['}'] ++ gap ++ "from".toList ++ gap' ++
      i.specifier.toList ++ last)

/-- A line of the grammar: white space, and between it just the parts of the import. -/
def Written (i : ModuleImport) (line : List Char) : Prop :=
  ∃ before after, Blank before ∧ Blank after ∧ i.WrittenBetween before after line

end ModuleImport

namespace ImportLine

theorem afterBlanks?_eq_some_iff {cs rest : List Char} : afterBlanks? cs = some rest ↔
    (∀ c ∈ rest.head?, Text.isBlank c = false) ∧ ∃ gap, Gap gap ∧ cs = gap ++ rest := by
  unfold afterBlanks?
  constructor
  · intro h
    split at h
    · rename_i hblank
      obtain rfl := Option.some.inj h
      refine ⟨Text.isBlank_head_trimStart cs, cs.takeWhile Text.isBlank, ⟨?_, fun c => List.mem_takeWhile_imp⟩,
        (List.takeWhile_append_dropWhile).symm⟩
      cases cs with
      | nil => simp at hblank
      | cons c cs => simp_all
    · cases h
  · rintro ⟨hrest, gap, hgap, rfl⟩
    obtain ⟨c, more, rfl⟩ := List.exists_cons_of_ne_nil hgap.1
    have hc := hgap.2 c List.mem_cons_self
    rw [if_pos (by simpa using hc), Text.trimStart, Text.dropWhile_append_run hgap.2 hrest]

theorem eq_of_afterKeyword? {keyword cs rest : List Char} (h : afterKeyword? keyword cs = some rest) :
    (∀ c ∈ rest.head?, Text.isBlank c = false) ∧ ∃ gap gap', Gap gap ∧ Gap gap' ∧
      cs = gap ++ keyword ++ gap' ++ rest := by
  obtain ⟨middle, hmiddle, hafter⟩ := Option.bind_eq_some_iff.mp h
  obtain ⟨start, hstart, hkey⟩ := Option.bind_eq_some_iff.mp hmiddle
  obtain ⟨-, gap, hgap, rfl⟩ := afterBlanks?_eq_some_iff.mp hstart
  obtain rfl := Text.after?_eq_some_iff.mp hkey
  obtain ⟨hrest, gap', hgap', rfl⟩ := afterBlanks?_eq_some_iff.mp hafter
  exact ⟨hrest, gap, gap', hgap, hgap', by simp only [List.append_assoc]⟩

theorem untilBreak_of_line {cs : List Char} (h : '\n' ∉ cs) : untilBreak cs = cs := by
  refine List.takeWhile_eq_self_iff.mpr fun c hc => ?_
  simpa using fun he : c = '\n' => h (he ▸ hc)

/-- `search` tries `read` at one place after the other, up to the end of the line. It gives what it
has passed over together with what is read. -/
structure Scans {A : Type} (read : List Char → Option A)
    (search : List Char → Option (List Char × A)) : Prop where
  read_nil : read [] = none
  search_nil : search [] = none
  found : ∀ {c cs r}, read (c :: cs) = some r → search (c :: cs) = some ([], r)
  passed : ∀ {c cs}, read (c :: cs) = none →
    search (c :: cs) = if c = '\n' then none else (search cs).map (Prod.map (c :: ·) id)

namespace Scans
variable {A : Type} {read : List Char → Option A} {search : List Char → Option (List Char × A)}
  {cs before : List Char} {r : A}

/-- A search ends at the first place where something can be read. -/
theorem eq_some_iff (h : Scans read search) : search cs = some (before, r) ↔
    ∃ rest, cs = before ++ rest ∧ '\n' ∉ before ∧ read rest = some r ∧
      Text.Clear (fun text => (read text).isSome) before rest := by
  induction cs generalizing before with
  | nil =>
    rw [h.search_nil]
    refine ⟨nofun, ?_⟩
    rintro ⟨rest, hrest, -, hread, -⟩
    obtain ⟨-, rfl⟩ := List.append_eq_nil_iff.mp hrest.symm
    rw [h.read_nil] at hread
    cases hread
  | cons c cs ih =>
    cases hread : read (c :: cs) with
    | some r' =>
      rw [h.found hread, Option.some.injEq, Prod.mk.injEq]
      constructor
      · rintro ⟨rfl, rfl⟩
        exact ⟨c :: cs, rfl, List.not_mem_nil, hread, Text.clear_nil⟩
      · rintro ⟨rest, hrest, -, hr, hclear⟩
        cases before with
        | nil =>
          obtain rfl : c :: cs = rest := hrest
          exact ⟨rfl, Option.some.inj (hread.symm.trans hr)⟩
        | cons d before =>
          refine absurd ?_ (Text.clear_cons.mp hclear).1
          rw [← hrest, hread]
          rfl
    | none =>
      rw [h.passed hread]
      constructor
      · intro hs
        split at hs
        · cases hs
        · rename_i hc
          obtain ⟨⟨b, r'⟩, hb, he⟩ := Option.map_eq_some_iff.mp hs
          cases he
          obtain ⟨rest, rfl, hb, hr, hclear⟩ := ih.mp hb
          refine ⟨rest, rfl, ?_, hr, Text.clear_cons.mpr ⟨?_, hclear⟩⟩
          · rintro (_ | ⟨_, hm⟩)
            · exact hc rfl
            · exact hb hm
          · rw [List.cons_append, hread]
            exact Bool.false_ne_true
      · rintro ⟨rest, hrest, hb, hr, hclear⟩
        cases before with
        | nil =>
          obtain rfl : c :: cs = rest := hrest
          cases hread.symm.trans hr
        | cons d before =>
          obtain ⟨rfl, rfl⟩ := List.cons.inj hrest
          have hs := ih.mpr ⟨rest, rfl, fun hm => hb (List.mem_cons_of_mem _ hm), hr,
            (Text.clear_cons.mp hclear).2⟩
          rw [if_neg fun hc : c = '\n' => hb (hc ▸ List.mem_cons_self), hs]
          rfl

theorem isSome_of_append (h : Scans read search) (hbefore : '\n' ∉ before) {rest : List Char}
    (hrest : (read rest).isSome) : (search (before ++ rest)).isSome := by
  induction before with
  | nil =>
    cases rest with
    | nil => simp [h.read_nil] at hrest
    | cons c rest =>
      obtain ⟨r, hr⟩ := Option.isSome_iff_exists.mp hrest
      rw [List.nil_append, h.found hr]
      rfl
  | cons c before ih =>
    rw [List.cons_append]
    cases hread : read (c :: (before ++ rest)) with
    | some r =>
      rw [h.found hread]
      rfl
    | none =>
      rw [h.passed hread, if_neg fun hc : c = '\n' => hbefore (hc ▸ List.mem_cons_self), Option.isSome_map]
      exact ih fun hm => hbefore (List.mem_cons_of_mem _ hm)

/-- Something is found however the line starts. -/
theorem isSome_append (h : Scans read search) (hbefore : '\n' ∉ before) (hcs : (search cs).isSome) :
    (search (before ++ cs)).isSome := by
  obtain ⟨⟨first, r⟩, hfirst⟩ := Option.isSome_iff_exists.mp hcs
  obtain ⟨rest, rfl, hline, hread, -⟩ := h.eq_some_iff.mp hfirst
  rw [← List.append_assoc]
  refine h.isSome_of_append ?_ (Option.isSome_of_mem hread)
  exact fun hm => (List.mem_append.mp hm).elim hbefore hline

end Scans

def closing? : List Char → Option (List Char)
  | [] => none
  | c :: cs => if c = '}' then (afterKeyword? "from".toList cs).map untilBreak else none

theorem scans_symbolAndModule? : Scans closing? symbolAndModule? where
  read_nil := rfl
  search_nil := rfl
  found {c cs r} h := by
    rw [closing?] at h
    split at h
    · rename_i hc
      obtain ⟨rest, hrest, rfl⟩ := Option.map_eq_some_iff.mp h
      rw [symbolAndModule?, if_pos hc, hrest]
    · cases h
  passed {c cs} h := by
    have hnone : (if c = '}' then afterKeyword? "from".toList cs else none) = none := by
      rw [closing?] at h
      split at h
      · rename_i hc
        rw [if_pos hc, Option.map_eq_none_iff.mp h]
      · rename_i hc
        exact if_neg hc
    rw [symbolAndModule?, hnone]
    rfl

/-- The brace that ends the symbol is followed by `from` and the module. -/
theorem eq_of_symbolAndModule? {cs symbol module : List Char} (hcs : '\n' ∉ cs)
    (h : symbolAndModule? cs = some (symbol, module)) : ∃ gap gap', Gap gap ∧ Gap gap' ∧
      cs = symbol ++ ['}'] ++ gap ++ "from".toList ++ gap' ++ module := by
  obtain ⟨rest, rfl, -, hclosing, -⟩ := scans_symbolAndModule?.eq_some_iff.mp h
  cases rest with
  | nil => cases hclosing
  | cons c more =>
    rw [closing?] at hclosing
    split at hclosing
    · rename_i hc
      obtain ⟨tail, htail, rfl⟩ := Option.map_eq_some_iff.mp hclosing
      obtain ⟨-, gap, gap', hgap, hgap', rfl⟩ := eq_of_afterKeyword? htail
      refine ⟨gap, gap', hgap, hgap', ?_⟩
      rw [untilBreak_of_line fun hm => hcs (by simp [hm]), hc]
      simp
    · cases hclosing

/-- The import starts at the first brace of the line that opens. -/
theorem eq_of_moduleClause? {cs symbol module : List Char} (hcs : '\n' ∉ cs)
    (h : moduleClause? cs = some (symbol, module)) : ∃ before rest, '{' ∉ before ∧
      cs = before ++ '{' :: rest ∧ symbolAndModule? rest = some (symbol, module) := by
  induction cs with
  | nil => cases h
  | cons c cs ih =>
    have hmore : '\n' ∉ cs := fun hm => hcs (List.mem_cons_of_mem _ hm)
    rw [moduleClause?] at h
    split at h
    · rename_i parts hparts
      split at hparts
      · rename_i hc
        cases h
        exact ⟨[], cs, List.not_mem_nil, by rw [hc, List.nil_append], hparts⟩
      · cases hparts
    · rename_i hnone
      obtain ⟨before, rest, hbefore, rfl, hrest⟩ := ih hmore h
      refine ⟨c :: before, rest, ?_, rfl, hrest⟩
      rintro (_ | ⟨_, hm⟩)
      · -- A brace before this one would have opened the import.
        rw [if_pos rfl] at hnone
        have hline : '\n' ∉ before ++ ['{'] := fun hm => hmore (by
          rw [List.append_cons]
          exact List.mem_append_left _ hm)
        have hsome := scans_symbolAndModule?.isSome_append hline (Option.isSome_of_mem hrest)
        rw [← List.append_cons, hnone] at hsome
        cases hsome
      · exact hbefore hm

theorem word?_eq_some_iff {cs word : List Char} : word? cs = some word ↔
    word ≠ [] ∧ (∀ c ∈ word, Text.isWord c) ∧
      ∃ after, (∀ c ∈ after.head?, Text.isWord c = false) ∧ cs = word ++ after := by
  unfold word?
  constructor
  · intro h
    dsimp only at h
    split at h
    · cases h
    · rename_i hne
      obtain rfl := Option.some.inj h
      refine ⟨by simpa using hne, fun c => List.mem_takeWhile_imp, cs.dropWhile Text.isWord,
        fun c hc => ?_, (List.takeWhile_append_dropWhile).symm⟩
      have hhead := List.head?_dropWhile_not Text.isWord cs
      rw [Option.mem_def.mp hc] at hhead
      simpa using hhead
  · rintro ⟨hne, hword, after, hafter, rfl⟩
    have htake : (word ++ after).takeWhile Text.isWord = word := by
      cases after with
      | nil => simpa using hword
      | cons c after => exact Text.takeWhile_append_cons hword (hafter c rfl)
    dsimp only
    rw [htake]
    exact if_neg (by simpa using hne)

/-- A new name after `as`. It is read without a `viewof` before it only if no word follows a `viewof`
there. -/
theorem eq_of_newName? {cs name : List Char} (h : newName? cs = some name) :
    ∃ gap gap' viewOf mark after, Gap gap ∧ Gap gap' ∧ ViewMark viewOf mark ∧
      cs = gap ++ "as".toList ++ gap' ++ mark ++ name ++ after ∧ name ≠ [] ∧
      (∀ c ∈ name, Text.isWord c) ∧ (∀ c ∈ after.head?, Text.isWord c = false) ∧
      (viewOf = false → Unmarked (name ++ after)) := by
  obtain ⟨rest, hrest, hname⟩ := Option.bind_eq_some_iff.mp h
  obtain ⟨-, gap, gap', hgap, hgap', rfl⟩ := eq_of_afterKeyword? hrest
  split at hname
  · rename_i word hword
    obtain rfl := Option.some.inj hname
    obtain ⟨middle, hmiddle, hw⟩ := Option.bind_eq_some_iff.mp hword
    obtain ⟨start, hstart, hblanks⟩ := Option.bind_eq_some_iff.mp hmiddle
    obtain rfl := Text.after?_eq_some_iff.mp hstart
    obtain ⟨-, gap'', hgap'', rfl⟩ := afterBlanks?_eq_some_iff.mp hblanks
    obtain ⟨hne, hchars, after, hafter, rfl⟩ := word?_eq_some_iff.mp hw
    exact ⟨gap, gap', true, _, after, hgap, hgap', .present hgap'', by simp only [List.append_assoc],
      hne, hchars, hafter, nofun⟩
  · rename_i hnone
    obtain ⟨hne, hchars, after, hafter, rfl⟩ := word?_eq_some_iff.mp hname
    refine ⟨gap, gap', false, [], after, hgap, hgap', .absent, by simp only [List.append_assoc,
      List.nil_append], hne, hchars, hafter, fun _ g c rest hg hc heq => ?_⟩
    have hblanks : afterBlanks? (g ++ c :: rest) = some (c :: rest) :=
      afterBlanks?_eq_some_iff.mpr ⟨by simpa using Text.isBlank_of_isWord hc, g, hg, rfl⟩
    rw [heq, List.append_assoc, Text.after?_append, Option.bind_some, hblanks, Option.bind_some] at hnone
    simp [word?, hc] at hnone

theorem names_cons (c : Char) (cs : List Char) : names (c :: cs) =
    match newName? (c :: cs) with
    | some newName => ([], some newName)
    | none => (c :: (names cs).1, (names cs).2) := by
  rfl

def Tail : Option (List Char) → List Char → Prop
  | none, rest => rest = []
  | some name, rest => newName? rest = some name

private theorem eq_of_names {cs name : List Char} {newName : Option (List Char)}
    (h : names cs = (name, newName)) : ∃ rest, cs = name ++ rest ∧ Tail newName rest := by
  induction cs generalizing name with
  | nil =>
    cases h
    exact ⟨[], rfl, rfl⟩
  | cons c cs ih =>
    rw [names_cons] at h
    split at h
    · rename_i n hn
      cases h
      exact ⟨c :: cs, rfl, hn⟩
    · obtain ⟨rfl, rfl⟩ := Prod.mk.inj h
      obtain ⟨rest, hrest, htail⟩ := ih rfl
      exact ⟨rest, congrArg (c :: ·) hrest, htail⟩

theorem viewMark_of_mem_viewStarts {cs rest : List Char} {viewOf : Bool}
    (h : (viewOf, rest) ∈ viewStarts cs) : ∃ mark, ViewMark viewOf mark ∧ cs = mark ++ rest := by
  unfold viewStarts at h
  split at h
  · obtain ⟨rfl, rfl⟩ : viewOf = false ∧ rest = cs := by simpa using h
    exact ⟨[], .absent, rfl⟩
  · rename_i text htext
    obtain rfl := Text.after?_eq_some_iff.mp htext
    rcases List.mem_append.mp h with h | h
    · obtain ⟨n, hn, heq⟩ := List.mem_map.mp h
      cases heq
      have hlt := List.mem_range.mp hn
      -- At least one of the blanks is passed over.
      obtain ⟨k, hk⟩ : ∃ k, (text.takeWhile Text.isBlank).length - n = k := ⟨_, rfl⟩
      have htake : text.take k <+: text.takeWhile Text.isBlank := by
        refine List.prefix_of_prefix_length_le (List.take_prefix k text)
          (List.takeWhile_prefix Text.isBlank) ?_
        rw [List.length_take]
        omega
      have hne : text.take k ≠ [] := by
        intro hnil
        have hlen := congrArg List.length hnil
        have hle := (List.takeWhile_prefix Text.isBlank (l := text)).length_le
        rw [List.length_take, List.length_nil] at hlen
        omega
      refine ⟨_, .present ⟨hne, fun c hc => List.mem_takeWhile_imp (htake.subset hc)⟩, ?_⟩
      rw [hk, List.append_assoc, List.take_append_drop]
    · obtain ⟨rfl, rfl⟩ : viewOf = false ∧ rest = "viewof".toList ++ text := by simpa using h
      exact ⟨[], .absent, rfl⟩

private theorem viewMark_of_mem_symbolStarts {cs rest : List Char} {viewOf : Bool}
    (h : (viewOf, rest) ∈ symbolStarts cs) : ∃ lead mark, Blank lead ∧ ViewMark viewOf mark ∧
      cs = lead ++ mark ++ rest := by
  rcases List.mem_append.mp h with h | h
  · cases cs with
    | nil => cases h
    | cons c cs =>
      dsimp only at h
      split at h
      · rename_i hc
        obtain ⟨mark, hmark, rfl⟩ := viewMark_of_mem_viewStarts h
        exact ⟨[c], mark, List.forall_mem_singleton.mpr hc, hmark, rfl⟩
      · cases h
  · obtain ⟨mark, hmark, rfl⟩ := viewMark_of_mem_viewStarts h
    exact ⟨[], mark, nofun, hmark, rfl⟩

theorem eq_of_symbol? {cs name : List Char} {viewOf : Bool} {newName : Option (List Char)}
    (h : symbol? cs = some (viewOf, name, newName)) : ∃ lead mark rest, Blank lead ∧
      ViewMark viewOf mark ∧ cs = lead ++ mark ++ name ++ rest ∧ Tail newName rest := by
  obtain ⟨⟨start, text⟩, hmem, hread⟩ := List.exists_of_findSome?_eq_some h
  obtain ⟨lead, mark, hlead, hmark, rfl⟩ := viewMark_of_mem_symbolStarts hmem
  cases text with
  | nil => cases hread
  | cons c text =>
    rcases hn : names text with ⟨more, found⟩
    dsimp only at hread
    rw [hn] at hread
    cases hread
    obtain ⟨rest, rfl, htail⟩ := eq_of_names hn
    exact ⟨lead, mark, rest, hlead, hmark, by simp, htail⟩

theorem eq_of_moduleImport? {symbol module : List Char} {line : ImportLine}
    (h : moduleImport? symbol module = some line) : ∃ i name newName, line = .fromModule i ∧
      symbol? symbol = some (i.viewOf, name, newName) ∧ Text.nonBlank? name = some i.name ∧
      Text.nonBlank? module = some i.specifier ∧ i.newName = newName.map String.ofList := by
  obtain ⟨⟨viewOf, name, newName⟩, hsymbol, h⟩ := Option.bind_eq_some_iff.mp h
  obtain ⟨trimmedName, hname, h⟩ := Option.bind_eq_some_iff.mp h
  obtain ⟨specifier, hspecifier, h⟩ := Option.bind_eq_some_iff.mp h
  exact ⟨_, name, newName, (Option.some.inj h).symm, hsymbol, hname, hspecifier, rfl⟩

private theorem exists_load_of_fetchImport? {name origin : List Char} {line : ImportLine}
    (h : fetchImport? name origin = some line) : ∃ i, line = .load i := by
  obtain ⟨name, -, h⟩ := Option.bind_eq_some_iff.mp h
  obtain ⟨origin, -, h⟩ := Option.bind_eq_some_iff.mp h
  exact ⟨_, (Option.some.inj h).symm⟩

end ImportLine

section Unique
variable {name : List Char}

/-- White space between `viewof` and a name belongs to the mark, other white space does not. -/
theorem ViewMark.append_blank {lead mark blanks : List Char} {viewOf : Bool}
    (hmark : ViewMark viewOf mark) (hlead : Blank lead) (hblanks : Blank blanks) :
    ∃ lead' mark', Blank lead' ∧ ViewMark viewOf mark' ∧ lead ++ mark ++ blanks = lead' ++ mark' := by
  cases hmark with
  | absent => exact ⟨lead ++ blanks, [], hlead.append hblanks, .absent, by simp⟩
  | @present gap hgap =>
    exact ⟨lead, _, hlead, .present (hgap.append_blank hblanks), by simp only [List.append_assoc]⟩

/-- The name of a symbol starts in one place only. -/
theorem ViewMark.rest_inj {lead lead' mark mark' rest rest' : List Char} {viewOf : Bool}
    (hmark : ViewMark viewOf mark) (hmark' : ViewMark viewOf mark') (hlead : Blank lead)
    (hlead' : Blank lead') (hne : name ≠ []) (hname : ∀ c ∈ name.head?, Text.isBlank c = false)
    (h : lead ++ mark ++ name ++ rest = lead' ++ mark' ++ name ++ rest') : rest = rest' := by
  have hhead := not_isBlank_head hne hname
  have hstart {a b r r' : List Char} (ha : Blank a) (hb : Blank b)
      (heq : a ++ (name ++ r) = b ++ (name ++ r')) : r = r' :=
    List.append_cancel_left (Text.run_append_inj ha hb (hhead r) (hhead r') heq).2
  cases hmark with
  | absent =>
    cases hmark'
    exact hstart hlead hlead' (by simpa using h)
  | present hgap =>
    cases hmark' with
    | present hgap' =>
      simp only [List.append_assoc] at h
      have hview := not_isBlank_head (a := "viewof".toList) (by decide) (by simp; decide)
      have hrest := (Text.run_append_inj hlead hlead' (hview _) (hview _) h).2
      exact hstart hgap.2 hgap'.2 (List.append_cancel_left hrest)

/-- If a new name can be read so that just white space follows it, then it is read so. -/
theorem ViewMark.blank_after {mark mark' after after' : List Char} {viewOf viewOf' : Bool}
    (hmark : ViewMark viewOf mark) (hmark' : ViewMark viewOf' mark') (hne : name ≠ [])
    (hname : ∀ c ∈ name, Text.isWord c)
    (hpreferred : viewOf = false → Unmarked (name ++ after))
    (hblank : Blank after') (h : mark ++ name ++ after = mark' ++ name ++ after') : Blank after := by
  obtain ⟨c, more, rfl⟩ := List.exists_cons_of_ne_nil hne
  have hc : Text.isWord c := hname c List.mem_cons_self
  have hview : ∀ c ∈ "viewof".toList, Text.isWord c := List.all_eq_true.mp (by decide)
  have hgapHead {gap rest : List Char} (hgap : Gap gap) :
      ∀ c ∈ (gap ++ rest).head?, Text.isWord c = false := by
    rw [List.head?_append_of_ne_nil gap hgap.1]
    exact hgap.2.not_isWord_head
  cases hmark with
  | absent =>
    cases hmark' with
    | absent => exact List.append_cancel_left h ▸ hblank
    | present hgap' => exact absurd (by simpa using h) (hpreferred rfl _ c (more ++ after') hgap' hc)
  | @present gap hgap =>
    cases hmark' with
    | absent =>
      -- The name is `viewof` itself, and what follows it is no white space.
      have hinj := Text.run_append_inj hview hname (hgapHead hgap) hblank.not_isWord_head
        (show "viewof".toList ++ (gap ++ (c :: more ++ after)) = (c :: more) ++ after' by simpa using h)
      have hmem : c ∈ after' := hinj.2 ▸ by simp
      simpa [Text.isBlank_of_isWord hc] using hblank c hmem
    | @present gap' hgap' =>
      have hhead := not_isBlank_head hne (by simpa using Text.isBlank_of_isWord hc)
      have hinj := Text.run_append_inj hgap.2 hgap'.2 (hhead after) (hhead after') (by simpa using h)
      exact List.append_cancel_left hinj.2 ▸ hblank

theorem ViewMark.not_isBlank_start {mark : List Char} {viewOf : Bool} (hmark : ViewMark viewOf mark)
    (hne : name ≠ []) (hname : ∀ c ∈ name, Text.isWord c) (rest : List Char) :
    ∀ c ∈ (mark ++ (name ++ rest)).head?, Text.isBlank c = false := by
  cases hmark with
  | absent =>
    exact not_isBlank_head hne (fun c hc => Text.isBlank_of_isWord (hname c (List.mem_of_mem_head? hc))) rest
  | present =>
    rw [List.append_assoc]
    exact not_isBlank_head (by decide) (by simp; decide) _

private theorem Renaming.blank_after {gap gap' mark renamed after after' : List Char} {viewOf : Bool}
    (h : Renaming (some (String.ofList name)) renamed) (hgap : Gap gap) (hgap' : Gap gap')
    (hmark : ViewMark viewOf mark) (hne : name ≠ []) (hname : ∀ c ∈ name, Text.isWord c)
    (hpreferred : viewOf = false → Unmarked (name ++ after))
    (hblank : Blank after')
    (heq : gap ++ ("as".toList ++ (gap' ++ (mark ++ (name ++ after)))) = renamed ++ after') :
    Blank after := by
  have has := not_isBlank_head (a := "as".toList) (by decide) (by simp; decide)
  cases h with
  | @present g g' mark' viewOf' _ hg hg' hmark' =>
    simp only [List.append_assoc, String.toList_ofList] at heq
    have hrest := (Text.run_append_inj hgap.2 hg.2 (has _) (has _) heq).2
    have hrest' := (Text.run_append_inj hgap'.2 hg'.2 (hmark.not_isBlank_start hne hname _)
      (hmark'.not_isBlank_start hne hname _) (List.append_cancel_left hrest)).2
    exact hmark.blank_after hmark' hne hname hpreferred hblank (by simpa using hrest')

end Unique

namespace ModuleImport
variable {i : ModuleImport} {before after symbol line : List Char}

/-- A symbol that is read is written between its braces, with nothing but white space behind it if it
has no new name. Other text is behind it just if the symbol cannot be written there without. -/
theorem exists_symbolWritten {name : List Char} {newName : Option (List Char)}
    (hsymbol : ImportLine.symbol? symbol = some (i.viewOf, name, newName))
    (hname : Text.nonBlank? name = some i.name) (hnew : i.newName = newName.map String.ofList) :
    ∃ after, i.SymbolWritten after symbol ∧ (i.newName = none → Blank after) ∧
      (∀ c ∈ after.head?, Text.isWord c = false) ∧
      ∀ after', Blank after' → i.SymbolWritten after' symbol → Blank after := by
  obtain ⟨lead, mark, rest, hlead, hmark, rfl, htail⟩ := ImportLine.eq_of_symbol? hsymbol
  obtain ⟨hne, htrim⟩ := Text.nonBlank?_eq_some_iff.mp hname
  obtain ⟨blanks, blanks', hblanks, hblanks', hname⟩ := Text.exists_trim name
  obtain ⟨lead', mark', hlead', hmark', hjoin⟩ := hmark.append_blank hlead hblanks
  rw [← htrim] at hne hname
  have hhead : ∀ c ∈ i.name.toList.head?, Text.isBlank c = false :=
    (Text.trim_eq_self_iff.mp (by rw [htrim, Text.trim_trim])).1
  have htext : lead ++ mark ++ name ++ rest = lead' ++ mark' ++ i.name.toList ++ (blanks' ++ rest) := by
    rw [← hjoin, hname]
    simp only [List.append_assoc]
  rw [htext]
  cases newName with
  | none =>
    obtain rfl : rest = [] := htail
    have hnone : i.newName = none := hnew
    refine ⟨blanks', ⟨lead', mark', [], hlead', hmark', hnone ▸ .absent, by simp⟩, fun _ => hblanks',
      Blank.not_isWord_head hblanks', fun _ _ _ => hblanks'⟩
  | some n =>
    have hsome : i.newName = some (String.ofList n) := hnew
    obtain ⟨gap, gap', viewOf, view, after, hgap, hgap', hview, rfl, hn, hword, hafter, hpreferred⟩ :=
      ImportLine.eq_of_newName? htail
    have hgap := Blank.append_gap hblanks' hgap
    have hrenaming : Renaming (some (String.ofList n)) _ := .present hgap hgap' hview
    refine ⟨after, ⟨lead', mark', _, hlead', hmark', hsome ▸ hrenaming, by simp⟩,
      fun hnone => (nomatch hsome.symm.trans hnone), hafter, ?_⟩
    rintro after' hblank ⟨lead₂, mark₂, renamed, hlead₂, hmark₂, hrenamed, heq⟩
    rw [List.append_assoc _ renamed] at heq
    have hrest := hmark'.rest_inj hmark₂ hlead' hlead₂ hne hhead heq
    rw [hsome] at hrenamed
    exact hrenamed.blank_after hgap hgap' hview hn hword hpreferred hblank (by simpa using hrest)

/-- The brace that opens a line and the symbol behind it stand in one place only. -/
theorem symbol_inj {before' symbol' gap gap' gap₂ gap₂' last last' specifier : List Char}
    (hbefore : '{' ∉ before) (hbefore' : '{' ∉ before') (hgap : Gap gap) (hgap' : Gap gap')
    (hgap₂ : Gap gap₂) (hgap₂' : Gap gap₂') (hlast : Blank last) (hlast' : Blank last')
    (hne : specifier ≠ []) (hspecifier : ∀ c ∈ specifier.getLast?, Text.isBlank c = false)
    (h : before ++ '{' :: (symbol ++ ['}'] ++ gap ++ "from".toList ++ gap' ++ specifier ++ last) =
      before' ++ '{' :: (symbol' ++ ['}'] ++ gap₂ ++ "from".toList ++ gap₂' ++ specifier ++ last')) :
    before = before' ∧ symbol = symbol' := by
  obtain ⟨hb, hrest⟩ := Text.append_cons_inj hbefore hbefore' h
  have hend := not_isBlank_getLast hne hspecifier
  have hfrom := not_isBlank_getLast (a := "from".toList) (by decide) (by simp; decide)
  have hbrace := not_isBlank_getLast (a := ['}']) (by decide) (by simp; decide)
  -- The parts are taken off from the right.
  have h₁ := (Text.append_run_inj hlast hlast' (hend _) (hend _) hrest).1
  have h₂ := (Text.append_run_inj hgap'.2 hgap₂'.2 (hfrom _) (hfrom _) (List.append_cancel_right h₁)).1
  have h₃ := (Text.append_run_inj hgap.2 hgap₂.2 (hbrace _) (hbrace _) (List.append_cancel_right h₂)).1
  exact ⟨hb, List.append_cancel_right h₃⟩

end ModuleImport

/-- A line that is read as the import of a symbol has the parts of the import in their order. It is of
the grammar just if the text around them is white space. -/
theorem ImportLine.exists_writtenBetween {i : ModuleImport} {line : List Char} (hline : '\n' ∉ line)
    (h : read? line = some (.fromModule i)) : ∃ before after, i.WrittenBetween before after line ∧
      '{' ∉ before ∧ (i.newName = none → Blank after) ∧
      (∀ c ∈ after.head?, Text.isWord c = false) ∧ (i.Written line ↔ Blank before ∧ Blank after) := by
  unfold read? at h
  split at h
  · rename_i symbol module hclause
    obtain ⟨before, rest, hbefore, rfl, hrest⟩ := eq_of_moduleClause? hline hclause
    obtain ⟨gap, gap', hgap, hgap', rfl⟩ :=
      eq_of_symbolAndModule? (fun hm => hline (by simp [hm])) hrest
    obtain ⟨_, name, newName, hi, hsymbol, hname, hmodule, hnew⟩ := eq_of_moduleImport? h
    cases hi
    obtain ⟨after, hafter, hnone, hword, hblank⟩ := i.exists_symbolWritten hsymbol hname hnew
    obtain ⟨hne, htrim⟩ := Text.nonBlank?_eq_some_iff.mp hmodule
    obtain ⟨blanks, last, hblanks, hlast, hmodule⟩ := Text.exists_trim module
    rw [← htrim] at hne hmodule
    have hgap' := hgap'.append_blank hblanks
    have hspecifier : ∀ c ∈ i.specifier.toList.getLast?, Text.isBlank c = false :=
      (Text.trim_eq_self_iff.mp (by rw [htrim, Text.trim_trim])).2
    have hbetween : i.WrittenBetween before after
        (before ++ '{' :: (symbol ++ ['}'] ++ gap ++ "from".toList ++ gap' ++ module)) := by
      refine ⟨symbol, gap, gap' ++ blanks, last, hafter, hgap, hgap', hlast, ?_⟩
      rw [hmodule]
      simp only [List.append_assoc]
    refine ⟨before, after, hbetween, hbefore, hnone, hword, ?_, fun hb => ⟨_, _, hb.1, hb.2, hbetween⟩⟩
    rintro ⟨before', after', hbefore', hafter', symbol', g, g', last', hsymbol', hg, hg', hlast', heq⟩
    have hbrace : '{' ∉ before' := fun hm => absurd (hbefore' _ hm) (by decide)
    rw [hmodule] at heq
    obtain ⟨rfl, rfl⟩ := ModuleImport.symbol_inj hbefore hbrace hgap hgap' hg hg' hlast hlast' hne
      hspecifier (by simpa using heq)
    exact ⟨hbefore', hblank after' hafter' hsymbol'⟩
  · obtain ⟨_, -, hfetch⟩ := Option.bind_eq_some_iff.mp h
    obtain ⟨_, hload⟩ := exists_load_of_fetchImport? hfetch
    cases hload

/-- Every line is read as the import of a symbol, as the load of a file, or refused as malformed. In
an import the text in front of the first brace that opens, and the text between a new name and the
brace that closes, are dropped whatever they are. So the line is of the grammar just if both are
white space. -/
theorem ImportLine.parse_layout (line : List Char) (hline : '\n' ∉ line) :
    (∃ i before after, parse line = .ok (.fromModule i) ∧ i.WrittenBetween before after line ∧
      '{' ∉ before ∧ (i.newName = none → Blank after) ∧ (∀ c ∈ after.head?, Text.isWord c = false) ∧
      (i.Written line ↔ Blank before ∧ Blank after)) ∨
    (∃ i, parse line = .ok (.load i)) ∨
    parse line = .error (.importSyntax (String.ofList (Text.trim line))) := by
  cases hread : read? line with
  | none => exact .inr (.inr (by rw [parse, hread]))
  | some parsed =>
    have hparse : parse line = .ok parsed := by rw [parse, hread]
    cases parsed with
    | load i => exact .inr (.inl ⟨i, hparse⟩)
    | fromModule i =>
      obtain ⟨before, after, hlayout⟩ := exists_writtenBetween hline hread
      exact .inl ⟨i, before, after, hparse, hlayout⟩

/-- A view under a new name, with text around the parts. -/
theorem ImportLine.parse_layout_view :
    '\n' ∉ "see { viewof a  as viewof b, c } from m ".toList ∧ ∃ before after,
      parse "see { viewof a  as viewof b, c } from m ".toList =
        .ok (.fromModule ⟨"a", some "b", "m", true⟩) ∧
      (⟨"a", some "b", "m", true⟩ : ModuleImport).WrittenBetween before after
        "see { viewof a  as viewof b, c } from m ".toList ∧ '{' ∉ before := by
  have hline : '\n' ∉ "see { viewof a  as viewof b, c } from m ".toList := by decide
  have hread : read? "see { viewof a  as viewof b, c } from m ".toList =
    some (.fromModule ⟨"a", some "b", "m", true⟩) := by decide +kernel
  have hparsed : parse "see { viewof a  as viewof b, c } from m ".toList =
    .ok (.fromModule ⟨"a", some "b", "m", true⟩) := by rw [parse, hread]
  refine ⟨hline, ?_⟩
  rcases parse_layout _ hline with ⟨i, before, after, hparse, hbetween, hbrace, -⟩ | ⟨i, hparse⟩ | hparse
  · cases hparsed.symm.trans hparse
    exact ⟨before, after, hparsed, hbetween, hbrace⟩
  · cases hparsed.symm.trans hparse
  · cases hparsed.symm.trans hparse

section Characters
variable {c : Char}

private theorem ViewMark.mem {viewOf : Bool} {mark : List Char} (h : ViewMark viewOf mark) (hc : c ∈ mark) :
    Text.isBlank c ∨ c ∈ "viewof".toList := by
  cases h with
  | absent => cases hc
  | present hgap => exact (List.mem_append.mp hc).symm.imp_left (hgap.2 c)

private theorem Renaming.mem {newName : Option String} {renamed : List Char} (h : Renaming newName renamed)
    (hc : c ∈ renamed) : Text.isBlank c ∨ c ∈ "viewof".toList ++ "as".toList ∨
      ∃ name ∈ newName, c ∈ name.toList := by
  cases h with
  | absent => cases hc
  | present hgap hgap' hmark =>
    simp only [List.mem_append] at hc ⊢
    rcases hc with (((hc | hc) | hc) | hc) | hc
    · exact .inl (hgap.2 c hc)
    · exact .inr (.inl (.inr hc))
    · exact .inl (hgap'.2 c hc)
    · exact (hmark.mem hc).imp_right fun hview => .inl (.inl hview)
    · exact .inr (.inr ⟨_, rfl, hc⟩)

/-- A line of the grammar holds white space, braces, keywords and the parts that are read. -/
theorem ModuleImport.Written.mem {i : ModuleImport} {line : List Char} (h : i.Written line)
    (hc : c ∈ line) : Text.isBlank c ∨
      c ∈ ['{', '}'] ++ "viewof".toList ++ "as".toList ++ "from".toList ∨ c ∈ i.name.toList ∨
      (∃ name ∈ i.newName, c ∈ name.toList) ∨ c ∈ i.specifier.toList := by
  obtain ⟨before, after, hbefore, hafter, symbol, gap, gap', last, hsymbol, hgap, hgap', hlast, rfl⟩ := h
  obtain ⟨lead, mark, renamed, hlead, hmark, hrenamed, rfl⟩ := hsymbol
  have hview := hmark.mem (c := c)
  have hnew := hrenamed.mem (c := c)
  simp only [List.mem_append, List.mem_cons, List.not_mem_nil, or_false] at hc hnew ⊢
  grind [Blank, Gap]

end Characters

/-- A second name behind a new name is dropped, though the grammar has no place for it. -/
theorem ImportLine.parse_drops_name :
    '\n' ∉ "{ a as b, c } from m".toList ∧
      parse "{ a as b, c } from m".toList = .ok (.fromModule ⟨"a", some "b", "m", false⟩) ∧
      ¬ (⟨"a", some "b", "m", false⟩ : ModuleImport).Written "{ a as b, c } from m".toList := by
  have hread : read? "{ a as b, c } from m".toList = some (.fromModule ⟨"a", some "b", "m", false⟩) := by
    decide +kernel
  refine ⟨by decide, by rw [parse, hread], fun hwritten => ?_⟩
  have hcomma := hwritten.mem (c := ',') (by decide)
  revert hcomma
  decide

end Notebook
