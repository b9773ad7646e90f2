import Notebook.Proofs.ImportGrammar

/-! Which import a line is. The two forms are told apart by their keywords: a line is cut at the first
place where a keyword stands as it should, and what stands on both sides of it decides the rest. -/
namespace Notebook.ImportLine

/-- A keyword with white space on both sides, in front of `rest`. -/
def Keyed (keyword cs rest : List Char) : Prop :=
  ∃ gap gap', Gap gap ∧ Gap gap' ∧ cs = gap ++ keyword ++ gap' ++ rest

private theorem Keyed.not_mem_trimStart {keyword cs rest : List Char} {c : Char} (h : Keyed keyword cs rest)
    (hc : c ∉ cs) : c ∉ Text.trimStart rest := by
  obtain ⟨gap, gap', -, -, rfl⟩ := h
  exact fun hm => hc (List.mem_append_right _ ((List.dropWhile_suffix Text.isBlank).subset hm))

/-- White space does not end up in the text after a keyword. -/
theorem afterKeyword?_of_keyed {k : Char} {keyword cs rest : List Char} (hk : Text.isBlank k = false)
    (h : Keyed (k :: keyword) cs rest) : afterKeyword? (k :: keyword) cs = some (Text.trimStart rest) := by
  obtain ⟨gap, gap', hgap, hgap', rfl⟩ := h
  have hstart : afterBlanks? (gap ++ (k :: keyword ++ (gap' ++ rest))) =
      some (k :: keyword ++ (gap' ++ rest)) :=
    afterBlanks?_eq_some_iff.mpr ⟨by simpa using hk, gap, hgap, rfl⟩
  have hrest : afterBlanks? (gap' ++ rest) = some (Text.trimStart rest) := by
    rw [afterBlanks?_eq_some_iff]
    refine ⟨Text.isBlank_head_trimStart rest, gap' ++ rest.takeWhile Text.isBlank,
      hgap'.append_blank fun c => List.mem_takeWhile_imp, ?_⟩
    rw [List.append_assoc]
    exact congrArg (gap' ++ ·) List.takeWhile_append_dropWhile.symm
  rw [afterKeyword?, List.append_assoc, List.append_assoc, hstart, Option.bind_some, Text.after?_append,
    Option.bind_some, hrest]

private theorem isSome_afterKeyword?_iff {k : Char} {keyword cs : List Char} (hk : Text.isBlank k = false) :
    (afterKeyword? (k :: keyword) cs).isSome ↔ ∃ rest, Keyed (k :: keyword) cs rest := by
  constructor
  · intro h
    obtain ⟨rest, hrest⟩ := Option.isSome_iff_exists.mp h
    exact ⟨rest, (eq_of_afterKeyword? hrest).2⟩
  · rintro ⟨rest, hrest⟩
    rw [afterKeyword?_of_keyed hk hrest]
    rfl

def loading? (cs : List Char) : Option (List Char) :=
  (afterKeyword? "load".toList cs).map untilBreak

private theorem nameAndOrigin?_cons (c : Char) (cs : List Char) : nameAndOrigin? (c :: cs) =
    match afterKeyword? "load".toList (c :: cs) with
    | some rest => some ([], untilBreak rest)
    | none => if c = '\n' then none else (nameAndOrigin? cs).map (Prod.map (c :: ·) id) := by
  rfl

private theorem scans_nameAndOrigin? : Scans loading? nameAndOrigin? where
  read_nil := rfl
  search_nil := rfl
  found {c cs r} h := by
    obtain ⟨rest, hrest, rfl⟩ := Option.map_eq_some_iff.mp h
    rw [nameAndOrigin?_cons, hrest]
  passed {c cs} h := by
    rw [nameAndOrigin?_cons, Option.map_eq_none_iff.mp h]

def EndsSymbol (cs : List Char) : Prop :=
  ∃ after rest, cs = '}' :: after ∧ Keyed "from".toList after rest

/-- Between the first brace of a line that opens and the first one after it that ends a symbol stands
`symbol`, and behind the `from` stands `rest`. -/
def ImportForm (line symbol rest : List Char) : Prop :=
  ∃ before after, line = before ++ '{' :: (symbol ++ '}' :: after) ∧ '{' ∉ before ∧
    Keyed "from".toList after rest ∧ Text.Clear EndsSymbol symbol ('}' :: after)

def HasImport (line : List Char) : Prop :=
  ∃ before inner after, line = before ++ '{' :: (inner ++ after) ∧ EndsSymbol after

/-- Around the first `load` of a line stand `name` and `origin`. -/
def LoadForm (line name origin : List Char) : Prop :=
  ∃ after, line = name ++ after ∧ Keyed "load".toList after origin ∧
    Text.Clear (fun text => ∃ rest, Keyed "load".toList text rest) name after

def HasLoad (line : List Char) : Prop :=
  ∃ before after rest, line = before ++ after ∧ Keyed "load".toList after rest

section Forms
variable {line symbol rest name origin : List Char}

private theorem isSome_closing?_iff {cs : List Char} : (closing? cs).isSome ↔ EndsSymbol cs := by
  cases cs with
  | nil =>
    refine iff_of_false Bool.false_ne_true ?_
    rintro ⟨after, rest, h, -⟩
    cases h
  | cons c cs =>
    rw [closing?]
    split
    · rename_i hc
      rw [Option.isSome_map]
      refine (isSome_afterKeyword?_iff (by decide)).trans ?_
      constructor
      · rintro ⟨rest, h⟩
        exact ⟨cs, rest, by rw [hc], h⟩
      · rintro ⟨after, rest, he, h⟩
        exact ⟨rest, (List.cons.inj he).2 ▸ h⟩
    · rename_i hc
      refine iff_of_false Bool.false_ne_true ?_
      rintro ⟨after, rest, h, -⟩
      exact hc (List.cons.inj h).1

private theorem closing?_of_keyed {after : List Char} (h : Keyed "from".toList after rest) :
    closing? ('}' :: after) = some (untilBreak (Text.trimStart rest)) := by
  rw [closing?, if_pos rfl]
  exact congrArg (Option.map untilBreak) (afterKeyword?_of_keyed (by decide) h)

/-- The first brace that opens starts the import, if one that ends the symbol comes later. -/
theorem moduleClause?_of_brace {before after : List Char} {parts : List Char × List Char}
    (hbefore : '{' ∉ before) (h : symbolAndModule? after = some parts) :
    moduleClause? (before ++ '{' :: after) = some parts := by
  induction before with
  | nil => rw [List.nil_append, moduleClause?, if_pos rfl, h]
  | cons c before ih =>
    have hc : c ≠ '{' := fun hc => hbefore (hc ▸ List.mem_cons_self)
    rw [List.cons_append, moduleClause?, if_neg hc]
    exact ih fun hm => hbefore (List.mem_cons_of_mem _ hm)

/-- The two parts of an import form are found. -/
theorem moduleClause?_of_form {symbol : List Char} {after before : List Char} (hbefore : '{' ∉ before)
    (hsymbol : '\n' ∉ symbol) (hkeyed : Keyed "from".toList after rest)
    (hclear : Text.Clear EndsSymbol symbol ('}' :: after)) :
    moduleClause? (before ++ '{' :: (symbol ++ '}' :: after)) =
      some (symbol, untilBreak (Text.trimStart rest)) := by
  refine moduleClause?_of_brace hbefore (scans_symbolAndModule?.eq_some_iff.mpr ?_)
  exact ⟨_, rfl, hsymbol, closing?_of_keyed hkeyed, hclear.imp fun _ => isSome_closing?_iff.mp⟩

/-- A line whose parts are found has the form of an import. -/
theorem importForm_of_moduleClause? {module : List Char} (hline : '\n' ∉ line)
    (h : moduleClause? line = some (symbol, module)) : ImportForm line symbol module := by
  obtain ⟨before, text, hbefore, rfl, hparts⟩ := eq_of_moduleClause? hline h
  obtain ⟨closed, rfl, -, hread, hclear⟩ := scans_symbolAndModule?.eq_some_iff.mp hparts
  obtain ⟨after, _, rfl, -⟩ := isSome_closing?_iff.mp (Option.isSome_of_mem hread)
  refine ⟨before, after, rfl, hbefore, ?_, hclear.imp fun _ => isSome_closing?_iff.mpr⟩
  rw [closing?, if_pos rfl] at hread
  obtain ⟨text, htext, rfl⟩ := Option.map_eq_some_iff.mp hread
  obtain ⟨-, gap, gap', hgap, hgap', rfl⟩ := eq_of_afterKeyword? htext
  rw [untilBreak_of_line fun hm => hline (by simp [hm])]
  exact ⟨gap, gap', hgap, hgap', rfl⟩

private theorem isSome_moduleClause?_of_hasImport (hline : '\n' ∉ line) (h : HasImport line) :
    (moduleClause? line).isSome := by
  obtain ⟨before, inner, after, rfl, hends⟩ := h
  have hinner : '\n' ∉ inner := fun hm => hline (by simp [hm])
  have hsearch := scans_symbolAndModule?.isSome_of_append hinner (isSome_closing?_iff.mpr hends)
  clear hline
  induction before with
  | nil =>
    rw [List.nil_append, moduleClause?, if_pos rfl]
    obtain ⟨parts, hparts⟩ := Option.isSome_iff_exists.mp hsearch
    rw [hparts]
    rfl
  | cons c before ih =>
    rw [List.cons_append, moduleClause?]
    split
    · rfl
    · exact ih

private theorem HasImport.of_form (h : ImportForm line symbol rest) : HasImport line := by
  obtain ⟨before, after, hline, -, hkeyed, -⟩ := h
  exact ⟨before, symbol, _, hline, after, rest, rfl, hkeyed⟩

private theorem exists_importForm (hline : '\n' ∉ line) (h : HasImport line) :
    ∃ symbol rest, ImportForm line symbol rest := by
  obtain ⟨⟨symbol, module⟩, hparts⟩ := Option.isSome_iff_exists.mp (isSome_moduleClause?_of_hasImport hline h)
  exact ⟨symbol, module, importForm_of_moduleClause? hline hparts⟩

/-- A line that was tried from its start has no `load`. -/
theorem loadFrom?_tried {cs : List Char} (hcs : '\n' ∉ cs) : loadFrom? true cs = none := by
  induction cs with
  | nil => rfl
  | cons c cs ih =>
    have hc : (c != '\n') = true := by simpa using fun hc : c = '\n' => hcs (hc ▸ List.mem_cons_self)
    rw [loadFrom?, if_pos rfl, hc]
    exact ih fun hm => hcs (List.mem_cons_of_mem _ hm)

private theorem loadClause?_of_nameAndOrigin? {parts : List Char × List Char}
    (h : nameAndOrigin? line = some parts) : loadClause? line = some parts := by
  cases line with
  | nil => cases h
  | cons c cs => rw [loadClause?, loadFrom?, if_neg Bool.false_ne_true, h]

private theorem loadClause?_of_line (hline : '\n' ∉ line) : loadClause? line = nameAndOrigin? line := by
  cases hparts : nameAndOrigin? line with
  | some parts => exact loadClause?_of_nameAndOrigin? hparts
  | none =>
    cases line with
    | nil => rfl
    | cons c cs =>
      have hc : (c != '\n') = true := by
        simpa using fun hc : c = '\n' => hline (hc ▸ List.mem_cons_self)
      rw [loadClause?, loadFrom?, if_neg Bool.false_ne_true, hparts, hc]
      exact loadFrom?_tried fun hm => hline (List.mem_cons_of_mem _ hm)

private theorem isSome_loading?_iff {cs : List Char} :
    (loading? cs).isSome ↔ ∃ rest, Keyed "load".toList cs rest := by
  rw [loading?, Option.isSome_map]
  exact isSome_afterKeyword?_iff (by decide)

/-- The two parts of a load form are found. -/
theorem loadClause?_of_form (hname : '\n' ∉ name) {after : List Char}
    (hkeyed : Keyed "load".toList after origin)
    (hclear : Text.Clear (fun text => ∃ rest, Keyed "load".toList text rest) name after) :
    loadClause? (name ++ after) = some (name, untilBreak (Text.trimStart origin)) := by
  refine loadClause?_of_nameAndOrigin? (scans_nameAndOrigin?.eq_some_iff.mpr ?_)
  refine ⟨after, rfl, hname, ?_, hclear.imp fun _ => isSome_loading?_iff.mp⟩
  exact congrArg (Option.map untilBreak) (afterKeyword?_of_keyed (by decide) hkeyed)

private theorem exists_loadForm (hline : '\n' ∉ line) (h : HasLoad line) :
    ∃ name origin, LoadForm line name origin := by
  obtain ⟨before, after, rest, rfl, hkeyed⟩ := h
  have hbefore : '\n' ∉ before := fun hm => hline (List.mem_append_left _ hm)
  have hsearch := scans_nameAndOrigin?.isSome_of_append hbefore (isSome_loading?_iff.mpr ⟨rest, hkeyed⟩)
  obtain ⟨⟨name, _⟩, hparts⟩ := Option.isSome_iff_exists.mp hsearch
  obtain ⟨text, heq, -, hread, hclear⟩ := scans_nameAndOrigin?.eq_some_iff.mp hparts
  obtain ⟨origin, horigin⟩ := isSome_loading?_iff.mp (Option.isSome_of_mem hread)
  exact ⟨name, origin, text, heq, horigin, hclear.imp fun _ => isSome_loading?_iff.mpr⟩

private theorem loadClause?_eq_none (hline : '\n' ∉ line) (h : ¬ HasLoad line) : loadClause? line = none := by
  rw [loadClause?_of_line hline]
  by_contra hne
  obtain ⟨⟨name, _⟩, hparts⟩ := Option.ne_none_iff_exists'.mp hne
  obtain ⟨text, heq, -, hread, -⟩ := scans_nameAndOrigin?.eq_some_iff.mp hparts
  obtain ⟨origin, horigin⟩ := isSome_loading?_iff.mp (Option.isSome_of_mem hread)
  exact h ⟨name, text, origin, heq, horigin⟩

end Forms

section Reading
variable {line symbol rest name origin : List Char}

theorem nonBlank?_of_blank {cs : List Char} (h : Blank cs) : Text.nonBlank? cs = none := by
  rw [Text.nonBlank?, Text.trim_eq_nil_iff.mpr h]
  rfl

private theorem nonBlank?_of_not_blank {cs : List Char} (h : ¬ Blank cs) :
    Text.nonBlank? cs = some (String.ofList (Text.trim cs)) :=
  if_neg fun he => h (Text.trim_eq_nil_iff.mp (List.isEmpty_iff.mp he))

private theorem nonBlank?_trimStart (cs : List Char) : Text.nonBlank? (Text.trimStart cs) = Text.nonBlank? cs := by
  have hstart : Text.trimStart (Text.trimStart cs) = Text.trimStart cs := List.dropWhile_idempotent Text.isBlank cs
  rw [Text.nonBlank?, Text.nonBlank?, Text.trim, hstart, ← Text.trim]

private theorem moduleImport?_trimStart (symbol rest : List Char) :
    moduleImport? symbol (Text.trimStart rest) = moduleImport? symbol rest := by
  rw [moduleImport?, nonBlank?_trimStart]
  rfl

private theorem fetchImport?_trimStart (name origin : List Char) :
    fetchImport? name (Text.trimStart origin) = fetchImport? name origin := by
  rw [fetchImport?, nonBlank?_trimStart]
  rfl

private theorem moduleImport?_of_blank (h : Blank symbol ∨ Blank rest) : moduleImport? symbol rest = none := by
  refine Option.eq_none_iff_forall_ne_some.mpr fun parsed hparsed => ?_
  obtain ⟨i, name, newName, -, hsymbol, hname, hmodule, -⟩ := eq_of_moduleImport? hparsed
  rcases h with h | h
  · -- The name is a part of the symbol.
    obtain ⟨lead, mark, tail, -, -, rfl, -⟩ := eq_of_symbol? hsymbol
    rw [nonBlank?_of_blank fun c hc => h c (by simp [hc])] at hname
    cases hname
  · rw [nonBlank?_of_blank h] at hmodule
    cases hmodule

private theorem fetchImport?_of_blank (h : Blank name ∨ Blank origin) : fetchImport? name origin = none := by
  refine Option.eq_none_iff_forall_ne_some.mpr fun parsed hparsed => ?_
  obtain ⟨s, hs, hparsed⟩ := Option.bind_eq_some_iff.mp hparsed
  obtain ⟨t, ht, -⟩ := Option.bind_eq_some_iff.mp hparsed
  rcases h with h | h
  · rw [nonBlank?_of_blank h] at hs
    cases hs
  · rw [nonBlank?_of_blank h] at ht
    cases ht

private theorem fetchImport?_of_not_blank (hname : ¬ Blank name) (horigin : ¬ Blank origin) :
    fetchImport? name origin =
      some (.load ⟨String.ofList (Text.trim name), String.ofList (Text.trim origin)⟩) := by
  rw [fetchImport?, nonBlank?_of_not_blank hname, nonBlank?_of_not_blank horigin]
  rfl

private theorem read?_of_importForm (hline : '\n' ∉ line) (h : ImportForm line symbol rest) :
    read? line = moduleImport? symbol rest := by
  obtain ⟨before, after, rfl, hbefore, hkeyed, hclear⟩ := h
  have hsymbol : '\n' ∉ symbol := fun hm => hline (by simp [hm])
  have hrest : '\n' ∉ Text.trimStart rest := hkeyed.not_mem_trimStart fun hm => hline (by simp [hm])
  rw [read?, moduleClause?_of_form hbefore hsymbol hkeyed hclear, untilBreak_of_line hrest]
  exact moduleImport?_trimStart symbol rest

private theorem read?_of_not_hasImport (hline : '\n' ∉ line) (h : ¬ HasImport line) :
    read? line = (loadClause? line).bind fun parts => fetchImport? parts.1 parts.2 := by
  have hclause : moduleClause? line = none := by
    by_contra hne
    obtain ⟨⟨symbol, module⟩, hparts⟩ := Option.ne_none_iff_exists'.mp hne
    exact h (.of_form (importForm_of_moduleClause? hline hparts))
  rw [read?, hclause]

private theorem read?_of_loadForm (hline : '\n' ∉ line) (himport : ¬ HasImport line)
    (h : LoadForm line name origin) : read? line = fetchImport? name origin := by
  rw [read?_of_not_hasImport hline himport]
  obtain ⟨after, rfl, hkeyed, hclear⟩ := h
  have hname : '\n' ∉ name := fun hm => hline (List.mem_append_left _ hm)
  have horigin : '\n' ∉ Text.trimStart origin :=
    hkeyed.not_mem_trimStart fun hm => hline (List.mem_append_right _ hm)
  rw [loadClause?_of_form hname hkeyed hclear, untilBreak_of_line horigin]
  exact fetchImport?_trimStart name origin

end Reading

def malformed (line : List Char) : Except Error ImportLine :=
  .error (.importSyntax (String.ofList (Text.trim line)))

theorem parse_eq (line : List Char) : parse line = (read? line).elim (malformed line) .ok := by
  rw [parse]
  cases read? line <;> rfl

private theorem eq_of_parse_eq_error {line : List Char} {e : Error} (h : parse line = .error e) :
    e = .importSyntax (String.ofList (Text.trim line)) := by
  rw [parse_eq] at h
  cases hread : read? line with
  | none =>
    rw [hread] at h
    exact (Except.error.inj h).symm
  | some parsed =>
    rw [hread] at h
    cases h

/-- Going through a list fails just if something in it fails, and with the first error. -/
theorem mapM_eq_error_iff {ε α β : Type} {f : α → Except ε β} {l : List α} {e : ε} :
    l.mapM f = .error e ↔ ∃ before a after, l = before ++ a :: after ∧
      (∀ b ∈ before, ∃ r, f b = .ok r) ∧ f a = .error e := by
  induction l with
  | nil =>
    refine ⟨nofun, fun ⟨before, a, after, h, _⟩ => ?_⟩
    simp at h
  | cons first l ih =>
    rw [List.mapM_cons]
    cases hfirst : f first with
    | error e' =>
      constructor
      · intro h
        cases h
        exact ⟨[], first, l, rfl, nofun, hfirst⟩
      · rintro ⟨before, a, after, heq, hbefore, ha⟩
        cases before with
        | nil =>
          obtain ⟨rfl, -⟩ := List.cons.inj heq
          cases hfirst.symm.trans ha
          rfl
        | cons b before =>
          obtain ⟨rfl, -⟩ := List.cons.inj heq
          obtain ⟨r, hr⟩ := hbefore first List.mem_cons_self
          cases hfirst.symm.trans hr
    | ok r =>
      have hrest : (do let rest ← l.mapM f; return r :: rest) = Except.error e ↔ l.mapM f = .error e := by
        cases l.mapM f <;> simp [bind, Except.bind, pure, Except.pure]
      refine hrest.trans (ih.trans ?_)
      constructor
      · rintro ⟨before, a, after, rfl, hbefore, ha⟩
        exact ⟨first :: before, a, after, rfl, List.forall_mem_cons.mpr ⟨⟨r, hfirst⟩, hbefore⟩, ha⟩
      · rintro ⟨before, a, after, heq, hbefore, ha⟩
        cases before with
        | nil =>
          obtain ⟨rfl, -⟩ := List.cons.inj heq
          cases hfirst.symm.trans ha
        | cons b before =>
          obtain ⟨rfl, rfl⟩ := List.cons.inj heq
          exact ⟨before, a, after, rfl, fun b hb => hbefore b (List.mem_cons_of_mem _ hb), ha⟩

/-- Which import a line is. One with the form of a symbol import is never a load, whatever is in it,
and one with neither form is refused. An error shows the line, and the first one ends a text. -/
theorem parse_classified :
    (∀ line : List Char, '\n' ∉ line →
      (HasImport line → ∃ symbol rest, ImportForm line symbol rest) ∧
      (∀ symbol rest, ImportForm line symbol rest →
        parse line = (moduleImport? symbol rest).elim (malformed line) .ok ∧
        (Blank symbol ∨ Blank rest → parse line = malformed line) ∧
        ∀ parsed, parse line = .ok parsed →
          ∃ i, parsed = .fromModule i ∧ i.specifier = String.ofList (Text.trim rest)) ∧
      (¬ HasImport line → HasLoad line → ∃ name origin, LoadForm line name origin) ∧
      (∀ name origin, ¬ HasImport line → LoadForm line name origin →
        (¬ Blank name → ¬ Blank origin → parse line =
          .ok (.load ⟨String.ofList (Text.trim name), String.ofList (Text.trim origin)⟩)) ∧
        (Blank name ∨ Blank origin → parse line = malformed line)) ∧
      (¬ HasImport line → ¬ HasLoad line → parse line = malformed line)) ∧
    (∀ line e, parse line = .error e → e = .importSyntax (String.ofList (Text.trim line))) ∧
    ∀ text e, parseAll text = .error e ↔
      ∃ before line after, Text.lines text.toList = before ++ line :: after ∧
        (∀ l ∈ before, ∃ parsed, parse l = .ok parsed) ∧ parse line = .error e := by
  refine ⟨fun line hline => ⟨exists_importForm hline, ?_, fun _ => exists_loadForm hline, ?_, ?_⟩,
    fun _ _ => eq_of_parse_eq_error, fun _ _ => mapM_eq_error_iff⟩
  · intro symbol rest hform
    have hparse := parse_eq line
    rw [read?_of_importForm hline hform] at hparse
    refine ⟨hparse, fun hblank => by rw [hparse, moduleImport?_of_blank hblank]; rfl, fun parsed hok => ?_⟩
    cases hread : moduleImport? symbol rest with
    | none =>
      rw [hread, hok] at hparse
      cases hparse
    | some read =>
      rw [hread, hok] at hparse
      cases hparse
      obtain ⟨i, _, _, rfl, -, -, hmodule, -⟩ := eq_of_moduleImport? hread
      refine ⟨i, rfl, ?_⟩
      rw [← (Text.nonBlank?_eq_some_iff.mp hmodule).2, String.ofList_toList]
  · intro name origin himport hform
    rw [parse_eq, read?_of_loadForm hline himport hform]
    refine ⟨fun hname horigin => ?_, fun hblank => ?_⟩
    · rw [fetchImport?_of_not_blank hname horigin]
      rfl
    · rw [fetchImport?_of_blank hblank]
      rfl
  · intro himport hload
    rw [parse_eq, read?_of_not_hasImport hline himport, loadClause?_eq_none hline hload]
    rfl

/-- A line with both keywords and with a brace that does not end the symbol, and a text whose second
line is the first that fails. -/
theorem parse_classified_mixed :
    '\n' ∉ "x load { a } { b } from m ".toList ∧
      ImportForm "x load { a } { b } from m ".toList " a \x7d \x7b b ".toList "m ".toList ∧
      (∃ i, parse "x load { a } { b } from m ".toList = .ok (.fromModule i) ∧ i.specifier = "m") ∧
      parseAll "x load m\n{ } from m\nx" = .error (.importSyntax "{ } from m") := by
  have hline : '\n' ∉ "x load { a } { b } from m ".toList := by decide
  have hform : ImportForm "x load { a } { b } from m ".toList " a \x7d \x7b b ".toList "m ".toList :=
    importForm_of_moduleClause? hline (by decide +kernel)
  have hread : read? "x load { a } { b } from m ".toList =
    some (.fromModule ⟨"a \x7d \x7b b", none, "m", false⟩) := by decide +kernel
  have hparse : parse "x load { a } { b } from m ".toList = .ok (.fromModule ⟨"a \x7d \x7b b", none, "m", false⟩) := by
    rw [parse, hread]
  obtain ⟨i, hi, hspecifier⟩ := ((parse_classified.1 _ hline).2.1 _ _ hform).2.2 _ hparse
  refine ⟨hline, hform, ⟨i, hi ▸ hparse, hspecifier⟩, (parse_classified.2.2 _ _).mpr ?_⟩
  have hfirst : read? "x load m".toList = some (.load ⟨"x", "m"⟩) := by decide +kernel
  have hsecond : read? "{ } from m".toList = none := by decide +kernel
  have htrim : String.ofList (Text.trim "{ } from m".toList) = "{ } from m" := by decide +kernel
  refine ⟨["x load m".toList], "{ } from m".toList, ["x".toList], by decide +kernel, ?_, ?_⟩
  · exact List.forall_mem_singleton.mpr ⟨_, by rw [parse, hfirst]⟩
  · rw [parse, hsecond, htrim]

end Notebook.ImportLine
