import Notebook.Proofs.StatementText
import Notebook.Proofs.ViewCompanions

/-! Which cells are observed. The observer is set in five places; in all of them a cell is observed just if
it has a name and the name of its chunk does not begin with the word `hidden`, and the text of its statement
shows it. The words `hidden` are no part of a name, so a name is read again as it is. -/
namespace Notebook

namespace Text

/-- Words with single spaces between them are read as these words. -/
theorem words_joined {ws : List (List Char)} (h : ∀ w ∈ ws, w ≠ [] ∧ ∀ c ∈ w, isBlank c = false) :
    words (joined " " (ws.map String.ofList)).toList = ws :=
  filter_split_joined (c := ' ') rfl (by decide) h

end Text

namespace CellName

def Hides (raw : Option String) : Prop :=
  (Text.words (raw.getD "").toList).head? = some "hidden".toList

instance : DecidablePred Hides := fun _ => inferInstanceAs (Decidable (_ = _))

/-- A name is made of the words of another one that are left after all leading words `hidden`, with single
spaces between them; if none is left, there is no name. -/
def IsProperName (raw name : Option String) : Prop :=
  ∃ n words, Text.words (raw.getD "").toList = List.replicate n "hidden".toList ++ words ∧
    words.head? ≠ some "hidden".toList ∧
    name = if words.isEmpty then none else some (Text.joined " " (words.map String.ofList))

section Leading
variable {mark : List Char} {ws : List (List Char)}

private theorem dropWhile_eq_self (h : ws.head? ≠ some mark) : ws.dropWhile (· == mark) = ws := by
  cases ws with
  | nil => rfl
  | cons word ws =>
    apply List.dropWhile_cons_of_neg
    simpa using h

/-- Words are dropped just if the first one is. -/
theorem length_dropWhile_lt_iff : (ws.dropWhile (· == mark)).length < ws.length ↔ ws.head? = some mark := by
  constructor
  · intro h
    by_contra hhead
    rw [dropWhile_eq_self hhead] at h
    exact lt_irrefl _ h
  · intro h
    obtain ⟨rest, rfl⟩ := List.head?_eq_some_iff.mp h
    rw [List.dropWhile_cons_of_pos (by simp), List.length_cons]
    exact Nat.lt_succ_of_le (List.length_dropWhile_le ..)

private theorem exists_replicate_append (mark : List Char) (ws : List (List Char)) :
    ∃ n, ws = List.replicate n mark ++ ws.dropWhile (· == mark) := by
  have hall : ∀ word ∈ ws.takeWhile (· == mark), word = mark := by
    intro word hword
    simpa using List.mem_takeWhile_imp hword
  refine ⟨(ws.takeWhile (· == mark)).length, ?_⟩
  rw [← List.eq_replicate_length.mpr hall, List.takeWhile_append_dropWhile]

private theorem head?_dropWhile_ne (mark : List Char) (ws : List (List Char)) :
    (ws.dropWhile (· == mark)).head? ≠ some mark := by
  intro hhead
  have hnot := List.head?_dropWhile_not (· == mark) ws
  rw [hhead] at hnot
  simp at hnot

end Leading

private theorem hidden_parse_iff (raw : Option String) : (parse raw).hidden ↔ Hides raw := by
  have hlength : (parse raw).hidden =
      decide ((properWords raw).length < (Text.words (raw.getD "").toList).length) := rfl
  rw [hlength, decide_eq_true_iff]
  exact length_dropWhile_lt_iff

private theorem isProperName_parse (raw : Option String) : IsProperName raw (parse raw).name := by
  obtain ⟨n, hwords⟩ := exists_replicate_append "hidden".toList (Text.words (raw.getD "").toList)
  exact ⟨n, properWords raw, hwords, head?_dropWhile_ne _ _, name_parse raw⟩

/-- A name without leading words `hidden` is read as itself. -/
theorem parse_of_isProperName {raw name : Option String} (h : IsProperName raw name) :
    parse name = ⟨name, false⟩ := by
  obtain ⟨n, words, hraw, hhead, rfl⟩ := h
  cases words with
  | nil => rfl
  | cons word words =>
    let name := Text.joined " " ((word :: words).map String.ofList)
    have hread : Text.words ((some name).getD "").toList = word :: words := by
      apply Text.words_joined
      intro w hw
      exact Text.of_mem_words (hraw ▸ List.mem_append_right _ hw)
    have hproper : properWords (some name) = word :: words := by
      rw [properWords, hread, dropWhile_eq_self hhead]
    have hname : (parse (some name)).name = some name := by
      rw [name_parse, hproper]
      rfl
    have hhidden : (parse (some name)).hidden = false := by
      rw [Bool.eq_false_iff, ne_eq, hidden_parse_iff, Hides, hread]
      exact hhead
    calc
      parse (some name) = ⟨(parse (some name)).name, (parse (some name)).hidden⟩ := rfl
      _ = ⟨some name, false⟩ := by rw [hname, hhidden]

end CellName

namespace Cell
variable {cell : Cell}

private theorem observed_hide_make (name : Option String) (inputs : List String) (body : CellBody) (hidden : Bool) :
    ((make name inputs body).hide hidden).observed = (name.isSome && !hidden) := by
  cases hidden <;> simp [make, hide]

/-- The text of a cell with an observer begins with it. -/
theorem prefix_text_of_observed {name : String} (hobserved : cell.observed = true) (hname : cell.name = some name) :
    ("main.variable(observer(" ++ Text.quoted name ++ ")).define(").toList <+: cell.text.toList := by
  have hobserver : cell.observer = "observer(" ++ Text.quoted name ++ ")" := by rw [observer, hobserved, hname]
  rw [toList_text, hobserver]
  simp

private theorem prefix_text_of_not_observed (hobserved : cell.observed = false) :
    "main.variable().define(".toList <+: cell.text.toList := by
  have hwatched : cell.isWatched = false := by rw [isWatched, hobserved, Bool.false_and]
  rw [toList_text, observer_of_not_watched hwatched]
  simp

end Cell

/-- A cell is observed just if it has a name and is not hidden. -/
def Fragment.IsVisible (hidden : Bool) : Fragment → Prop
  | define cell => cell.observed = (cell.name.isSome && !hidden)
  | bring _ => True

section Visible
variable (hidden : Bool)

private theorem Cell.isVisible_make (name : Option String) (inputs : List String) (body : CellBody) :
    (Fragment.define ((make name inputs body).hide hidden)).IsVisible hidden := by
  rw [Fragment.IsVisible, observed_hide_make, name_hide]
  rfl

private theorem ImportLine.isVisible_symbolFragments (i : ModuleImport) (constant : String) :
    ∀ fragment ∈ symbolFragments i constant hidden, fragment.IsVisible hidden := by
  unfold symbolFragments
  split
  · simp only [List.forall_mem_cons]
    exact ⟨trivial, Cell.isVisible_make hidden _ _ _, List.forall_mem_nil _⟩
  · exact List.forall_mem_singleton.mpr trivial

private theorem ImportLine.isVisible_fragments (site : Site) (r : Registry) (line : ImportLine) :
    ∀ fragment ∈ (line.fragments site hidden r).1, fragment.IsVisible hidden := by
  cases line with
  | fromModule i => exact isVisible_symbolFragments hidden i _
  | load i => exact List.forall_mem_singleton.mpr (Cell.isVisible_make hidden _ _ _)

private theorem ImportLine.isVisible_allFragments (site : Site) (lines : List ImportLine) (r : Registry) :
    ∀ fragment ∈ (allFragments site hidden lines r).1, fragment.IsVisible hidden := by
  induction lines generalizing r with
  | nil => exact List.forall_mem_nil _
  | cons line lines ih =>
    exact List.forall_mem_append.mpr ⟨line.isVisible_fragments hidden site r, ih _⟩

end Visible

namespace Chunk
variable (chunk : Chunk)

/-- The first statement defines the cell that the chunk names, and all others cells with an arrow. -/
def Names (fragments : List Fragment) : Prop :=
  ∃ cell rest, fragments = .define cell :: rest ∧ cell.name = (CellName.parse chunk.name).name ∧
    ∀ fragment ∈ rest, fragment.isArrow

private theorem isVisible_templateFragments (tag : String) :
    ∀ fragment ∈ chunk.templateFragments tag, fragment.IsVisible (CellName.parse chunk.name).hidden :=
  List.forall_mem_singleton.mpr (Cell.isVisible_make _ _ _ _)

private theorem names_templateFragments (tag : String) : chunk.Names (chunk.templateFragments tag) :=
  ⟨_, [], rfl, Cell.name_hide _ _, List.forall_mem_nil _⟩

/-- The cell of a script and that of its value share their visibility. -/
theorem isVisible_scriptFragments :
    ∀ fragment ∈ chunk.scriptFragments, fragment.IsVisible (CellName.parse chunk.name).hidden := by
  unfold scriptFragments
  dsimp only
  rw [List.forall_mem_cons]
  refine ⟨Cell.isVisible_make _ _ _ _, ?_⟩
  split
  · exact List.forall_mem_singleton.mpr (Cell.isVisible_make _ _ _ _)
  · exact List.forall_mem_nil _

private theorem names_scriptFragments : chunk.Names chunk.scriptFragments := by
  unfold scriptFragments
  refine ⟨_, _, rfl, Cell.name_hide _ _, ?_⟩
  split
  · rw [List.forall_mem_singleton, Fragment.isArrow, Cell.viewValue, Cell.body_hide]
    rfl
  · exact List.forall_mem_nil _

section Generate
variable {chunk} {site : Site} {registry after : Registry} {out : List Fragment}

private theorem isVisible_generate (h : chunk.generate site registry = .ok (out, after)) :
    ∀ fragment ∈ out, fragment.IsVisible (CellName.parse chunk.name).hidden := by
  rcases generate_cases h with ⟨-, heq⟩ | ⟨-, heq⟩ | ⟨-, heq⟩ | ⟨-, lines, -, heq⟩
  · cases heq
    exact chunk.isVisible_templateFragments "md"
  · cases heq
    exact chunk.isVisible_templateFragments "html"
  · cases heq
    exact chunk.isVisible_scriptFragments
  · obtain rfl : out = _ := congrArg Prod.fst heq
    exact ImportLine.isVisible_allFragments _ site lines registry

private theorem names_generate (h : chunk.generate site registry = .ok (out, after)) (ht : chunk.type ≠ "imports") :
    chunk.Names out := by
  rcases generate_cases h with ⟨-, heq⟩ | ⟨-, heq⟩ | ⟨-, heq⟩ | ⟨ht', -⟩
  · cases heq
    exact chunk.names_templateFragments "md"
  · cases heq
    exact chunk.names_templateFragments "html"
  · cases heq
    exact chunk.names_scriptFragments
  · exact absurd ht' ht

end Generate

/-- Visibility. Whatever the kind of a chunk, each cell it defines is observed just if it has a name and the
first word of the chunk's name is not `hidden`; its statement then registers an observer under its name, and
none otherwise. The cell of prose, markup or a script has the words of the chunk's name that are left after
the words `hidden`; this name is read as itself, and as one that hides nothing. -/
theorem generate_visible (site : Site) (chunk : Chunk) (registry after : Registry) (out : List Fragment)
    (h : chunk.generate site registry = .ok (out, after)) :
    (∀ cell, .define cell ∈ out →
      (cell.observed ↔ cell.name.isSome ∧ ¬ CellName.Hides chunk.name) ∧
      (cell.observed → ∃ name, cell.name = some name ∧
        ("main.variable(observer(" ++ Text.quoted name ++ ")).define(").toList <+: cell.text.toList) ∧
      (cell.observed = false → "main.variable().define(".toList <+: cell.text.toList)) ∧
    (chunk.type ≠ "imports" → ∃ cell rest, out = .define cell :: rest ∧
      CellName.IsProperName chunk.name cell.name ∧ CellName.parse cell.name = ⟨cell.name, false⟩ ∧
      ∀ fragment ∈ rest, fragment.isArrow) := by
  constructor
  · intro cell hcell
    have hobserved : cell.observed = (cell.name.isSome && !(CellName.parse chunk.name).hidden) :=
      isVisible_generate h _ hcell
    have hiff : cell.observed ↔ cell.name.isSome ∧ ¬ CellName.Hides chunk.name := by
      rw [hobserved, ← CellName.hidden_parse_iff, Bool.and_eq_true, Bool.not_eq_true', Bool.not_eq_true]
    refine ⟨hiff, fun ho => ?_, Cell.prefix_text_of_not_observed⟩
    obtain ⟨name, hname⟩ := Option.isSome_iff_exists.mp (hiff.mp ho).1
    exact ⟨name, hname, Cell.prefix_text_of_observed ho hname⟩
  · intro ht
    obtain ⟨cell, rest, hout, hname, hrest⟩ := names_generate h ht
    have hproper : CellName.IsProperName chunk.name cell.name := hname ▸ CellName.isProperName_parse chunk.name
    exact ⟨cell, rest, hout, hproper, CellName.parse_of_isProperName hproper, hrest⟩

def spaced : Chunk :=
  { index := 0, type := "js", name := some "hidden\u00a0hidden\t viewof\u3000x", content := "1" }

theorem generate_visible_spaced : CellName.Hides spaced.name ∧
    ∃ cell value, spaced.generate {} {} = .ok ([.define cell, .define value], {}) ∧
      cell.observed = false ∧ value.observed = false ∧
      "main.variable().define(".toList <+: value.text.toList ∧
      cell.name = some "viewof x" ∧ CellName.parse (some "viewof x") = ⟨some "viewof x", false⟩ := by
  have hhides : CellName.Hides spaced.name := by decide +kernel
  let cell := Cell.hide true (.make (some "viewof x") [] (.function false false "return (\n  1\n)"))
  let value := Cell.viewValue "viewof x" "x" true
  have hok : spaced.generate {} {} = .ok ([.define cell, .define value], {}) := by decide +kernel
  obtain ⟨hcells, hnames⟩ := generate_visible {} spaced {} {} _ hok
  obtain ⟨hcell, -⟩ := hcells cell List.mem_cons_self
  obtain ⟨hvalue, -, htext⟩ := hcells value (List.mem_cons_of_mem _ List.mem_cons_self)
  have hhidden {c : Cell} (h : c.observed ↔ c.name.isSome ∧ ¬ CellName.Hides spaced.name) : c.observed = false :=
    Bool.eq_false_iff.mpr fun ho => (h.mp ho).2 hhides
  obtain ⟨_, _, hout, -, hparse, -⟩ := hnames (by decide)
  cases hout
  exact ⟨hhides, cell, value, hok, hhidden hcell, hhidden hvalue, htext (hhidden hvalue), rfl, hparse⟩

end Chunk

end Notebook
