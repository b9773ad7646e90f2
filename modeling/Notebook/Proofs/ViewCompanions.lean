import Notebook.Proofs.ImportFragments
import Notebook.Proofs.Text

/-! Views and the cells of their values. The name of a view is made in two ways, from the words of a
script's name and from an import line; either way the cell with its value depends on exactly the name
that the statement in front of it binds. -/
namespace Notebook

namespace Text
variable {cs word : List Char}

theorem of_mem_words (h : word ∈ words cs) : word ≠ [] ∧ ∀ c ∈ word, isBlank c = false := by
  obtain ⟨hsplit, hne⟩ := List.mem_filter.mp h
  exact ⟨by simpa using hne, forall_of_mem_split hsplit⟩

private theorem ends_of_mem_words (h : word ∈ words cs) : opens (String.ofList word) ∧ closes (String.ofList word) := by
  obtain ⟨hne, hblank⟩ := of_mem_words h
  unfold opens closes
  rw [String.toList_ofList, List.head?_eq_some_head hne, List.getLast?_eq_some_getLast hne]
  exact ⟨by simp [hblank], by simp [hblank]⟩

private theorem after?_of_not_mem {start : List Char} {c : Char} (hc : c ∈ start) (h : c ∉ cs) :
    after? start cs = none := by
  rw [after?_eq_none_iff]
  exact fun hstart => h (hstart.subset hc)

/-- A word with a character behind it starts a text just if it is all that stands before the first such
character. -/
theorem after?_concat {start : List Char} {c : Char} (hstart : c ∉ start) (hword : c ∉ word) (rest : List Char) :
    after? (start ++ [c]) (word ++ c :: rest) = if word = start then some rest else none := by
  split
  · rename_i heq
    rw [after?_eq_some_iff, heq, List.append_assoc, List.singleton_append]
  · rename_i hne
    rw [after?_eq_none_iff]
    rintro ⟨more, hmore⟩
    rw [List.append_assoc, List.singleton_append] at hmore
    exact hne (append_cons_inj hstart hword hmore).1.symm

end Text

namespace CellName

def properWords (raw : Option String) : List (List Char) :=
  (Text.words (raw.getD "").toList).dropWhile (· == "hidden".toList)

/-- The name of the value of the view that a name is for: the word `viewof` and at least one more. -/
def viewed? (raw : Option String) : Option String :=
  match properWords raw with
  | mark :: word :: words =>
    if mark = "viewof".toList then some (Text.joined " " ((word :: words).map String.ofList)) else none
  | _ => none

theorem name_parse (raw : Option String) : (parse raw).name =
    if (properWords raw).isEmpty then none
    else some (Text.joined " " ((properWords raw).map String.ofList)) := rfl

private theorem mem_words_of_mem {raw : Option String} {word : List Char} (h : word ∈ properWords raw) :
    word ∈ Text.words (raw.getD "").toList :=
  (List.dropWhile_suffix _).subset h

private theorem space_not_mem (raw : Option String) {word : List Char} (h : word ∈ properWords raw) : ' ' ∉ word := by
  intro hspace
  have hblank := (Text.of_mem_words (mem_words_of_mem h)).2 ' ' hspace
  exact absurd hblank (by decide)

private theorem ends_of_words {raw : Option String} {mark word : List Char} {words : List (List Char)}
    (h : properWords raw = mark :: word :: words) :
    Text.opens (Text.joined " " ((word :: words).map String.ofList)) ∧
      Text.closes (Text.joined " " ((word :: words).map String.ofList)) := by
  rw [List.map_cons]
  apply Text.ends_joined
  rw [← List.map_cons, List.forall_mem_map]
  intro w hw
  apply Text.ends_of_mem_words
  exact mem_words_of_mem (h ▸ List.mem_cons_of_mem mark hw)

private theorem viewValue?_of_name {n : CellName} {name : String} (h : n.name = some name) :
    n.viewValue? = (Text.after? ("viewof".toList ++ [' ']) name.toList).bind Text.nonBlank? := by
  rw [viewValue?, h, Option.bind_some]
  rfl

/-- The mark of a view is the first of several words. What follows it is trimmed already. -/
theorem viewValue?_parse (raw : Option String) : (parse raw).viewValue? = viewed? raw := by
  have hname := name_parse raw
  rcases hwords : properWords raw with _ | ⟨mark, _ | ⟨word, words⟩⟩
  · rw [hwords] at hname
    rw [viewValue?, hname, viewed?, hwords]
    rfl
  · have hspace : ' ' ∉ mark := space_not_mem raw (by simp [hwords])
    have htext : (Text.joined " " ([mark].map String.ofList)).toList = mark := String.toList_ofList
    rw [hwords] at hname
    rw [viewValue?_of_name hname, viewed?, hwords, htext,
      Text.after?_of_not_mem (List.mem_append_right _ List.mem_cons_self) hspace]
    rfl
  · have hspace : ' ' ∉ mark := space_not_mem raw (by simp [hwords])
    obtain ⟨hopens, hcloses⟩ := ends_of_words hwords
    have htext : (Text.joined " " ((mark :: word :: words).map String.ofList)).toList =
        mark ++ ' ' :: (Text.joined " " ((word :: words).map String.ofList)).toList := by
      simp [Text.joined]
    rw [hwords] at hname
    rw [viewValue?_of_name hname, viewed?, hwords, htext, Text.after?_concat (by decide) hspace]
    dsimp only
    split
    · exact Text.nonBlank?_of_ends hopens hcloses
    · rfl

/-- A view is named after its value. -/
theorem name_of_viewed? {raw : Option String} {v : String} (h : viewed? raw = some v) :
    (parse raw).name = some ("viewof " ++ v) := by
  rcases hwords : properWords raw with _ | ⟨mark, _ | ⟨word, words⟩⟩
  · simp [viewed?, hwords] at h
  · simp [viewed?, hwords] at h
  · rw [viewed?, hwords] at h
    dsimp only at h
    split at h
    · rename_i hmark
      cases h
      rw [name_parse, hwords, hmark]
      rfl
    · cases h

end CellName

def CellBody.isArrow : CellBody → Bool
  | arrow _ _ => true
  | function _ _ _ => false

def Fragment.localName : Fragment → Option String
  | bring binding => some (binding.newName.getD binding.name)
  | define cell => cell.name

def Fragment.isArrow : Fragment → Bool
  | define cell => cell.body.isArrow
  | bring _ => false

def Fragment.IsValueOf (v : String) : Fragment → Prop
  | define cell => cell.name = some v ∧ cell.inputs = ["Generators", "viewof " ++ v] ∧
      cell.body = .arrow ["G", "_"] "G.input(_)"
  | bring _ => False

structure View where
  /-- The name of its value. -/
  value : String
  isImported : Bool
deriving DecidableEq

/-- The statements of something that makes a view, or makes none: the view with the cell of its value
right behind it, or no cell with an arrow at all. -/
def Accompanied : Option View → List Fragment → Prop
  | some w, fragments => ∃ view value : Fragment, fragments = [view, value] ∧
      view.imported.isSome = w.isImported ∧ view.isArrow = false ∧
      view.localName = some ("viewof " ++ w.value) ∧ value.IsValueOf w.value
  | none, fragments => ∀ fragment ∈ fragments, fragment.isArrow = false

/-- Every cell with an arrow is the value of the view that the statement right before it binds. -/
def WellAccompanied (fragments : List Fragment) : Prop :=
  ∀ before fragment after, fragments = before ++ fragment :: after → fragment.isArrow →
    ∃ earlier view v, before = earlier ++ [view] ∧ view.isArrow = false ∧
      view.localName = some ("viewof " ++ v) ∧ fragment.IsValueOf v

def ImportLine.view? : ImportLine → Option View
  | fromModule i => if i.viewOf then some ⟨i.localName, true⟩ else none
  | load _ => none

def Chunk.views (chunk : Chunk) : List (Option View) :=
  match ChunkKind.ofType chunk.type with
  | .ok .imports =>
    match ImportLine.parseAll chunk.content with
    | .ok lines => lines.map ImportLine.view?
    | .error _ => []
  | .ok .script => [(CellName.viewed? chunk.name).map (⟨·, false⟩)]
  | .ok _ => [none]
  | .error _ => []

section WellAccompanied
variable {first second : List Fragment}

private theorem wellAccompanied_of_no_arrow (h : ∀ fragment ∈ first, fragment.isArrow = false) :
    WellAccompanied first := by
  rintro before fragment after rfl harrow
  have hnone := h fragment (List.mem_append_right before List.mem_cons_self)
  rw [hnone] at harrow
  cases harrow

theorem WellAccompanied.append (hfirst : WellAccompanied first) (hsecond : WellAccompanied second) :
    WellAccompanied (first ++ second) := by
  intro before fragment after heq harrow
  rcases List.append_eq_append_iff.mp heq with ⟨start, rfl, hstart⟩ | ⟨rest, rfl, hrest⟩
  · obtain ⟨earlier, view, v, rfl, hview⟩ := hsecond start fragment after hstart harrow
    exact ⟨first ++ earlier, view, v, (List.append_assoc ..).symm, hview⟩
  · cases rest with
    | nil =>
      obtain ⟨earlier, view, v, hnil, -⟩ := hsecond [] fragment after hrest.symm harrow
      exact absurd hnil.symm (by simp)
    | cons next rest =>
      obtain ⟨rfl, -⟩ := List.cons.inj hrest
      exact hfirst before fragment rest rfl harrow

private theorem wellAccompanied_of_accompanied {view? : Option View} (h : Accompanied view? first) :
    WellAccompanied first := by
  cases view? with
  | none => exact wellAccompanied_of_no_arrow h
  | some w =>
    obtain ⟨view, value, rfl, -, hplain, hbound, hvalue⟩ := h
    intro before fragment after heq harrow
    rcases before with _ | ⟨a, _ | ⟨b, before⟩⟩
    · obtain ⟨rfl, -⟩ := List.cons.inj heq
      rw [hplain] at harrow
      cases harrow
    · simp only [List.cons_append, List.nil_append, List.cons.injEq] at heq
      obtain ⟨rfl, rfl, -⟩ := heq
      exact ⟨[], view, w.value, rfl, hplain, hbound, hvalue⟩
    · simp at heq

private theorem wellAccompanied_flatten {views : List (Option View)} {parts : List (List Fragment)}
    (h : List.Forall₂ Accompanied views parts) : WellAccompanied parts.flatten := by
  induction h with
  | nil => exact wellAccompanied_of_no_arrow (List.forall_mem_nil _)
  | cons hpart _ ih => exact (wellAccompanied_of_accompanied hpart).append ih

end WellAccompanied

namespace Cell
variable (hidden : Bool) (cell : Cell)

@[simp] theorem name_hide : (cell.hide hidden).name = cell.name := by
  cases hidden <;> rfl

@[simp] theorem inputs_hide : (cell.hide hidden).inputs = cell.inputs := by
  cases hidden <;> rfl

@[simp] theorem body_hide : (cell.hide hidden).body = cell.body := by
  cases hidden <;> rfl

private theorem isArrow_function (name : Option String) (inputs : List String) (isAsync isGenerator : Bool)
    (code : String) : (Fragment.define
      ((make name inputs (.function isAsync isGenerator code)).hide hidden)).isArrow = false := by
  simp [Fragment.isArrow, make, CellBody.isArrow]

private theorem isValueOf_viewValue (v : String) :
    (Fragment.define (viewValue ("viewof " ++ v) v hidden)).IsValueOf v := by
  simp [Fragment.IsValueOf, viewValue, make]

end Cell

private theorem ImportLine.accompanied_symbolFragments (i : ModuleImport) (constant : String) (hidden : Bool) :
    Accompanied (fromModule i).view? (symbolFragments i constant hidden) := by
  unfold view? symbolFragments
  dsimp only
  split
  · refine ⟨_, _, rfl, rfl, rfl, ?_, Cell.isValueOf_viewValue hidden i.localName⟩
    unfold Fragment.localName ModuleImport.localName
    cases i.newName <;> rfl
  · rw [Accompanied, List.forall_mem_singleton]
    rfl

private theorem ImportLine.accompanied_fragments (site : Site) (hidden : Bool) (r : Registry) (line : ImportLine) :
    Accompanied line.view? (line.fragments site hidden r).1 := by
  cases line with
  | fromModule i => exact accompanied_symbolFragments i _ hidden
  | load i =>
    rw [view?, fragments, Accompanied, List.forall_mem_singleton]
    exact Cell.isArrow_function hidden _ _ _ _ _

/-- The statements of import lines are made line by line. -/
theorem ImportLine.exists_parts (site : Site) (hidden : Bool) (lines : List ImportLine) (r : Registry) :
    ∃ parts, (allFragments site hidden lines r).1 = parts.flatten ∧
      List.Forall₂ Accompanied (lines.map view?) parts := by
  induction lines generalizing r with
  | nil => exact ⟨[], rfl, .nil⟩
  | cons line lines ih =>
    obtain ⟨parts, hparts, hviews⟩ := ih (line.fragments site hidden r).2
    refine ⟨(line.fragments site hidden r).1 :: parts, ?_, .cons (line.accompanied_fragments site hidden r) hviews⟩
    rw [List.flatten_cons, ← hparts]
    rfl

namespace Chunk
variable (chunk : Chunk)

private theorem accompanied_templateFragments (tag : String) : Accompanied none (chunk.templateFragments tag) := by
  rw [Accompanied, templateFragments, List.forall_mem_singleton]
  exact Cell.isArrow_function _ _ _ _ _ _

private theorem accompanied_scriptFragments :
    Accompanied ((CellName.viewed? chunk.name).map (⟨·, false⟩)) chunk.scriptFragments := by
  have hvalue := CellName.viewValue?_parse chunk.name
  unfold scriptFragments
  dsimp only
  cases hview : CellName.viewed? chunk.name with
  | none =>
    rw [hview] at hvalue
    rw [hvalue, Option.map_none, Accompanied, List.forall_mem_cons]
    refine ⟨Cell.isArrow_function _ _ _ _ _ _, ?_⟩
    cases (CellName.parse chunk.name).name <;> exact List.forall_mem_nil _
  | some v =>
    rw [hview] at hvalue
    rw [hvalue, CellName.name_of_viewed? hview]
    refine ⟨_, _, rfl, rfl, Cell.isArrow_function _ _ _ _ _ _, ?_, Cell.isValueOf_viewValue _ v⟩
    simp [Fragment.localName, Cell.make]

/-- Views and the cells of their values. Every cell with an arrow has the value of the view that the
statement right before it binds. Each import line that is marked as a view, and each script whose name
has the word `viewof` and another one after its words `hidden`, makes a view and then such a cell; nothing
else makes one. -/
theorem generate_accompanied (site : Site) (chunk : Chunk) (registry after : Registry) (out : List Fragment)
    (h : chunk.generate site registry = .ok (out, after)) :
    WellAccompanied out ∧ ∃ parts, out = parts.flatten ∧ List.Forall₂ Accompanied chunk.views parts := by
  suffices hparts : ∃ parts, out = parts.flatten ∧ List.Forall₂ Accompanied chunk.views parts by
    obtain ⟨parts, rfl, hviews⟩ := hparts
    exact ⟨wellAccompanied_flatten hviews, parts, rfl, hviews⟩
  have hsingle {view? : Option View} (hviews : chunk.views = [view?]) (hout : Accompanied view? out) :
      ∃ parts, out = parts.flatten ∧ List.Forall₂ Accompanied chunk.views parts :=
    ⟨[out], by simp, hviews ▸ .cons hout .nil⟩
  rcases generate_cases h with ⟨ht, heq⟩ | ⟨ht, heq⟩ | ⟨ht, heq⟩ | ⟨ht, lines, hl, heq⟩
  · cases heq
    have hviews : chunk.views = [none] := by
      rw [views, ht]
      rfl
    exact hsingle hviews (chunk.accompanied_templateFragments "md")
  · cases heq
    have hviews : chunk.views = [none] := by
      rw [views, ht]
      rfl
    exact hsingle hviews (chunk.accompanied_templateFragments "html")
  · cases heq
    have hviews : chunk.views = [(CellName.viewed? chunk.name).map (⟨·, false⟩)] := by
      rcases ht with ht | ht <;> rw [views, ht] <;> rfl
    exact hsingle hviews chunk.accompanied_scriptFragments
  · have hviews : chunk.views = lines.map ImportLine.view? := by
      rw [views, ht, hl]
      rfl
    obtain ⟨parts, hparts, hlines⟩ :=
      ImportLine.exists_parts site (CellName.parse chunk.name).hidden lines registry
    exact ⟨parts, (congrArg Prod.fst heq).trans hparts, hviews ▸ hlines⟩

def slider : Chunk :=
  { index := 0, type := "imports", name := some "hidden",
    content := "\x7bviewof s as viewof t\x7d from m\n\x7ba\x7d from m\nf load f.csv" }

theorem generate_accompanied_slider : slider.views = [some ⟨"t", true⟩, none, none] ∧
    ∃ out after, slider.generate {} {} = .ok (out, after) ∧ WellAccompanied out ∧
      ∃ parts, out = parts.flatten ∧ List.Forall₂ Accompanied [some ⟨"t", true⟩, none, none] parts := by
  have hviews : slider.views = [some ⟨"t", true⟩, none, none] := by decide +kernel
  have hok : slider.generate {} {} = .ok ([.bring ⟨"viewof s", some "viewof t", "child0"⟩,
      .define (Cell.viewValue "viewof t" "t" true), .bring ⟨"a", none, "child0"⟩,
      .define (ImportLine.fetchCell {} ⟨"f", "f.csv"⟩ true)], ({} : Registry).registerAll ["m"]) := by
    decide +kernel
  exact ⟨hviews, _, _, hok, hviews ▸ generate_accompanied {} slider {} _ _ hok⟩

end Chunk

end Notebook
