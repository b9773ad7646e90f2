import Notebook.Cell.Script
import Notebook.Proofs.Text

/-! The markers of scripts. They are given by patterns with anchors and repetitions; a pattern is found just
where its word stands between the right characters, so lines that are added to a script never take a marker
away. -/
namespace Notebook

namespace Text

structure Position where
  before : List Char
  after : List Char

def Position.text (a : Position) : List Char :=
  a.before ++ a.after

/-- Patterns of text. -/
inductive Pattern where
  /-- The start of the text. -/
  | start
  /-- The end of the text. -/
  | finish
  /-- A character of a class. -/
  | one (isIn : Char → Bool)
  | literal (word : List Char)
  | either (p q : Pattern)
  | next (p q : Pattern)
  /-- The pattern once or more often. -/
  | repeated (p : Pattern)

namespace Pattern

/-- The text between two positions matches a pattern. -/
def Leads : Pattern → Position → Position → Prop
  | start, a, b => a.before = [] ∧ a = b
  | finish, a, b => a.after = [] ∧ a = b
  | one isIn, a, b => ∃ c, isIn c ∧ a.after = c :: b.after ∧ b.before = a.before ++ [c]
  | literal word, a, b => a.after = word ++ b.after ∧ b.before = a.before ++ word
  | either p q, a, b => p.Leads a b ∨ q.Leads a b
  | next p q, a, b => Relation.Comp p.Leads q.Leads a b
  | repeated p, a, b => Relation.TransGen p.Leads a b

def Finds (p : Pattern) (text : List Char) : Prop :=
  ∃ a b, a.text = text ∧ p.Leads a b

/-- Moving along a pattern keeps the text. -/
theorem text_of_leads {p : Pattern} {a b : Position} (h : p.Leads a b) : a.text = b.text := by
  induction p generalizing a b with
  | start => rw [h.2]
  | finish => rw [h.2]
  | one isIn =>
    obtain ⟨c, -, hafter, hbefore⟩ := h
    rw [Position.text, Position.text, hafter, hbefore, List.append_assoc, List.singleton_append]
  | literal word =>
    obtain ⟨hafter, hbefore⟩ := h
    rw [Position.text, Position.text, hafter, hbefore, List.append_assoc]
  | either p q ihp ihq => exact h.elim ihp ihq
  | next p q ihp ihq =>
    obtain ⟨m, hp, hq⟩ := h
    exact (ihp hp).trans (ihq hq)
  | repeated p ih =>
    induction h with
    | single h => exact ih h
    | tail _ h ihs => exact ihs.trans (ih h)

section Repeated
variable {p : Pattern} {a b : Position}

/-- A repetition can start wherever the pattern can. -/
theorem exists_repeated_leads_iff : (∃ b, (repeated p).Leads a b) ↔ ∃ b, p.Leads a b := by
  constructor
  · rintro ⟨b, h⟩
    obtain ⟨m, hm, -⟩ := Relation.TransGen.head'_iff.mp h
    exact ⟨m, hm⟩
  · rintro ⟨b, h⟩
    exact ⟨b, .single h⟩

/-- A repetition can end wherever the pattern can. -/
theorem exists_leads_repeated_iff : (∃ a, (repeated p).Leads a b) ↔ ∃ a, p.Leads a b := by
  constructor
  · rintro ⟨a, h⟩
    obtain ⟨m, -, hm⟩ := Relation.TransGen.tail'_iff.mp h
    exact ⟨m, hm⟩
  · rintro ⟨a, h⟩
    exact ⟨a, .single h⟩

end Repeated

section Borders
variable {isIn : Char → Bool} {x y : List Char}

private theorem exists_one_leads_iff : (∃ b, (one isIn).Leads ⟨x, y⟩ b) ↔ ∃ c ∈ y.head?, isIn c := by
  constructor
  · rintro ⟨b, c, hc, hy, -⟩
    exact ⟨c, congrArg List.head? hy, hc⟩
  · rintro ⟨c, hy, hc⟩
    obtain ⟨rest, hrest⟩ := List.head?_eq_some_iff.mp hy
    exact ⟨⟨x ++ [c], rest⟩, c, hc, hrest, rfl⟩

private theorem exists_finish_or_one_leads_iff :
    (∃ b, (either finish (one isIn)).Leads ⟨x, y⟩ b) ↔ y = [] ∨ ∃ c ∈ y.head?, isIn c := by
  rw [← exists_one_leads_iff (x := x)]
  constructor
  · rintro ⟨b, ⟨hy, -⟩ | h⟩
    · exact .inl hy
    · exact .inr ⟨b, h⟩
  · rintro (hy | ⟨b, h⟩)
    · exact ⟨_, .inl ⟨hy, rfl⟩⟩
    · exact ⟨b, .inr h⟩

private theorem exists_leads_start_or_one_iff :
    (∃ a, (either start (one isIn)).Leads a ⟨x, y⟩) ↔ x = [] ∨ ∃ c ∈ x.getLast?, isIn c := by
  constructor
  · rintro ⟨a, ⟨ha, rfl⟩ | ⟨c, hc, -, rfl⟩⟩
    · exact .inl ha
    · exact .inr ⟨c, List.getLast?_concat, hc⟩
  · rintro (hx | ⟨c, hx, hc⟩)
    · exact ⟨⟨x, y⟩, .inl ⟨hx, rfl⟩⟩
    · obtain ⟨front, hfront⟩ := List.getLast?_eq_some_iff.mp hx
      exact ⟨⟨front, c :: y⟩, .inr ⟨c, hc, rfl, hfront⟩⟩

end Borders

def bordered (p : Pattern) (word : List Char) (q : Pattern) : Pattern :=
  next (repeated p) (next (literal word) (repeated q))

/-- What a repetition passes over besides its last or its first round does not matter for a search. -/
theorem finds_bordered_iff {p q : Pattern} {word text : List Char} : (bordered p word q).Finds text ↔
    ∃ x y, text = x ++ word ++ y ∧ (∃ a, p.Leads a ⟨x, word ++ y⟩) ∧ ∃ b, q.Leads ⟨x ++ word, y⟩ b := by
  constructor
  · rintro ⟨a, b, htext, ⟨x, r⟩, hp, ⟨x', y⟩, ⟨hr, hx'⟩, hq⟩
    dsimp only at hr hx'
    subst hr hx'
    refine ⟨x, y, ?_, exists_leads_repeated_iff.mp ⟨a, hp⟩, exists_repeated_leads_iff.mp ⟨b, hq⟩⟩
    rw [← htext, text_of_leads hp, List.append_assoc]
    rfl
  · rintro ⟨x, y, htext, hp, hq⟩
    obtain ⟨a, ha⟩ := exists_leads_repeated_iff.mpr hp
    obtain ⟨b, hb⟩ := exists_repeated_leads_iff.mpr hq
    refine ⟨a, b, ?_, ⟨x, word ++ y⟩, ha, ⟨x ++ word, y⟩, ⟨rfl, rfl⟩, hb⟩
    rw [text_of_leads ha, htext, List.append_assoc]
    rfl

end Pattern

private theorem exists_getLast?_cons_iff {isIn : Char → Bool} {d : Char} {x : List Char} :
    (∃ c ∈ (d :: x).getLast?, isIn c) ↔ x = [] ∧ isIn d ∨ ∃ c ∈ x.getLast?, isIn c := by
  rw [List.getLast?_cons]
  cases hlast : x.getLast? with
  | none => simp [List.getLast?_eq_none_iff.mp hlast]
  | some c =>
    have hne : x ≠ [] := by
      rintro rfl
      cases hlast
    simp [hne]

/-- A word without line feeds stands on one side of a line feed or on the other. -/
theorem sides_of_line {word s t x y : List Char} (hword : '\n' ∉ word) (h : s ++ '\n' :: t = x ++ word ++ y) :
    (∃ z, s = x ++ word ++ z ∧ y = z ++ '\n' :: t) ∨ ∃ z, x = s ++ '\n' :: z ∧ t = z ++ word ++ y := by
  obtain ⟨m, hm, hrest⟩ | ⟨z, hs, hy⟩ := List.append_eq_append_iff.mp h
  · cases m with
    | nil =>
      rw [List.append_nil] at hm
      exact .inl ⟨[], by rw [hm, List.append_nil], hrest.symm⟩
    | cons c m =>
      -- the line feed stands before the end of the word, so it stands before the word
      obtain ⟨rfl, rfl⟩ := List.cons.inj hrest
      obtain ⟨z, -, hz⟩ | ⟨z, hx, hz⟩ := List.append_eq_append_iff.mp hm
      · exact absurd (hz ▸ List.mem_append_right z List.mem_cons_self) hword
      · cases z with
        | nil =>
          rw [List.nil_append] at hz
          exact absurd (hz ▸ List.mem_cons_self) hword
        | cons c z =>
          obtain ⟨rfl, rfl⟩ := List.cons.inj hz
          exact .inr ⟨z, hx, rfl⟩
  · exact .inl ⟨z, hs, hy⟩

end Text

namespace ScriptTraits
open Text

/-- The word stands in a text, first or after a character of a class, and before a text of a kind. -/
def Marked (isBefore : Char → Bool) (isAfter : List Char → Prop) (word text : List Char) : Prop :=
  ∃ x y, text = x ++ word ++ y ∧ (x = [] ∨ ∃ c ∈ x.getLast?, isBefore c) ∧ isAfter y

def BlankNext (cs : List Char) : Prop :=
  ∃ c ∈ cs.head?, isBlank c

/-- The pattern of `return`: white space or an end of the text on both sides. -/
def returnPattern : Pattern :=
  .bordered (.either .start (.one isBlank)) "return".toList (.either .finish (.one isBlank))

/-- The pattern of a word that no word character and only white space may adjoin. -/
def flavourPattern (word : List Char) : Pattern :=
  .bordered (.either .start (.one fun c => !isWord c)) word (.one isBlank)

private theorem finds_returnPattern_iff {text : List Char} : returnPattern.Finds text ↔
    Marked isBlank (fun y => y = [] ∨ BlankNext y) "return".toList text := by
  simp only [returnPattern, Pattern.finds_bordered_iff, Pattern.exists_leads_start_or_one_iff,
    Pattern.exists_finish_or_one_leads_iff]
  rfl

private theorem finds_flavourPattern_iff {word text : List Char} : (flavourPattern word).Finds text ↔
    Marked (fun c => !isWord c) BlankNext word text := by
  simp only [flavourPattern, Pattern.finds_bordered_iff, Pattern.exists_leads_start_or_one_iff,
    Pattern.exists_one_leads_iff]
  rfl

section Occurs
variable {isBefore : Char → Bool} {isAfter : List Char → Bool} {word : List Char}

private theorem any_after?_iff {cs : List Char} : (after? word cs).any isAfter ↔ ∃ y, cs = word ++ y ∧ isAfter y := by
  simp only [← after?_eq_some_iff]
  cases after? word cs <;> simp

/-- The search goes through the text from its start. Of what stands before it only knows whether the word
may follow. -/
theorem occurs_iff {mayStart : Bool} {cs : List Char} : occurs isBefore isAfter word mayStart cs ↔
    ∃ x y, cs = x ++ word ++ y ∧ (x = [] ∧ mayStart ∨ ∃ c ∈ x.getLast?, isBefore c) ∧ isAfter y := by
  induction cs generalizing mayStart with
  | nil =>
    rw [occurs, Bool.or_false, Bool.and_eq_true, any_after?_iff]
    constructor
    · rintro ⟨hstart, y, hcs, hy⟩
      exact ⟨[], y, hcs, .inl ⟨rfl, hstart⟩, hy⟩
    · rintro ⟨x, y, hcs, hx, hy⟩
      obtain ⟨rfl, -⟩ := List.append_eq_nil_iff.mp (List.append_eq_nil_iff.mp hcs.symm).1
      obtain ⟨-, hstart⟩ | ⟨c, hc, -⟩ := hx
      · exact ⟨hstart, y, hcs, hy⟩
      · cases hc
  | cons d cs ih =>
    rw [occurs, Bool.or_eq_true, Bool.and_eq_true, any_after?_iff, ih]
    constructor
    · rintro (⟨hstart, y, hcs, hy⟩ | ⟨x, y, rfl, hx, hy⟩)
      · exact ⟨[], y, hcs, .inl ⟨rfl, hstart⟩, hy⟩
      · exact ⟨d :: x, y, rfl, .inr (exists_getLast?_cons_iff.mpr hx), hy⟩
    · rintro ⟨x, y, hcs, hx, hy⟩
      cases x with
      | nil =>
        obtain ⟨-, hstart⟩ | ⟨c, hc, -⟩ := hx
        · exact .inl ⟨hstart, y, hcs, hy⟩
        · cases hc
      | cons e x =>
        obtain ⟨rfl, rfl⟩ := List.cons.inj hcs
        obtain ⟨hx, -⟩ | hx := hx
        · cases hx
        · exact .inr ⟨x, y, rfl, exists_getLast?_cons_iff.mp hx, hy⟩

private theorem occurs_iff_marked {P : List Char → Prop} (h : ∀ y, isAfter y ↔ P y) {cs : List Char} :
    occurs isBefore isAfter word true cs ↔ Marked isBefore P word cs := by
  simp only [occurs_iff, Marked, h, and_true]

end Occurs

section Lines
variable {isBefore : Char → Bool} {P Q : List Char → Prop} {word s t : List Char}

theorem Marked.imp (h : ∀ y, P y → Q y) : Marked isBefore P word s → Marked isBefore Q word s := by
  rintro ⟨x, y, hs, hx, hy⟩
  exact ⟨x, y, hs, hx, h y hy⟩

/-- After a line feed, a word may stand where it may at the start of a text. -/
theorem exists_getLast?_line_iff (hbefore : isBefore '\n') :
    (∃ c ∈ (s ++ '\n' :: t).getLast?, isBefore c) ↔ t = [] ∨ ∃ c ∈ t.getLast?, isBefore c := by
  rw [List.getLast?_append_cons, exists_getLast?_cons_iff, and_iff_left hbefore]

/-- Each side of a line feed is searched on its own. -/
theorem marked_line_iff (hword : '\n' ∉ word) (hbefore : isBefore '\n') :
    Marked isBefore P word (s ++ '\n' :: t) ↔
      Marked isBefore (fun y => P (y ++ '\n' :: t)) word s ∨ Marked isBefore P word t := by
  constructor
  · rintro ⟨x, y, htext, hx, hy⟩
    obtain ⟨z, hs, rfl⟩ | ⟨z, rfl, ht⟩ := sides_of_line hword htext
    · exact .inl ⟨x, z, hs, hx, hy⟩
    · obtain hnil | hlast := hx
      · exact absurd hnil (by simp)
      · exact .inr ⟨z, y, ht, (exists_getLast?_line_iff hbefore).mp hlast, hy⟩
  · rintro (⟨x, y, rfl, hx, hy⟩ | ⟨x, y, rfl, hx, hy⟩)
    · exact ⟨x, y ++ '\n' :: t, by simp, hx, hy⟩
    · exact ⟨s ++ '\n' :: x, y, by simp, .inr ((exists_getLast?_line_iff hbefore).mpr hx), hy⟩

private theorem blankNext_line_iff {y : List Char} : BlankNext (y ++ '\n' :: t) ↔ y = [] ∨ BlankNext y := by
  have hfeed : isBlank '\n' := by decide
  cases y <;> simp [BlankNext, hfeed]

end Lines

section Analyze
variable (s t : String)

private theorem hasReturn_iff : (analyze s).hasReturn ↔
    Marked isBlank (fun y => y = [] ∨ BlankNext y) "return".toList s.toList := by
  apply occurs_iff_marked
  intro y
  simp [BlankNext, Option.any_eq_true]

private theorem flavour_iff (word : List Char) :
    occurs (fun c => !isWord c) (fun cs => cs.head?.any isBlank) word true s.toList ↔
      Marked (fun c => !isWord c) BlankNext word s.toList := by
  apply occurs_iff_marked
  intro y
  simp [BlankNext, Option.any_eq_true]

private theorem isAsync_iff : (analyze s).isAsync ↔ Marked (fun c => !isWord c) BlankNext "await".toList s.toList :=
  flavour_iff s _

private theorem isGenerator_iff : (analyze s).isGenerator ↔
    Marked (fun c => !isWord c) BlankNext "yield".toList s.toList :=
  flavour_iff s _

private theorem toList_lines : (s ++ "\n" ++ t).toList = s.toList ++ '\n' :: t.toList := by
  simp

private theorem marked_flavour_line {word : List Char} (hword : '\n' ∉ word)
    (h : Marked (fun c => !isWord c) BlankNext word s.toList ∨ Marked (fun c => !isWord c) BlankNext word t.toList) :
    Marked (fun c => !isWord c) BlankNext word (s ++ "\n" ++ t).toList := by
  rw [toList_lines, marked_line_iff hword (by decide)]
  apply h.imp_left
  apply Marked.imp
  exact fun y hy => blankNext_line_iff.mpr (.inr hy)

private theorem hasReturn_lines :
    (analyze (s ++ "\n" ++ t)).hasReturn = ((analyze s).hasReturn || (analyze t).hasReturn) := by
  rw [Bool.eq_iff_iff, Bool.or_eq_true, hasReturn_iff, hasReturn_iff, hasReturn_iff, toList_lines,
    marked_line_iff (by decide) (by decide)]
  -- at the end of the first line, the line feed does what the end of the text did
  simp [blankNext_line_iff]

private theorem isAsync_lines (h : (analyze s).isAsync ∨ (analyze t).isAsync) : (analyze (s ++ "\n" ++ t)).isAsync := by
  rw [isAsync_iff, isAsync_iff] at h
  rw [isAsync_iff]
  exact marked_flavour_line s t (by decide) h

private theorem isGenerator_lines (h : (analyze s).isGenerator ∨ (analyze t).isGenerator) :
    (analyze (s ++ "\n" ++ t)).isGenerator := by
  rw [isGenerator_iff, isGenerator_iff] at h
  rw [isGenerator_iff]
  exact marked_flavour_line s t (by decide) h

private theorem isBody_lines (h : (analyze s).isBody ∨ (analyze t).isBody) : (analyze (s ++ "\n" ++ t)).isBody := by
  simp only [isBody, Bool.or_eq_true] at h ⊢
  rw [hasReturn_lines, Bool.or_eq_true]
  have hgenerator := isGenerator_lines s t
  tauto

end Analyze

/-- The markers of a script. It has a `return` just if the word stands in it between white space or the ends
of the text, and it awaits or yields just if the word stands in it before white space and after nothing or no
word character. These are the texts in which the patterns of the markers are found. So a script in two parts
has a `return` just if one of them has, it awaits or yields if one of them does, and it is taken for an
expression only if both of them are. -/
theorem analyze_marked (s t : String) :
    ((analyze s).hasReturn ↔ Marked isBlank (fun y => y = [] ∨ BlankNext y) "return".toList s.toList) ∧
    ((analyze s).isAsync ↔ Marked (fun c => !isWord c) BlankNext "await".toList s.toList) ∧
    ((analyze s).isGenerator ↔ Marked (fun c => !isWord c) BlankNext "yield".toList s.toList) ∧
    ((analyze s).hasReturn ↔ returnPattern.Finds s.toList) ∧
    ((analyze s).isAsync ↔ (flavourPattern "await".toList).Finds s.toList) ∧
    ((analyze s).isGenerator ↔ (flavourPattern "yield".toList).Finds s.toList) ∧
    (analyze (s ++ "\n" ++ t)).hasReturn = ((analyze s).hasReturn || (analyze t).hasReturn) ∧
    ((analyze s).isAsync ∨ (analyze t).isAsync → (analyze (s ++ "\n" ++ t)).isAsync) ∧
    ((analyze s).isGenerator ∨ (analyze t).isGenerator → (analyze (s ++ "\n" ++ t)).isGenerator) ∧
    ((analyze s).isBody ∨ (analyze t).isBody → (analyze (s ++ "\n" ++ t)).isBody) := by
  refine ⟨hasReturn_iff s, isAsync_iff s, isGenerator_iff s, ?_, ?_, ?_, hasReturn_lines s t, isAsync_lines s t,
    isGenerator_lines s t, isBody_lines s t⟩
  · rw [finds_returnPattern_iff, hasReturn_iff]
  · rw [finds_flavourPattern_iff, isAsync_iff]
  · rw [finds_flavourPattern_iff, isGenerator_iff]

/-- A line feed can also make a marker: `yield` marks nothing at the end of a text. -/
example : analyze "yield" = {} ∧ analyze "1" = {} ∧ (analyze ("yield" ++ "\n" ++ "1")).isGenerator := by
  decide +kernel

end ScriptTraits

end Notebook
