import Notebook.Cell.Fragment
import Notebook.Proofs.Quoting
import Notebook.Proofs.Text

/-! What the text of a statement tells. Parts that may be absent are followed by characters that none of
them starts with, and all that comes from a notebook is quoted, so that the text can be taken apart in one
way only. -/
namespace Notebook

namespace Text

def argument (value : Option String) : String :=
  value.elim "" fun s => quoted s ++ ", "

section Inj
variable {x y : List Char}

private theorem head?_quoted_append (s : String) (x : List Char) : ((quoted s).toList ++ x).head? = some '"' := by
  rw [toList_quoted, List.head?_cons]

private theorem toList_argument_some (s : String) (x : List Char) :
    (argument (some s)).toList ++ x = (quoted s).toList ++ (", ".toList ++ x) := by
  rw [argument, Option.elim_some, String.toList_append, List.append_assoc]

/-- An argument is absent just if no quote follows. -/
theorem argument_append_inj {a b : Option String} (hx : x.head? ≠ some '"') (hy : y.head? ≠ some '"')
    (h : (argument a).toList ++ x = (argument b).toList ++ y) : a = b ∧ x = y := by
  cases a with
  | none =>
    cases b with
    | none => exact ⟨rfl, h⟩
    | some t =>
      rw [toList_argument_some] at h
      exact absurd ((congrArg List.head? h).trans (head?_quoted_append t _)) hx
  | some s =>
    rw [toList_argument_some] at h
    cases b with
    | none => exact absurd ((congrArg List.head? h).symm.trans (head?_quoted_append s _)) hy
    | some t =>
      rw [toList_argument_some] at h
      obtain ⟨rfl, hrest⟩ := quoted_append_inj h
      exact ⟨rfl, List.append_cancel_left hrest⟩

/-- The items after the first one of a list, up to its bracket. -/
theorem join_quoted_append_inj {as bs : List String}
    (h : (String.join (as.map fun s => ", " ++ quoted s)).toList ++ ']' :: x =
      (String.join (bs.map fun s => ", " ++ quoted s)).toList ++ ']' :: y) : as = bs ∧ x = y := by
  induction as generalizing bs with
  | nil =>
    cases bs with
    | nil => exact ⟨rfl, (List.cons.inj h).2⟩
    | cons t bs =>
      rw [List.map_cons, String.join_cons, String.toList_append, String.toList_append] at h
      exact absurd (List.cons.inj h).1 (by decide)
  | cons s as ih =>
    rw [List.map_cons, String.join_cons, String.toList_append, String.toList_append] at h
    cases bs with
    | nil => exact absurd (List.cons.inj h).1 (by decide)
    | cons t bs =>
      rw [List.map_cons, String.join_cons, String.toList_append, String.toList_append] at h
      simp only [List.append_assoc] at h
      obtain ⟨rfl, hrest⟩ := quoted_append_inj (List.append_cancel_left h)
      obtain ⟨rfl, rfl⟩ := ih hrest
      exact ⟨rfl, rfl⟩

private theorem toList_quotedList_cons (s : String) (ss : List String) :
    (joined ", " ((s :: ss).map quoted)).toList ++ x =
      (quoted s).toList ++ ((String.join (ss.map fun s => ", " ++ quoted s)).toList ++ x) := by
  rw [List.map_cons, joined_cons, List.map_map, String.toList_append, List.append_assoc]
  rfl

/-- A list of quoted texts in brackets is told apart by itself. -/
theorem quotedList_append_inj {as bs : List String}
    (h : (joined ", " (as.map quoted)).toList ++ ']' :: x = (joined ", " (bs.map quoted)).toList ++ ']' :: y) :
    as = bs ∧ x = y := by
  cases as with
  | nil =>
    cases bs with
    | nil => exact ⟨rfl, (List.cons.inj h).2⟩
    | cons t bs =>
      rw [toList_quotedList_cons] at h
      exact absurd ((congrArg List.head? h).trans (head?_quoted_append t _)) (by simp [joined])
  | cons s as =>
    rw [toList_quotedList_cons] at h
    cases bs with
    | nil => exact absurd ((congrArg List.head? h).symm.trans (head?_quoted_append s _)) (by simp [joined])
    | cons t bs =>
      rw [toList_quotedList_cons] at h
      obtain ⟨rfl, hrest⟩ := quoted_append_inj h
      obtain ⟨rfl, rfl⟩ := join_quoted_append_inj hrest
      exact ⟨rfl, rfl⟩

end Inj

end Text

namespace Cell
variable {cell cell' : Cell}

def isWatched (cell : Cell) : Bool :=
  cell.observed && cell.name.isSome

private theorem toList_observer_of_watched (h : cell.isWatched = true) (x : List Char) :
    ∃ name, cell.observer.toList ++ x = "observer(".toList ++ ((Text.quoted name).toList ++ ')' :: x) := by
  rw [isWatched, Bool.and_eq_true, Option.isSome_iff_exists] at h
  obtain ⟨hobserved, name, hname⟩ := h
  refine ⟨name, ?_⟩
  rw [observer, hobserved, hname]
  dsimp only
  rw [String.toList_append, String.toList_append, List.append_assoc, List.append_assoc]
  rfl

theorem observer_of_not_watched (h : cell.isWatched = false) : cell.observer = "" := by
  unfold observer
  split
  · rename_i hobserved hname
    simp [isWatched, hobserved, hname] at h
  · rfl

private theorem observer_append_inj {x y : List Char}
    (h : cell.observer.toList ++ ')' :: x = cell'.observer.toList ++ ')' :: y) :
    cell.isWatched = cell'.isWatched ∧ x = y := by
  cases hw : cell.isWatched with
  | false =>
    rw [observer_of_not_watched hw] at h
    cases hw' : cell'.isWatched with
    | false =>
      rw [observer_of_not_watched hw'] at h
      exact ⟨rfl, (List.cons.inj h).2⟩
    | true =>
      obtain ⟨name', htext'⟩ := toList_observer_of_watched hw' (')' :: y)
      exact absurd (List.cons.inj (h.trans htext')).1 (by decide)
  | true =>
    obtain ⟨name, htext⟩ := toList_observer_of_watched hw (')' :: x)
    cases hw' : cell'.isWatched with
    | false =>
      rw [observer_of_not_watched hw'] at h
      exact absurd (List.cons.inj (htext.symm.trans h)).1 (by decide)
    | true =>
      obtain ⟨name', htext'⟩ := toList_observer_of_watched hw' (')' :: y)
      rw [htext, htext'] at h
      obtain ⟨-, hrest⟩ := Text.quoted_append_inj (List.append_cancel_left h)
      exact ⟨rfl, by simpa using hrest⟩

def flavour (isAsync isGenerator : Bool) : String :=
  (if isAsync then "async " else "") ++ "function" ++ (if isGenerator then "*" else "")

private theorem flavour_append_inj {isAsync isAsync' isGenerator isGenerator' : Bool} {x y : List Char}
    (h : (flavour isAsync isGenerator).toList ++ '(' :: x = (flavour isAsync' isGenerator').toList ++ '(' :: y) :
    isAsync = isAsync' ∧ isGenerator = isGenerator' ∧ x = y := by
  cases isAsync <;> cases isAsync' <;> cases isGenerator <;> cases isGenerator' <;>
    simp [flavour] at h ⊢ <;> exact h

private theorem function_of_body {isAsync isGenerator : Bool} {code : String}
    (h : cell.body = .function isAsync isGenerator code) : cell.function.toList =
      (flavour isAsync isGenerator).toList ++ '(' :: ((Text.joined ", " cell.params).toList ++
        (") \x7b ".toList ++ (code.toList ++ ['}']))) := by
  unfold function
  rw [h]
  dsimp only
  simp [flavour]

theorem toList_text (cell : Cell) : cell.text.toList = "main.variable(".toList ++ (cell.observer.toList ++
    ')' :: (".define(".toList ++ ((Text.argument cell.name).toList ++
      '[' :: ((Text.joined ", " (cell.inputs.map Text.quoted)).toList ++
        ']' :: (", ".toList ++ (cell.function.toList ++ [')'])))))) := by
  unfold text
  simp [Text.argument]

/-- Whether an observer is asked for matters only to a cell with a name. -/
theorem text_congr (hname : cell.name = cell'.name) (hinputs : cell.inputs = cell'.inputs)
    (hbody : cell.body = cell'.body) (hwatched : cell.isWatched = cell'.isWatched) : cell.text = cell'.text := by
  have hobserver : cell.observer = cell'.observer := by
    unfold observer
    rw [isWatched, isWatched, ← hname] at hwatched
    rw [← hname]
    cases hcell : cell.name with
    | none => cases cell.observed <;> cases cell'.observed <;> rfl
    | some name =>
      have hobserved : cell.observed = cell'.observed := by simpa [hcell] using hwatched
      rw [hobserved]
  unfold text function params
  rw [hobserver, hname, hinputs, hbody]

/-- The text of a cell with a function tells its name, its inputs, its function, and whether it is
watched. -/
theorem eq_of_text_eq {isAsync isAsync' isGenerator isGenerator' : Bool} {code code' : String}
    (hbody : cell.body = .function isAsync isGenerator code)
    (hbody' : cell'.body = .function isAsync' isGenerator' code') (h : cell.text = cell'.text) :
    cell.name = cell'.name ∧ cell.inputs = cell'.inputs ∧ cell.body = cell'.body ∧
      cell.isWatched = cell'.isWatched := by
  have htext := congrArg String.toList h
  rw [toList_text, toList_text] at htext
  -- The parts are taken off from the left; each shows by itself where it ends.
  obtain ⟨hwatched, h₁⟩ := observer_append_inj (List.append_cancel_left htext)
  obtain ⟨hname, h₂⟩ := Text.argument_append_inj (by simp) (by simp) (List.append_cancel_left h₁)
  obtain ⟨hinputs, h₃⟩ := Text.quotedList_append_inj (List.cons.inj h₂).2
  have hfunction := List.append_cancel_right (List.append_cancel_left h₃)
  have hparams : cell.params = cell'.params := by rw [params, hinputs, params]
  rw [function_of_body hbody, function_of_body hbody', hparams] at hfunction
  obtain ⟨rfl, rfl, h₄⟩ := flavour_append_inj hfunction
  have hcode := List.append_cancel_right (List.append_cancel_left (List.append_cancel_left h₄))
  refine ⟨hname, hinputs, ?_, hwatched⟩
  rw [hbody, hbody', String.toList_inj.mp hcode]

end Cell

theorem ImportBinding.toList_text (b : ImportBinding) :
    b.text.toList = "main.import(".toList ++ ((Text.quoted b.name).toList ++ (", ".toList ++
      ((Text.argument b.newName).toList ++ (b.moduleBinding.toList ++ [')'])))) := by
  unfold text
  simp [Text.argument]

/-- The text of an import tells all about it, unless the module's constant looks like an argument. -/
theorem ImportBinding.eq_of_text_eq {b b' : ImportBinding} (hb : b.moduleBinding.toList.head? ≠ some '"')
    (hb' : b'.moduleBinding.toList.head? ≠ some '"') (h : b.text = b'.text) :
    b.name = b'.name ∧ b.newName = b'.newName ∧ b.moduleBinding = b'.moduleBinding := by
  have hrest {b : ImportBinding} (hb : b.moduleBinding.toList.head? ≠ some '"') :
      (b.moduleBinding.toList ++ [')']).head? ≠ some '"' := by
    rw [List.head?_append]
    cases hc : b.moduleBinding.toList.head? with
    | none => simp
    | some c => simpa [hc] using hb
  have htext := congrArg String.toList h
  rw [toList_text, toList_text] at htext
  obtain ⟨hname, h₁⟩ := Text.quoted_append_inj (List.append_cancel_left htext)
  obtain ⟨hnew, h₂⟩ := Text.argument_append_inj (hrest hb) (hrest hb') (List.append_cancel_left h₁)
  exact ⟨hname, hnew, String.toList_inj.mp (List.append_cancel_right h₂)⟩

namespace Fragment

/-- A statement of one of two kinds: an import from a numbered constant, or a cell with a function. -/
def Standard : Fragment → Prop
  | bring binding => ∃ digits : List Char, (∀ d ∈ digits, d.isDigit) ∧
      binding.moduleBinding.toList = "child".toList ++ digits
  | define cell => ∃ isAsync isGenerator code, cell.body = .function isAsync isGenerator code

/-- Two statements that say the same. Whether an observer is asked for does not matter to a cell without
a name. -/
def Agrees : Fragment → Fragment → Prop
  | bring b, bring b' => b.name = b'.name ∧ b.newName = b'.newName ∧ b.moduleBinding = b'.moduleBinding
  | define cell, define cell' => cell.name = cell'.name ∧ cell.inputs = cell'.inputs ∧
      cell.body = cell'.body ∧ (cell.observed && cell.name.isSome) = (cell'.observed && cell'.name.isSome)
  | bring _, define _ | define _, bring _ => False

private theorem text_define_ne_bring (cell : Cell) (b : ImportBinding) : (define cell).text ≠ (bring b).text := by
  intro h
  have htext : cell.text.toList = b.text.toList := congrArg String.toList h
  rw [Cell.toList_text, ImportBinding.toList_text] at htext
  simp at htext

private theorem text_eq_of_agrees {f g : Fragment} (h : f.Agrees g) : f.text = g.text := by
  cases f with
  | bring b =>
    cases g with
    | bring b' =>
      obtain ⟨hname, hnew, hmodule⟩ := h
      have heq : b = b' := by
        cases b
        cases b'
        simp_all
      rw [heq]
    | define cell => exact h.elim
  | define cell =>
    cases g with
    | bring b => exact h.elim
    | define cell' =>
      obtain ⟨hname, hinputs, hbody, hwatched⟩ := h
      exact Cell.text_congr hname hinputs hbody hwatched

/-- The text of a statement determines what it says: the kind of the statement, all of an import, and of
a cell its name, its inputs in order, its function, and whether an observer is registered. -/
theorem text_eq_iff_agrees (f g : Fragment) (hf : f.Standard) (hg : g.Standard) :
    f.text = g.text ↔ f.Agrees g := by
  refine ⟨fun h => ?_, text_eq_of_agrees⟩
  cases f with
  | bring b =>
    cases g with
    | bring b' =>
      have hhead {b : ImportBinding} (hb : (bring b).Standard) : b.moduleBinding.toList.head? ≠ some '"' := by
        obtain ⟨digits, -, hdigits⟩ := hb
        simp [hdigits]
      exact ImportBinding.eq_of_text_eq (hhead hf) (hhead hg) h
    | define cell => exact absurd h.symm (text_define_ne_bring cell b)
  | define cell =>
    cases g with
    | bring b => exact absurd h (text_define_ne_bring cell b)
    | define cell' =>
      obtain ⟨isAsync, isGenerator, code, hbody⟩ := hf
      obtain ⟨isAsync', isGenerator', code', hbody'⟩ := hg
      exact Cell.eq_of_text_eq hbody hbody' h

/-- An import whose name looks like two arguments has another text than one with these arguments. An
observer that is asked for does not show in a cell without a name. -/
theorem text_eq_iff_agrees_forged :
    (bring ⟨"a\", \"b", none, "child0"⟩).Standard ∧ (bring ⟨"a", some "b", "child0"⟩).Standard ∧
    (bring ⟨"a\", \"b", none, "child0"⟩).text ≠ (bring ⟨"a", some "b", "child0"⟩).text ∧
    (define ⟨none, true, ["], "], .function false true ""⟩).Standard ∧
    (define ⟨none, true, ["], "], .function false true ""⟩).text =
      (define ⟨none, false, ["], "], .function false true ""⟩).text := by
  have hforged : (bring ⟨"a\", \"b", none, "child0"⟩).Standard := ⟨['0'], by simp, rfl⟩
  have hplain : (bring ⟨"a", some "b", "child0"⟩).Standard := ⟨['0'], by simp, rfl⟩
  have hasked : (define ⟨none, true, ["], "], .function false true ""⟩).Standard := ⟨_, _, _, rfl⟩
  have hnot : (define ⟨none, false, ["], "], .function false true ""⟩).Standard := ⟨_, _, _, rfl⟩
  refine ⟨hforged, hplain, fun h => ?_, hasked, ?_⟩
  · exact absurd ((text_eq_iff_agrees _ _ hforged hplain).mp h).1 (by decide)
  · exact (text_eq_iff_agrees _ _ hasked hnot).mpr ⟨rfl, rfl, rfl, rfl⟩

end Fragment

end Notebook
