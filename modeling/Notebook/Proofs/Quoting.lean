import Mathlib
import Notebook.Json.Reader
import Notebook.Text.Quoted

/-! Quoted text. The reader of JSON strings gives the text back and stops right behind its closing quote,
so that quoted texts can follow each other and need no lengths. -/
namespace Notebook

namespace Json.Raw
variable {c : Char}

private theorem codeUnit?_hexDigits {n : Nat} (h : n < 0x20) (rest : List Char) :
    codeUnit? ('0' :: '0' :: Text.hexDigit (n / 16) :: Text.hexDigit (n % 16) :: rest) = some (n, rest) := by
  have hdigits : ∀ n < 0x20,
      Text.natOfDigits? 16 ['0', '0', Text.hexDigit (n / 16), Text.hexDigit (n % 16)] = some n := by decide
  rw [codeUnit?, hdigits n h, Option.map_some]

private theorem units?_letter {e : Char} (he : escaped? e = some c) (rest : List Char) :
    units? ('\\' :: e :: rest) = (units? rest).map fun (us, r) => (c.toNat :: us, r) := by
  have hu : e ≠ 'u' := by
    rintro rfl
    cases he
  rw [units?]
  · rw [he]
  · simpa using hu

/-- A character is read as its code, however it is escaped. -/
theorem units?_escapeChar (c : Char) (rest : List Char) :
    units? (Text.escapeChar c ++ rest) = (units? rest).map fun (us, r) => (c.toNat :: us, r) := by
  unfold Text.escapeChar
  split_ifs with hquote hslash hb hf hn hr ht hcontrol
  · exact units?_letter (by rw [hquote]; rfl) rest
  · exact units?_letter (by rw [hslash]; rfl) rest
  · exact units?_letter (by rw [hb]; rfl) rest
  · exact units?_letter (by rw [hf]; rfl) rest
  · exact units?_letter (by rw [hn]; rfl) rest
  · exact units?_letter (by rw [hr]; rfl) rest
  · exact units?_letter (by rw [ht]; rfl) rest
  · rw [List.cons_append, List.cons_append, units?, List.cons_append, List.cons_append, List.cons_append,
      List.singleton_append, codeUnit?_hexDigits hcontrol]
    simp only [List.length_cons]
    rw [if_pos (by omega)]
  · rw [List.singleton_append, units?]
    · rw [if_neg (by simp [hslash]; omega)]
    all_goals simp_all

/-- The code of a character is none of those that stand for half a character. -/
theorem text?_cons (c : Char) (us : List Nat) : text? (c.toNat :: us) = (text? us).map (c :: ·) := by
  have hvalid : c.toNat < 0xD800 ∨ 0xDFFF < c.toNat := by
    rcases c.valid with h | ⟨h, -⟩
    · exact .inl h
    · exact .inr h
  rw [text?.eq_def]
  dsimp only
  rw [if_neg (by simp; omega), if_neg (by simp; omega), Char.ofNat_toNat]

private theorem units?_quoted (cs rest : List Char) :
    units? (cs.flatMap Text.escapeChar ++ '"' :: rest) = some (cs.map Char.toNat, rest) := by
  induction cs with
  | nil => simp [units?]
  | cons c cs ih =>
    rw [List.flatMap_cons, List.append_assoc, units?_escapeChar, ih]
    rfl

private theorem text?_map_toNat (cs : List Char) : text? (cs.map Char.toNat) = some cs := by
  induction cs with
  | nil => rfl
  | cons c cs ih => rw [List.map_cons, text?_cons, ih, Option.map_some]

/-- A quoted text is read back, and what follows it is left. -/
theorem string?_quoted (cs rest : List Char) :
    string? (cs.flatMap Text.escapeChar ++ '"' :: rest) = some (some (String.ofList cs), rest) := by
  simp only [string?, units?_quoted, Option.map_some, text?_map_toNat]

end Json.Raw

namespace Text

theorem toList_quoted (s : String) (rest : List Char) :
    (quoted s).toList ++ rest = '"' :: (s.toList.flatMap escapeChar ++ '"' :: rest) := by
  simp [quoted, quoteChars]

/-- Quoted texts are told apart by themselves, whatever follows them. -/
theorem quoted_append_inj {s t : String} {x y : List Char}
    (h : (quoted s).toList ++ x = (quoted t).toList ++ y) : s = t ∧ x = y := by
  rw [toList_quoted, toList_quoted] at h
  have hread := congrArg Json.Raw.string? (List.cons.inj h).2
  rw [Json.Raw.string?_quoted, Json.Raw.string?_quoted] at hread
  simpa using hread

end Text

end Notebook
