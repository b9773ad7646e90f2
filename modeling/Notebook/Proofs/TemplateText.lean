import Notebook.Cell.Script
import Notebook.Proofs.Text

/-! What stands in a template. Prose is read back from it as it was, since every backslash and every
backtick of it has a backslash of its own. The expressions inside it are written in the same way. -/
namespace Notebook.Script

/-- A unit of a text that is read from left to right: a backslash is taken together with the character
after it, and the two stand for that character. -/
inductive TemplateUnit where
  | bare (c : Char)
  | escaped (c : Char)
  /-- A backslash with nothing after it. -/
  | unfinished
deriving DecidableEq

def TemplateUnit.char? : TemplateUnit → Option Char
  | bare c => some c
  | escaped c => some c
  | unfinished => none

def templateUnits : List Char → List TemplateUnit
  | [] => []
  | ['\\'] => [.unfinished]
  | '\\' :: c :: cs => .escaped c :: templateUnits cs
  | c :: cs => .bare c :: templateUnits cs

def replaceEach (c : Char) (written cs : List Char) : List Char :=
  cs.flatMap fun d => if d = c then written else [d]

/-- The text between the backticks of a template of prose. -/
def escapeProse (cs : List Char) : List Char :=
  cs.flatMap escapeTemplate

def interpolation (expression : List Char) : List Char :=
  '$' :: '{' :: expression ++ ['}']

section Escapes
variable {c : Char} {cs : List Char}

private theorem escapeTemplate_special (h : c = '\\' ∨ c = '\x60') : escapeTemplate c = ['\\', c] := by
  rcases h with rfl | rfl <;> rfl

private theorem escapeTemplate_plain (h : ¬ (c = '\\' ∨ c = '\x60')) : escapeTemplate c = [c] := by
  rw [escapeTemplate, if_neg (by simpa using h)]

private theorem escapeProse_cons (c : Char) (cs : List Char) :
    escapeProse (c :: cs) = escapeTemplate c ++ escapeProse cs := rfl

private theorem escapeProse_append (as bs : List Char) :
    escapeProse (as ++ bs) = escapeProse as ++ escapeProse bs := List.flatMap_append

/-- The two kinds of escapes do not get into each other's way if backslashes are doubled first. -/
theorem escapeProse_eq_replaceEach (cs : List Char) : escapeProse cs =
    replaceEach '\x60' ['\\', '\x60'] (replaceEach '\\' ['\\', '\\'] cs) := by
  unfold escapeProse replaceEach
  rw [List.flatMap_assoc]
  congr 1
  funext c
  by_cases hslash : c = '\\'
  · rw [if_pos hslash, hslash]
    rfl
  · rw [if_neg hslash, List.flatMap_singleton]
    by_cases htick : c = '\x60'
    · rw [if_pos htick, escapeTemplate_special (.inr htick), htick]
    · rw [if_neg htick, escapeTemplate_plain (by tauto)]

private theorem templateUnits_escaped (c : Char) (cs : List Char) :
    templateUnits ('\\' :: c :: cs) = .escaped c :: templateUnits cs := rfl

private theorem templateUnits_bare (h : c ≠ '\\') (cs : List Char) :
    templateUnits (c :: cs) = .bare c :: templateUnits cs := by
  rw [templateUnits]
  · simp [h]
  · simp [h]

def proseUnit (c : Char) : TemplateUnit :=
  if c = '\\' ∨ c = '\x60' then .escaped c else .bare c

/-- Prose is read unit by unit, one for each of its characters, whatever follows it. -/
theorem templateUnits_escapeProse (cs more : List Char) :
    templateUnits (escapeProse cs ++ more) = cs.map proseUnit ++ templateUnits more := by
  induction cs with
  | nil => rfl
  | cons c cs ih =>
    rw [escapeProse_cons, List.append_assoc, List.map_cons, List.cons_append, ← ih, proseUnit]
    by_cases h : c = '\\' ∨ c = '\x60'
    · rw [escapeTemplate_special h, if_pos h]
      exact templateUnits_escaped c _
    · rw [escapeTemplate_plain h, if_neg h]
      exact templateUnits_bare (fun hc => h (.inl hc)) _

private theorem templateUnits_append (h : '\\' ∉ cs) (more : List Char) :
    templateUnits (cs ++ more) = cs.map .bare ++ templateUnits more := by
  induction cs with
  | nil => rfl
  | cons c cs ih =>
    rw [List.mem_cons, not_or] at h
    rw [List.cons_append, templateUnits_bare (Ne.symm h.1), ih h.2, List.map_cons, List.cons_append]

private theorem char?_proseUnit (c : Char) : (proseUnit c).char? = some c := by
  unfold proseUnit
  split <;> rfl

private theorem bare_tick_not_mem (cs : List Char) : .bare '\x60' ∉ cs.map proseUnit := by
  intro hmem
  obtain ⟨c, -, hc⟩ := List.mem_map.mp hmem
  unfold proseUnit at hc
  split at hc
  · cases hc
  · rename_i hplain
    exact hplain (.inr (TemplateUnit.bare.inj hc))

private theorem unfinished_not_mem (cs : List Char) : .unfinished ∉ cs.map proseUnit := by
  intro hmem
  obtain ⟨c, -, hc⟩ := List.mem_map.mp hmem
  have hchar := char?_proseUnit c
  rw [hc] at hchar
  cases hchar

private theorem filterMap_char? (cs : List Char) : (cs.map proseUnit).filterMap TemplateUnit.char? = cs := by
  induction cs with
  | nil => rfl
  | cons c cs ih => rw [List.map_cons, List.filterMap_cons_some (char?_proseUnit c), ih]

end Escapes

private theorem toList_template (tag content : String) : (template tag content).toList =
    tag.toList ++ '\x60' :: (escapeProse (Text.trim content.toList) ++ ['\x60']) := by
  simp [template, escapeProse]

/-- A template holds the prose. Between its backticks, where backslashes and then backticks have been
escaped, no unit is a bare backtick, none is unfinished, and the units stand for the trimmed prose. So
of a text that starts with the template, the first two bare backticks are the one after the tag and the
last one of the template. -/
theorem template_holds_prose (tag content : String) (htick : '\x60' ∉ tag.toList)
    (hslash : '\\' ∉ tag.toList) : ∃ inside : List Char,
      (template tag content).toList = tag.toList ++ '\x60' :: (inside ++ ['\x60']) ∧
      inside = replaceEach '\x60' ['\\', '\x60'] (replaceEach '\\' ['\\', '\\'] (Text.trim content.toList)) ∧
      .bare '\x60' ∉ templateUnits inside ∧ .unfinished ∉ templateUnits inside ∧
      (templateUnits inside).filterMap TemplateUnit.char? = Text.trim content.toList ∧
      .bare '\x60' ∉ templateUnits tag.toList ∧
      ∀ more, templateUnits ((template tag content).toList ++ more) =
        templateUnits tag.toList ++ .bare '\x60' :: (templateUnits inside ++ .bare '\x60' :: templateUnits more) := by
  have hinside : templateUnits (escapeProse (Text.trim content.toList)) =
      (Text.trim content.toList).map proseUnit := by
    simpa [templateUnits] using templateUnits_escapeProse (Text.trim content.toList) []
  have htag : templateUnits tag.toList = tag.toList.map .bare := by
    simpa [templateUnits] using templateUnits_append hslash []
  refine ⟨escapeProse (Text.trim content.toList), toList_template tag content,
    escapeProse_eq_replaceEach _, ?_, ?_, ?_, ?_, ?_⟩
  · rw [hinside]
    exact bare_tick_not_mem _
  · rw [hinside]
    exact unfinished_not_mem _
  · rw [hinside, filterMap_char?]
  · rw [htag]
    intro hmem
    obtain ⟨c, hc, heq⟩ := List.mem_map.mp hmem
    exact htick (TemplateUnit.bare.inj heq ▸ hc)
  · intro more
    rw [toList_template, List.append_assoc, templateUnits_append hslash, ← htag, List.cons_append,
      templateUnits_bare (by decide), List.append_assoc, templateUnits_escapeProse, ← hinside,
      List.singleton_append, templateUnits_bare (by decide)]

/-- Prose with backslashes and backticks in a row, and with blanks around it. -/
theorem template_holds_prose_run : '\x60' ∉ "md".toList ∧ '\\' ∉ "md".toList ∧
    ∃ inside : List Char, (template "md" " \\\\\x60\x60\\ \n").toList = "md\x60".toList ++ (inside ++ ['\x60']) ∧
      (templateUnits inside).filterMap TemplateUnit.char? = "\\\\\x60\x60\\".toList := by
  have htick : '\x60' ∉ "md".toList := by decide
  have hslash : '\\' ∉ "md".toList := by decide
  obtain ⟨inside, htext, -, -, -, hread, -⟩ :=
    template_holds_prose "md" " \\\\\x60\x60\\ \n" htick hslash
  exact ⟨htick, hslash, inside, htext, hread.trans (by decide)⟩

section Interpolation
variable {cs a b e : List Char}

private theorem mem_escapeProse {c : Char} (hc : c ≠ '\\') (h : c ∈ escapeProse cs) : c ∈ cs := by
  obtain ⟨d, hd, hc'⟩ := List.mem_flatMap.mp h
  by_cases hd' : d = '\\' ∨ d = '\x60'
  · rw [escapeTemplate_special hd'] at hc'
    rcases List.mem_cons.mp hc' with rfl | hc'
    · exact absurd rfl hc
    · rwa [List.mem_singleton.mp hc']
  · rw [escapeTemplate_plain hd'] at hc'
    rwa [List.mem_singleton.mp hc']

private theorem length_le_escapeProse (cs : List Char) : cs.length ≤ (escapeProse cs).length := by
  induction cs with
  | nil => exact Nat.le_refl 0
  | cons c cs ih =>
    rw [escapeProse_cons, List.length_append, List.length_cons]
    have hpos : 1 ≤ (escapeTemplate c).length := by
      unfold escapeTemplate
      split <;> simp
    omega

/-- Only texts without backslashes and backticks are written as they are. -/
theorem escapeProse_eq_self_iff : escapeProse cs = cs ↔ '\\' ∉ cs ∧ '\x60' ∉ cs := by
  induction cs with
  | nil => simp [escapeProse]
  | cons c cs ih =>
    rw [escapeProse_cons]
    by_cases h : c = '\\' ∨ c = '\x60'
    · rw [escapeTemplate_special h]
      refine iff_of_false (fun heq => ?_) ?_
      · have hlen := congrArg List.length heq
        have hle := length_le_escapeProse cs
        simp only [List.length_append, List.length_cons, List.length_nil] at hlen
        omega
      · rcases h with rfl | rfl <;> simp
    · rw [not_or] at h
      rw [escapeTemplate_plain (not_or.mpr h), List.singleton_append, List.cons.injEq, ih]
      simp [Ne.symm h.1, Ne.symm h.2]

private theorem prefix_of_escapeProse {mark : List Char} (hmark : '\\' ∉ mark ∧ '\x60' ∉ mark)
    (h : mark <+: escapeProse cs) : mark <+: cs := by
  induction mark generalizing cs with
  | nil => exact List.nil_prefix
  | cons m mark ih =>
    obtain ⟨⟨hslash, hslashes⟩, htick, hticks⟩ :
        ('\\' ≠ m ∧ '\\' ∉ mark) ∧ '\x60' ≠ m ∧ '\x60' ∉ mark := by
      simpa only [List.mem_cons, not_or] using hmark
    cases cs with
    | nil => exact h
    | cons c cs =>
      rw [escapeProse_cons] at h
      by_cases hc : c = '\\' ∨ c = '\x60'
      · rw [escapeTemplate_special hc] at h
        exact absurd (List.cons_prefix_cons.mp h).1.symm hslash
      · rw [escapeTemplate_plain hc] at h
        obtain ⟨rfl, hrest⟩ := List.cons_prefix_cons.mp h
        exact List.cons_prefix_cons.mpr ⟨rfl, ih ⟨hslashes, hticks⟩ hrest⟩

/-- A mark without backslashes and backticks occurs between the backticks just where it occurs in the
prose. -/
theorem infix_escapeProse_iff {mark : List Char} (hmark : '\\' ∉ mark ∧ '\x60' ∉ mark) :
    mark <:+: escapeProse cs ↔ mark <:+: cs := by
  constructor
  · intro h
    induction cs with
    | nil => exact h
    | cons c cs ih =>
      rw [escapeProse_cons] at h
      by_cases hc : c = '\\' ∨ c = '\x60'
      · rw [escapeTemplate_special hc] at h
        have hescape : ∀ d ∈ ['\\', c], d ∉ mark := by
          rcases hc with rfl | rfl <;> simp [hmark]
        exact List.infix_cons (ih (Text.infix_of_append_left hescape h))
      · rw [escapeTemplate_plain hc, List.singleton_append] at h
        rcases List.infix_cons_iff.mp h with h | h
        · have h : mark <+: escapeProse (c :: cs) := by
            rwa [escapeProse_cons, escapeTemplate_plain hc]
          exact (prefix_of_escapeProse hmark h).isInfix
        · exact List.infix_cons (ih h)
  · rintro ⟨x, y, rfl⟩
    rw [escapeProse_append, escapeProse_append, escapeProse_eq_self_iff.mpr hmark]
    exact List.infix_append _ _ _

private theorem escapeProse_interpolation (e : List Char) :
    escapeProse (interpolation e) = interpolation (escapeProse e) := by
  have hopen : escapeProse ['$', '{'] = ['$', '{'] := by decide
  have hclose : escapeProse ['}'] = ['}'] := by decide
  change escapeProse (['$', '{'] ++ e ++ ['}']) = ['$', '{'] ++ escapeProse e ++ ['}']
  rw [escapeProse_append, escapeProse_append, hopen, hclose]

/-- Only white space at the ends of the prose is lost around an interpolation. -/
theorem trim_interpolation (a e b : List Char) : Text.trim (a ++ interpolation e ++ b) =
    Text.trimStart a ++ interpolation e ++ Text.trimEnd b := by
  have hlast : (interpolation e).getLast? = some '}' := List.getLast?_concat
  exact Text.trim_append_append ⟨'$', rfl, by decide⟩ ⟨'}', hlast, by decide⟩

end Interpolation

/-- The text of a template of prose that holds an interpolation. -/
theorem toList_template_interpolation (tag a e b : String) :
    (template tag (a ++ "$\x7b" ++ e ++ "\x7d" ++ b)).toList =
      tag.toList ++ ['\x60'] ++ escapeProse (Text.trimStart a.toList) ++
        interpolation (escapeProse e.toList) ++ (escapeProse (Text.trimEnd b.toList) ++ ['\x60']) := by
  have hcontent : (a ++ "$\x7b" ++ e ++ "\x7d" ++ b).toList =
      a.toList ++ interpolation e.toList ++ b.toList := by
    simp [interpolation]
  rw [toList_template, hcontent, trim_interpolation, escapeProse_append, escapeProse_append,
    escapeProse_interpolation]
  simp

section Kept
variable {tag a e b : List Char}

/-- Where no other interpolation begins, the one that is written is the only one. -/
theorem interpolation_infix_iff {e' : List Char} (htag : ¬ "$\x7b".toList <:+: tag)
    (ha : ¬ "$\x7b".toList <:+: a) (hb : ¬ "$\x7b".toList <:+: b) (hopen : '{' ∉ e')
    (hclose : '}' ∉ e) (hclose' : '}' ∉ e') :
    interpolation e <:+: tag ++ ['\x60'] ++ a ++ interpolation e' ++ (b ++ ['\x60']) ↔ e = e' := by
  constructor
  · rintro ⟨x, y, heq⟩
    have hmark : tag ++ ['\x60'] ++ a ++ ("$\x7b".toList ++ (e' ++ '}' :: (b ++ ['\x60']))) =
        x ++ ("$\x7b".toList ++ (e ++ '}' :: y)) := by
      simpa [interpolation] using heq.symm
    have hbefore : Text.Clear ("$\x7b".toList <+: ·) (tag ++ ['\x60'] ++ a)
        ("$\x7b".toList ++ (e' ++ '}' :: (b ++ ['\x60']))) :=
      (Text.free_concat htag (by decide) _).append (Text.clear_pair ha (by decide))
    have hinside : ¬ "$\x7b".toList <:+: '{' :: e' := by
      intro h
      rcases List.infix_cons_iff.mp h with h | h
      · exact absurd (List.cons_prefix_cons.mp h).1 (by decide)
      · exact hopen (h.subset (by decide))
    have hfree : Text.Free "$\x7b".toList ('{' :: e' ++ ['}'] ++ (b ++ ['\x60'])) :=
      (Text.free_concat hinside (by decide)).append (Text.free_concat hb (by decide))
    have hrest : ¬ "$\x7b".toList <:+: '{' :: e' ++ ['}'] ++ (b ++ ['\x60']) :=
      Text.Clear.not_infix (by decide) (hfree [])
    obtain ⟨-, hexpression⟩ := hbefore.eq_of_mark (by simpa using hrest) hmark
    exact (Text.append_cons_inj hclose hclose' hexpression).1
  · rintro rfl
    exact List.infix_append _ _ _

end Kept

/-- What becomes of an expression in prose. It stands at its place in the template, but escaped like
prose: it is kept if it holds no backslash and no backtick, and only then, unless another interpolation
happens to be written as it was. -/
theorem template_interpolated (tag a e b : String) (hopen : '{' ∉ e.toList) (hclose : '}' ∉ e.toList) :
    (template tag (a ++ "$\x7b" ++ e ++ "\x7d" ++ b)).toList =
      tag.toList ++ ['\x60'] ++ escapeProse (Text.trimStart a.toList) ++
        interpolation (escapeProse e.toList) ++ (escapeProse (Text.trimEnd b.toList) ++ ['\x60']) ∧
    ('\\' ∉ e.toList ∧ '\x60' ∉ e.toList →
      interpolation e.toList <:+: (template tag (a ++ "$\x7b" ++ e ++ "\x7d" ++ b)).toList) ∧
    ((∀ s ∈ [tag, a, b], ¬ "$\x7b".toList <:+: s.toList) →
      (interpolation e.toList <:+: (template tag (a ++ "$\x7b" ++ e ++ "\x7d" ++ b)).toList ↔
        '\\' ∉ e.toList ∧ '\x60' ∉ e.toList)) := by
  rw [toList_template_interpolation]
  refine ⟨rfl, ?_, ?_⟩
  · intro hplain
    rw [escapeProse_eq_self_iff.mpr hplain]
    exact List.infix_append _ _ _
  · intro hnone
    rw [List.forall_mem_cons, List.forall_mem_cons, List.forall_mem_singleton] at hnone
    obtain ⟨htag, ha, hb⟩ := hnone
    have hplain : '\\' ∉ "$\x7b".toList ∧ '\x60' ∉ "$\x7b".toList := by decide
    have hescaped {cs part : List Char} (hpart : part <:+: cs) (hcs : ¬ "$\x7b".toList <:+: cs) :
        ¬ "$\x7b".toList <:+: escapeProse part :=
      fun h => hcs (((infix_escapeProse_iff hplain).mp h).trans hpart)
    have hstart : Text.trimStart a.toList <:+: a.toList := (List.dropWhile_suffix _).isInfix
    have hend : Text.trimEnd b.toList <:+: b.toList := (Text.trimEnd_prefix_self _).isInfix
    have hopen' : '{' ∉ escapeProse e.toList := fun h => hopen (mem_escapeProse (by decide) h)
    have hclose' : '}' ∉ escapeProse e.toList := fun h => hclose (mem_escapeProse (by decide) h)
    rw [interpolation_infix_iff htag (hescaped hstart ha) (hescaped hend hb) hopen' hclose hclose', eq_comm,
      escapeProse_eq_self_iff]

/-- A sum in the middle of a sentence is kept. -/
theorem template_interpolated_sum : '{' ∉ "n + 1".toList ∧ '}' ∉ "n + 1".toList ∧
    interpolation "n + 1".toList <:+:
      (template "md" ("There are " ++ "$\x7b" ++ "n + 1" ++ "\x7d" ++ " items.")).toList := by
  have hopen : '{' ∉ "n + 1".toList := by decide
  have hclose : '}' ∉ "n + 1".toList := by decide
  exact ⟨hopen, hclose, (template_interpolated "md" "There are " "n + 1" " items." hopen hclose).2.1 (by decide)⟩

/-- The escape for a line break in an expression is escaped itself, and so becomes a backslash and a
letter. -/
theorem template_changes_expression :
    (template "md" "$\x7blines.join(\"\\n\")\x7d").toList = "md\x60$\x7blines.join(\"\\\\n\")\x7d\x60".toList ∧
      ¬ interpolation "lines.join(\"\\n\")".toList <:+: (template "md" "$\x7blines.join(\"\\n\")\x7d").toList := by
  decide +kernel

end Notebook.Script
