import Mathlib
import Notebook.Text.Blank
import Notebook.Text.Word

/-! Where marks occur in a text, what trimming and splitting undo, and which texts trimming keeps. -/
namespace Notebook.Text

theorem after?_eq_some_iff {start text rest : List Char} :
    after? start text = some rest ↔ text = start ++ rest := by
  constructor
  · exact eq_append_of_after?
  · rintro rfl
    induction start with
    | nil => rfl
    | cons c start ih => rw [List.cons_append, after?, if_pos rfl, ih]

theorem after?_append (start text : List Char) : after? start (start ++ text) = some text :=
  after?_eq_some_iff.mpr rfl

theorem after?_eq_none_iff {start text : List Char} : after? start text = none ↔ ¬ start <+: text := by
  rw [Option.eq_none_iff_forall_ne_some]
  constructor
  · rintro h ⟨rest, rfl⟩
    exact h rest (after?_append start rest)
  · intro h rest hr
    exact h ⟨rest, (after?_eq_some_iff.mp hr).symm⟩

section Run
variable {p : Char → Bool} {run rest : List Char} {c : Char}

/-- A run of characters ends before the first one that does not belong to it. -/
theorem takeWhile_append_cons (h : ∀ d ∈ run, p d) (hc : p c = false) :
    (run ++ c :: rest).takeWhile p = run := by
  rw [List.takeWhile_append_of_pos h, List.takeWhile_cons_of_neg (by simp [hc]), List.append_nil]

theorem dropWhile_append_cons (h : ∀ d ∈ run, p d) (hc : p c = false) :
    (run ++ c :: rest).dropWhile p = c :: rest := by
  rw [List.dropWhile_append_of_pos h, List.dropWhile_cons_of_neg (by simp [hc])]

theorem dropWhile_append_run (h : ∀ d ∈ run, p d) (hrest : ∀ d ∈ rest.head?, p d = false) :
    (run ++ rest).dropWhile p = rest := by
  cases rest with
  | nil => simpa using h
  | cons c rest => exact dropWhile_append_cons h (hrest c rfl)

/-- A text is divided in one way only into a run and a rest that does not go on with it. -/
theorem run_append_inj {run' rest' : List Char} (h : ∀ d ∈ run, p d) (h' : ∀ d ∈ run', p d)
    (hrest : ∀ d ∈ rest.head?, p d = false) (hrest' : ∀ d ∈ rest'.head?, p d = false)
    (heq : run ++ rest = run' ++ rest') : run = run' ∧ rest = rest' := by
  have he : rest = rest' := by
    calc
      rest = (run ++ rest).dropWhile p := (dropWhile_append_run h hrest).symm
      _ = (run' ++ rest').dropWhile p := by rw [heq]
      _ = rest' := dropWhile_append_run h' hrest'
  subst he
  exact ⟨List.append_cancel_right heq, rfl⟩

theorem append_run_inj {run' rest' : List Char} (h : ∀ d ∈ run, p d) (h' : ∀ d ∈ run', p d)
    (hrest : ∀ d ∈ rest.getLast?, p d = false) (hrest' : ∀ d ∈ rest'.getLast?, p d = false)
    (heq : rest ++ run = rest' ++ run') : rest = rest' ∧ run = run' := by
  have hr : run.reverse ++ rest.reverse = run'.reverse ++ rest'.reverse := by
    rw [← List.reverse_append, heq, List.reverse_append]
  have hinj := run_append_inj (by simpa using h) (by simpa using h') (by simpa using hrest)
    (by simpa using hrest') hr
  exact ⟨List.reverse_injective hinj.2, List.reverse_injective hinj.1⟩

/-- A text is divided in one way only at the first occurrence of a character. -/
theorem append_cons_inj {a b x y : List Char} (ha : c ∉ a) (hb : c ∉ b) (h : a ++ c :: x = b ++ c :: y) :
    a = b ∧ x = y := by
  have hother {cs : List Char} (hcs : c ∉ cs) : ∀ d ∈ cs, (d != c) = true := by
    intro d hd
    exact bne_iff_ne.mpr fun heq => hcs (heq ▸ hd)
  obtain ⟨hab, hxy⟩ := run_append_inj (hother ha) (hother hb) (by simp) (by simp) h
  exact ⟨hab, (List.cons.inj hxy).2⟩

end Run

/-- No text with the property `P` starts inside `text`, where `text` goes on with `after`. -/
def Clear (P : List Char → Prop) (text after : List Char) : Prop :=
  ∀ x y, text = x ++ y → y ≠ [] → ¬ P (y ++ after)

section Clear
variable {P : List Char → Prop} {after : List Char}

theorem clear_nil : Clear P [] after := by
  intro x y h hy
  exact absurd (List.append_eq_nil_iff.mp h.symm).2 hy

theorem clear_cons {c : Char} {text : List Char} :
    Clear P (c :: text) after ↔ ¬ P (c :: text ++ after) ∧ Clear P text after := by
  constructor
  · intro h
    refine ⟨h [] (c :: text) rfl (List.cons_ne_nil c text), ?_⟩
    intro x y hxy
    exact h (c :: x) y (by rw [hxy, List.cons_append])
  · rintro ⟨hhead, htail⟩ x y hxy hy
    cases x with
    | nil =>
      rw [List.nil_append] at hxy
      exact hxy ▸ hhead
    | cons d x => exact htail x y (List.cons.inj hxy).2 hy

theorem Clear.append {a b : List Char} (ha : Clear P a (b ++ after)) (hb : Clear P b after) :
    Clear P (a ++ b) after := by
  induction a with
  | nil => exact hb
  | cons c a ih =>
    obtain ⟨hhead, htail⟩ := clear_cons.mp ha
    rw [List.cons_append, clear_cons]
    refine ⟨?_, ih htail⟩
    rwa [← List.cons_append, List.append_assoc]

theorem Clear.imp {Q : List Char → Prop} {text : List Char} (hPQ : ∀ t, Q t → P t)
    (h : Clear P text after) : Clear Q text after :=
  fun x y hxy hy hq => h x y hxy hy (hPQ _ hq)

end Clear

/-- The first occurrence of a mark is found. -/
theorem cutAt?_eq_some_iff {mark text before rest : List Char} :
    cutAt? mark text = some (before, rest) ↔
      text = before ++ mark ++ rest ∧ Clear (mark <+: ·) before (mark ++ rest) := by
  constructor
  · intro h
    refine ⟨eq_append_of_cutAt? h, ?_⟩
    induction text generalizing before with
    | nil =>
      obtain ⟨r, _, he⟩ := Option.map_eq_some_iff.mp h
      cases he
      exact clear_nil
    | cons c cs ih =>
      rw [cutAt?] at h
      split at h
      · cases h
        exact clear_nil
      · rename_i hnone
        obtain ⟨⟨b, r⟩, hr, he⟩ := Option.map_eq_some_iff.mp h
        cases he
        refine clear_cons.mpr ⟨?_, ih hr⟩
        rw [after?_eq_none_iff, eq_append_of_cutAt? hr] at hnone
        simpa using hnone
  · rintro ⟨rfl, hclear⟩
    induction before with
    | nil =>
      rw [List.nil_append]
      cases hm : mark ++ rest with
      | nil => rw [cutAt?, ← hm, after?_append, Option.map_some]
      | cons c cs => rw [cutAt?, ← hm, after?_append]
    | cons c before ih =>
      obtain ⟨hhead, htail⟩ := clear_cons.mp hclear
      rw [List.append_assoc] at ih ⊢
      have hnone : after? mark (c :: (before ++ (mark ++ rest))) = none := after?_eq_none_iff.mpr hhead
      rw [List.cons_append, cutAt?, hnone, ih htail]
      rfl

theorem cutAt?_eq_none_iff {mark text : List Char} : cutAt? mark text = none ↔ ¬ mark <:+: text := by
  induction text with
  | nil =>
    rw [cutAt?, Option.map_eq_none_iff, after?_eq_none_iff, List.infix_nil, List.prefix_nil]
  | cons c cs ih =>
    rw [cutAt?, List.infix_cons_iff, not_or, ← ih, ← after?_eq_none_iff]
    cases after? mark (c :: cs) <;> simp

theorem Clear.not_infix {mark text after : List Char} (hmark : mark ≠ [])
    (h : Clear (mark <+: ·) text after) : ¬ mark <:+: text := by
  rintro ⟨x, y, rfl⟩
  refine h x (mark ++ y) (List.append_assoc ..) (by simp [hmark]) ?_
  rw [List.append_assoc]
  exact List.prefix_append mark (y ++ after)

theorem Clear.of_append {mark text after more : List Char}
    (h : Clear (mark <+: ·) text (after ++ more)) : Clear (mark <+: ·) text after := by
  intro x y hxy hy hm
  refine h x y hxy hy ?_
  rw [← List.append_assoc]
  exact hm.trans (List.prefix_append _ more)

/-- The first occurrence of a mark is no later than a given one. -/
theorem cutAt?_of_append (mark text rest : List Char) :
    ∃ before after, cutAt? mark (text ++ mark ++ rest) = some (before, after) ∧ rest <:+ after := by
  have hsome : cutAt? mark (text ++ mark ++ rest) ≠ none :=
    fun hnone => cutAt?_eq_none_iff.mp hnone (List.infix_append text mark rest)
  obtain ⟨⟨before, after⟩, hcut⟩ := Option.ne_none_iff_exists'.mp hsome
  obtain ⟨heq, hclear⟩ := cutAt?_eq_some_iff.mp hcut
  refine ⟨before, after, hcut, ?_⟩
  have hle : before.length ≤ text.length := by
    by_contra hlt
    have htext : text <+: text ++ mark ++ rest := by
      rw [List.append_assoc]
      exact List.prefix_append text _
    have hbefore : before <+: text ++ mark ++ rest := by
      rw [heq, List.append_assoc]
      exact List.prefix_append before _
    obtain ⟨y, rfl⟩ := List.prefix_of_prefix_length_le htext hbefore (by omega)
    have hy : y ++ (mark ++ after) = mark ++ rest := by
      simpa [List.append_assoc] using heq.symm
    refine hclear text y rfl (by rintro rfl; simp at hlt) ?_
    rw [hy]
    exact List.prefix_append mark rest
  have hrest : rest <:+ text ++ mark ++ rest := List.suffix_append _ rest
  have hafter : after <:+ text ++ mark ++ rest := heq ▸ List.suffix_append _ after
  refine List.suffix_of_suffix_length_le hrest hafter ?_
  have hlen := congrArg List.length heq
  simp only [List.length_append] at hlen
  omega

/-- A mark that is clear before one of its occurrences and does not overlap a later one occurs only
there. -/
theorem Clear.eq_of_mark {mark before rest x y : List Char}
    (hbefore : Clear (mark <+: ·) before (mark ++ rest)) (hrest : ¬ mark <:+: (mark ++ rest).tail)
    (h : before ++ (mark ++ rest) = x ++ (mark ++ y)) : x = before ∧ y = rest := by
  rcases List.append_eq_append_iff.mp h with ⟨z, rfl, hz⟩ | ⟨z, rfl, hz⟩
  · cases z with
    | nil => exact ⟨List.append_nil _, (List.append_cancel_left hz).symm⟩
    | cons c z =>
      refine absurd ?_ hrest
      rw [hz]
      exact ⟨z, y, by simp⟩
  · cases z with
    | nil => exact ⟨(List.append_nil _).symm, List.append_cancel_left hz⟩
    | cons c z =>
      refine absurd ?_ (hbefore x (c :: z) rfl (List.cons_ne_nil c z))
      rw [← hz]
      exact List.prefix_append mark y

/-- A mark of two characters that a text does not hold cannot start at its end either, if another
character than the second one follows. -/
theorem clear_pair {m n d : Char} {text after : List Char} (h : ¬ [m, n] <:+: text) (hd : d ≠ n) :
    Clear ([m, n] <+: ·) text (d :: after) := by
  rintro x y rfl hy hm
  rcases y with _ | ⟨c, _ | ⟨c', y⟩⟩
  · exact hy rfl
  · obtain ⟨-, rfl⟩ : m = c ∧ n = d := by simpa using hm
    exact hd rfl
  · obtain ⟨rfl, rfl⟩ : m = c ∧ n = c' := by simpa using hm
    exact h ⟨x, y, by simp⟩

/-- No occurrence of `mark` starts in `text`, whatever follows. -/
def Free (mark text : List Char) : Prop :=
  ∀ after, Clear (mark <+: ·) text after

section Free
variable {mark : List Char}

theorem Free.append {a b : List Char} (ha : Free mark a) (hb : Free mark b) : Free mark (a ++ b) :=
  fun after => (ha (b ++ after)).append (hb after)

theorem free_of_not_mem {m : Char} {ms text : List Char} (h : m ∉ text) : Free (m :: ms) text := by
  rintro after x y rfl hy ⟨t, ht⟩
  obtain ⟨c, y, rfl⟩ := List.exists_cons_of_ne_nil hy
  rw [List.cons_append, List.cons_append, List.cons.injEq] at ht
  exact h (ht.1 ▸ List.mem_append_right x List.mem_cons_self)

/-- A mark cannot run past a character that it does not hold. -/
theorem prefix_of_prefix_append_cons {text after : List Char} {c : Char} (hc : c ∉ mark)
    (h : mark <+: text ++ c :: after) : mark <+: text := by
  induction text generalizing mark with
  | nil =>
    rcases List.prefix_cons_iff.mp h with rfl | ⟨t, rfl, _⟩
    · exact List.nil_prefix
    · exact absurd List.mem_cons_self hc
  | cons d text ih =>
    rcases List.prefix_cons_iff.mp h with rfl | ⟨t, rfl, ht⟩
    · exact List.nil_prefix
    · exact List.cons_prefix_cons.mpr ⟨rfl, ih (fun hm => hc (List.mem_cons_of_mem d hm)) ht⟩

theorem free_concat {text : List Char} {c : Char} (h : ¬ mark <:+: text) (hc : c ∉ mark) :
    Free mark (text ++ [c]) := by
  intro after
  induction text with
  | nil =>
    refine clear_cons.mpr ⟨?_, clear_nil⟩
    intro hm
    have hm : mark <+: [] ++ c :: after := hm
    exact h (prefix_of_prefix_append_cons hc hm).isInfix
  | cons d text ih =>
    rw [List.infix_cons_iff, not_or] at h
    refine clear_cons.mpr ⟨?_, ih h.2⟩
    intro hm
    have hm : mark <+: (d :: text) ++ c :: after := by simpa using hm
    exact h.1 (prefix_of_prefix_append_cons hc hm)

theorem cutAt?_of_free {text rest : List Char} (h : Free mark text) :
    cutAt? mark (text ++ mark ++ rest) = some (text, rest) :=
  cutAt?_eq_some_iff.mpr ⟨rfl, h _⟩

end Free

section Infix
variable {mark a b : List Char}

/-- Characters that a mark does not hold make no occurrence of it after a text. -/
theorem infix_of_append_right (hb : ∀ c ∈ b, c ∉ mark) (h : mark <:+: a ++ b) : mark <:+: a := by
  rcases List.infix_append_iff.mp h with h | h | ⟨l, r, rfl, hl, hr⟩
  · exact h
  · cases mark with
    | nil => exact List.nil_infix
    | cons m mark => exact absurd List.mem_cons_self (hb m (h.subset List.mem_cons_self))
  · cases r with
    | nil => simpa using hl.isInfix
    | cons c r =>
      exact absurd (List.mem_append_right l List.mem_cons_self) (hb c (hr.subset List.mem_cons_self))

theorem infix_of_append_left (hb : ∀ c ∈ b, c ∉ mark) (h : mark <:+: b ++ a) : mark <:+: a := by
  rw [← List.reverse_infix, List.reverse_append] at h
  rw [← List.reverse_infix]
  exact infix_of_append_right (by simpa using hb) h

end Infix

section Trim
variable {cs blanks : List Char}

theorem trim_blanks_append (h : ∀ c ∈ blanks, isBlank c) : trim (blanks ++ cs) = trim cs := by
  rw [trim, trim, trimStart, trimStart, List.dropWhile_append_of_pos h]

theorem trim_append_blanks (h : ∀ c ∈ blanks, isBlank c) : trim (cs ++ blanks) = trim cs := by
  have hr : ∀ c ∈ blanks.reverse, isBlank c := fun c hc => h c (List.mem_reverse.mp hc)
  have hblanks : trimStart blanks = [] := List.dropWhile_eq_nil_iff.mpr h
  unfold trim trimStart
  rw [List.dropWhile_append]
  split
  · rename_i he
    rw [List.isEmpty_iff.mp he]
    exact congrArg trimEnd hblanks
  · rw [trimEnd, List.reverse_append, List.dropWhile_append_of_pos hr]
    rfl

theorem trim_eq_nil_iff : trim cs = [] ↔ ∀ c ∈ cs, isBlank c := by
  constructor
  · intro h
    have hend : ∀ c ∈ trimStart cs, isBlank c := List.rdropWhile_eq_nil_iff.mp h
    have hstart := List.takeWhile_append_dropWhile (p := isBlank) (l := cs)
    intro c hc
    rw [← hstart] at hc
    rcases List.mem_append.mp hc with hc | hc
    · exact List.mem_takeWhile_imp hc
    · exact hend c hc
  · intro h
    have hcs : trim ([] ++ cs) = trim [] := trim_append_blanks h
    exact hcs

theorem trimEnd_prefix_self (cs : List Char) : trimEnd cs <+: cs :=
  List.rdropWhile_prefix isBlank cs

theorem trim_infix (cs : List Char) : trim cs <:+: cs :=
  (trimEnd_prefix_self _).isInfix.trans (List.dropWhile_suffix isBlank).isInfix

/-- A text is its trimmed text between white space. -/
theorem exists_trim (cs : List Char) : ∃ before after,
    (∀ c ∈ before, isBlank c) ∧ (∀ c ∈ after, isBlank c) ∧ cs = before ++ trim cs ++ after := by
  refine ⟨cs.takeWhile isBlank, (trimStart cs).rtakeWhile isBlank,
    fun c hc => List.mem_takeWhile_imp hc, fun c hc => List.mem_rtakeWhile_imp hc, ?_⟩
  have hend : trim cs ++ (trimStart cs).rtakeWhile isBlank = trimStart cs :=
    List.rdropWhile_append_rtakeWhile
  rw [List.append_assoc, hend]
  exact (List.takeWhile_append_dropWhile (p := isBlank)).symm

theorem trimStart_eq_self_iff : trimStart cs = cs ↔ ∀ c ∈ cs.head?, isBlank c = false := by
  cases cs with
  | nil => simp [trimStart]
  | cons c cs => simp [trimStart, List.dropWhile_eq_self_iff]

theorem isBlank_head_trimStart (cs : List Char) : ∀ c ∈ (trimStart cs).head?, isBlank c = false :=
  trimStart_eq_self_iff.mp (List.dropWhile_idempotent isBlank cs)

/-- Trimming leaves no white space at the start. -/
theorem trimStart_trim (cs : List Char) : trimStart (trim cs) = trim cs := by
  rw [trimStart_eq_self_iff]
  intro c hc
  have hp : trim cs <+: trimStart cs := trimEnd_prefix_self _
  obtain ⟨more, hmore⟩ := hp
  refine isBlank_head_trimStart cs c ?_
  rw [← hmore]
  exact List.mem_head?_append_of_mem_head? hc

theorem trim_trim (cs : List Char) : trim (trim cs) = trim cs := by
  rw [trim, trimStart_trim]
  exact List.rdropWhile_idempotent isBlank _

theorem trim_eq_self_iff : trim cs = cs ↔
    (∀ c ∈ cs.head?, isBlank c = false) ∧ ∀ c ∈ cs.getLast?, isBlank c = false := by
  have hend : trimEnd cs = cs ↔ ∀ c ∈ cs.getLast?, isBlank c = false := by
    refine List.rdropWhile_eq_self_iff.trans ?_
    constructor
    · intro h c hc
      obtain ⟨hne, rfl⟩ := List.mem_getLast?_eq_getLast hc
      exact Bool.not_eq_true _ ▸ h hne
    · intro h hne
      simp [h _ (List.getLast?_eq_getLast_of_ne_nil hne)]
  constructor
  · intro h
    have htrim : trimStart cs = cs := by rw [← h, trimStart_trim]
    exact ⟨trimStart_eq_self_iff.mp htrim, hend.mp (by rwa [trim, htrim] at h)⟩
  · rintro ⟨hhead, hlast⟩
    rw [trim, trimStart_eq_self_iff.mpr hhead, hend.mpr hlast]

theorem trim_append_cons {a b : List Char} {c : Char} (ha : trim a = a) (hb : trim b = b)
    (hne : a ≠ []) (hc : isBlank c = false) : trim (a ++ c :: b) = a ++ c :: b := by
  rw [trim_eq_self_iff] at ha hb ⊢
  obtain ⟨d, a, rfl⟩ := List.exists_cons_of_ne_nil hne
  refine ⟨ha.1, ?_⟩
  rw [List.getLast?_append_cons, List.getLast?_cons]
  cases hlast : b.getLast? with
  | none => simpa using hc
  | some d => simpa using hb.2 d hlast

private theorem trimStart_append {a b : List Char} (hb : ∃ c ∈ b.head?, isBlank c = false) :
    trimStart (a ++ b) = trimStart a ++ b := by
  obtain ⟨c, hc, hblank⟩ := hb
  obtain ⟨b, rfl⟩ := List.head?_eq_some_iff.mp hc
  unfold trimStart
  rw [List.dropWhile_append]
  split
  · rename_i he
    rw [List.isEmpty_iff.mp he, List.dropWhile_cons_of_neg (by simp [hblank]), List.nil_append]
  · rfl

private theorem trimEnd_append {a b : List Char} (ha : ∃ c ∈ a.getLast?, isBlank c = false) :
    trimEnd (a ++ b) = a ++ trimEnd b := by
  have hstart : trimStart (b.reverse ++ a.reverse) = trimStart b.reverse ++ a.reverse :=
    trimStart_append (by simpa using ha)
  unfold trimStart at hstart
  rw [trimEnd, List.reverse_append, hstart, List.reverse_append, List.reverse_reverse, trimEnd]

/-- White space is trimmed on the far sides of what surrounds a text with other characters at its ends. -/
theorem trim_append_append {a m b : List Char} (hhead : ∃ c ∈ m.head?, isBlank c = false)
    (hlast : ∃ c ∈ m.getLast?, isBlank c = false) :
    trim (a ++ m ++ b) = trimStart a ++ m ++ trimEnd b := by
  obtain ⟨c, hc, hblank⟩ := hhead
  have hmb : ∃ c ∈ (m ++ b).head?, isBlank c = false := ⟨c, List.mem_head?_append_of_mem_head? hc, hblank⟩
  obtain ⟨d, hd, hblank'⟩ := hlast
  have ham : ∃ c ∈ (trimStart a ++ m).getLast?, isBlank c = false :=
    ⟨d, List.mem_getLast?_append_of_mem_getLast? hd, hblank'⟩
  rw [trim, List.append_assoc, trimStart_append hmb, ← List.append_assoc, trimEnd_append ham]

/-- Trimming a text keeps the marks in it that hold no white space. -/
theorem infix_trim_iff {mark : List Char} (hmark : ∀ c ∈ mark, isBlank c = false) :
    mark <:+: trim cs ↔ mark <:+: cs := by
  have hblank {blanks : List Char} (h : ∀ c ∈ blanks, isBlank c) : ∀ c ∈ blanks, c ∉ mark := by
    intro c hc hm
    simpa [hmark c hm] using h c hc
  refine ⟨fun h => h.trans <| trim_infix cs, fun h => ?_⟩
  obtain ⟨before, after, hbefore, hafter, hcs⟩ := exists_trim cs
  rw [hcs] at h
  exact infix_of_append_left (hblank hbefore) (infix_of_append_right (hblank hafter) h)

theorem trim_space_cons (cs : List Char) : trim (' ' :: cs) = trim cs := by
  have hspace : ∀ c ∈ [' '], isBlank c := List.forall_mem_singleton.mpr (by decide)
  exact trim_blanks_append hspace

end Trim

/-- White space is no part of a word. -/
theorem isBlank_of_isWord {c : Char} (h : isWord c) : isBlank c = false := by
  have hblanks : ∀ n ∈ [0x9, 0xA, 0xB, 0xC, 0xD, 0x20, 0x85, 0xA0, 0x1680, 0x2000, 0x2001, 0x2002,
      0x2003, 0x2004, 0x2005, 0x2006, 0x2007, 0x2008, 0x2009, 0x200A, 0x2028, 0x2029, 0x202F, 0x205F,
      0x3000], isWord (Char.ofNat n) = false := by decide +kernel
  by_contra hblank
  have hmem := hblanks c.toNat (by
    simp only [isBlank, Bool.not_eq_false, Bool.or_eq_true, Bool.and_eq_true, decide_eq_true_eq,
      beq_iff_eq] at hblank
    simp only [List.mem_cons, List.not_mem_nil, or_false]
    omega)
  rw [Char.ofNat_toNat, h] at hmem
  cases hmem

theorem nonBlank?_eq_some_iff {cs : List Char} {s : String} :
    nonBlank? cs = some s ↔ trim cs ≠ [] ∧ s.toList = trim cs := by
  unfold nonBlank?
  split
  · rename_i h
    simp [List.isEmpty_iff.mp h]
  · rename_i h
    rw [List.isEmpty_iff] at h
    simp [h, String.ext_iff, eq_comm]

theorem nonBlank?_space_cons (cs : List Char) : nonBlank? (' ' :: cs) = nonBlank? cs := by
  rw [nonBlank?, nonBlank?, trim_space_cons]

theorem nonBlank?_of_trim_eq {s : String} (ht : trim s.toList = s.toList) (hne : s ≠ "") :
    nonBlank? s.toList = some s := by
  have hempty : s.toList.isEmpty = false := by simpa using hne
  simp [nonBlank?, ht, hempty]

section Split
variable {isSeparator : Char → Bool}

theorem split_ne_nil (isSeparator : Char → Bool) (cs : List Char) : split isSeparator cs ≠ [] := by
  cases cs with
  | nil => exact List.cons_ne_nil _ _
  | cons c cs =>
    rw [split]
    split
    · exact List.cons_ne_nil _ _
    · split <;> exact List.cons_ne_nil _ _

/-- A character that is no separator belongs to the first piece. -/
theorem split_cons_of_not {c : Char} (hc : isSeparator c = false) (cs : List Char) :
    ∃ piece rest, split isSeparator cs = piece :: rest ∧
      split isSeparator (c :: cs) = (c :: piece) :: rest := by
  obtain ⟨piece, rest, hs⟩ := List.exists_cons_of_ne_nil (split_ne_nil isSeparator cs)
  refine ⟨piece, rest, hs, ?_⟩
  rw [split, if_neg (by simp [hc]), hs]

/-- A text is split at each of its separators on its own. -/
theorem split_append_separator {c : Char} (hc : isSeparator c) (a b : List Char) :
    split isSeparator (a ++ c :: b) = split isSeparator a ++ split isSeparator b := by
  induction a with
  | nil => rw [List.nil_append, split, List.singleton_append, split, if_pos hc]
  | cons d a ih =>
    by_cases hd : isSeparator d
    · rw [List.cons_append, split, if_pos hd, ih, split, if_pos hd, List.cons_append]
    · rw [Bool.not_eq_true] at hd
      obtain ⟨piece, rest, hpiece, hall⟩ := split_cons_of_not hd a
      obtain ⟨piece', rest', hpiece', hall'⟩ := split_cons_of_not hd (a ++ c :: b)
      rw [ih, hpiece, List.cons_append] at hpiece'
      obtain ⟨rfl, rfl⟩ := List.cons.inj hpiece'
      rw [List.cons_append, hall', hall, List.cons_append]

theorem split_of_forall {a : List Char} (ha : ∀ c ∈ a, isSeparator c = false) :
    split isSeparator a = [a] := by
  induction a with
  | nil => rfl
  | cons c a ih =>
    have hc : ¬ isSeparator c = true := by simp [ha c List.mem_cons_self]
    rw [split, if_neg hc, ih fun d hd => ha d (List.mem_cons_of_mem c hd)]

theorem split_append_cons {a b : List Char} {s : Char} (ha : ∀ c ∈ a, isSeparator c = false)
    (hs : isSeparator s = true) : split isSeparator (a ++ s :: b) = a :: split isSeparator b := by
  rw [split_append_separator hs, split_of_forall ha, List.singleton_append]

theorem forall_of_mem_split {cs piece : List Char}
    (h : piece ∈ split isSeparator cs) : ∀ c ∈ piece, isSeparator c = false := by
  induction cs generalizing piece with
  | nil =>
    cases List.mem_singleton.mp h
    intro c hc
    cases hc
  | cons c cs ih =>
    by_cases hc : isSeparator c
    · rw [split, if_pos hc] at h
      rcases List.mem_cons.mp h with rfl | h
      · intro d hd
        cases hd
      · exact ih h
    · rw [Bool.not_eq_true] at hc
      obtain ⟨first, rest, hfirst, hs⟩ := split_cons_of_not hc cs
      rw [hs] at h
      rcases List.mem_cons.mp h with rfl | h
      · intro d hd
        rcases List.mem_cons.mp hd with rfl | hd
        · exact hc
        · exact ih (hfirst ▸ List.mem_cons_self) d hd
      · exact ih (hfirst ▸ List.mem_cons_of_mem first h)

/-- What a text starts with stands in its first piece, up to a separator. -/
theorem prefix_of_split {mark piece : List Char} {pieces : List (List Char)} {cs : List Char}
    (hmark : ∀ c ∈ mark, isSeparator c = false) (h : mark <+: cs)
    (hs : split isSeparator cs = piece :: pieces) : mark <+: piece := by
  induction mark generalizing cs piece pieces with
  | nil => exact List.nil_prefix
  | cons m mark ih =>
    obtain ⟨rest, rfl⟩ := h
    obtain ⟨first, others, hfirst, hall⟩ :=
      split_cons_of_not (hmark m List.mem_cons_self) (mark ++ rest)
    obtain ⟨rfl, rfl⟩ := List.cons.inj (hall.symm.trans hs)
    exact List.cons_prefix_cons.mpr ⟨rfl, ih (fun c hc => hmark c (List.mem_cons_of_mem m hc))
      (List.prefix_append mark rest) hfirst⟩

/-- The first piece of a text is its start, and the other ones stand after it. -/
theorem infix_of_mem_split {piece cs : List Char} (h : piece ∈ split isSeparator cs) :
    piece <:+: cs := by
  suffices hsplit : ∃ first rest, split isSeparator cs = first :: rest ∧ first <+: cs ∧
      ∀ p ∈ rest, p <:+: cs by
    obtain ⟨first, rest, hs, hfirst, hrest⟩ := hsplit
    rw [hs] at h
    rcases List.mem_cons.mp h with rfl | h
    · exact hfirst.isInfix
    · exact hrest piece h
  clear h
  induction cs with
  | nil => exact ⟨[], [], rfl, List.nil_prefix, nofun⟩
  | cons c cs ih =>
    obtain ⟨first, rest, hs, hfirst, hrest⟩ := ih
    by_cases hc : isSeparator c
    · refine ⟨[], first :: rest, by rw [split, if_pos hc, hs], List.nil_prefix, ?_⟩
      intro p hp
      rcases List.mem_cons.mp hp with rfl | hp
      · exact List.infix_cons hfirst.isInfix
      · exact List.infix_cons (hrest p hp)
    · refine ⟨c :: first, rest, by rw [split, if_neg hc, hs], List.cons_prefix_cons.mpr ⟨rfl, hfirst⟩, ?_⟩
      exact fun p hp => List.infix_cons (hrest p hp)

/-- A mark without separators occurs in a text just if it occurs in a piece of it. -/
theorem infix_iff_mem_split {mark : List Char} (hne : mark ≠ []) (hmark : ∀ c ∈ mark, isSeparator c = false)
    {cs : List Char} : mark <:+: cs ↔ ∃ piece ∈ split isSeparator cs, mark <:+: piece := by
  refine ⟨fun h => ?_, fun ⟨piece, hp, h⟩ => h.trans (infix_of_mem_split hp)⟩
  induction cs with
  | nil => exact absurd (List.infix_nil.mp h) hne
  | cons c cs ih =>
    rcases List.infix_cons_iff.mp h with h | h
    · obtain ⟨first, rest, hs⟩ := List.exists_cons_of_ne_nil (split_ne_nil isSeparator (c :: cs))
      exact ⟨first, hs ▸ List.mem_cons_self, (prefix_of_split hmark h hs).isInfix⟩
    · obtain ⟨piece, hp, h⟩ := ih h
      by_cases hc : isSeparator c
      · exact ⟨piece, by rw [split, if_pos hc]; exact List.mem_cons_of_mem [] hp, h⟩
      · obtain ⟨first, rest, hfirst, hs⟩ := split_cons_of_not (by simpa using hc) cs
        rw [hs]
        rw [hfirst] at hp
        rcases List.mem_cons.mp hp with rfl | hp
        · exact ⟨c :: piece, List.mem_cons_self, List.infix_cons h⟩
        · exact ⟨piece, List.mem_cons_of_mem _ hp, h⟩

end Split

/-- A text is a last line, or a line with a text after it. -/
@[elab_as_elim]
theorem lineInduction {P : List Char → Prop} (last : ∀ line, '\n' ∉ line → P line)
    (next : ∀ line rest, '\n' ∉ line → P rest → P (line ++ '\n' :: rest)) (cs : List Char) : P cs := by
  by_cases h : '\n' ∈ cs
  · obtain ⟨line, rest, he, hline⟩ := List.eq_append_cons_of_mem h
    rw [he]
    exact next line rest hline (lineInduction last next rest)
  · exact last cs h
termination_by cs.length
decreasing_by
  rw [he, List.length_append, List.length_cons]
  omega

theorem split_line {line : List Char} (h : '\n' ∉ line) (rest : List Char) :
    split (· == '\n') (line ++ '\n' :: rest) = line :: split (· == '\n') rest := by
  apply split_append_cons
  · intro c hc
    exact beq_false_of_ne fun he => h (he ▸ hc)
  · rfl

/-- Splitting a list at its commas gives its items back, up to the space after a comma. -/
theorem filterMap_split_joined {A : Type} {f : List Char → Option A}
    (hf : ∀ cs, f (' ' :: cs) = f cs) {items : List String} (hne : items ≠ [])
    (hitems : ∀ s ∈ items, ',' ∉ s.toList) :
    (split (· == ',') (joined ", " items).toList).filterMap f =
      items.filterMap fun s => f s.toList := by
  induction items with
  | nil => exact absurd rfl hne
  | cons s items ih =>
    have hs : ∀ c ∈ s.toList, (c == ',') = false := by
      intro c hc
      exact beq_false_of_ne fun he => hitems s List.mem_cons_self (he ▸ hc)
    cases items with
    | nil =>
      rw [joined, split_of_forall hs]
      rfl
    | cons t rest =>
      have htext : (joined ", " (s :: t :: rest)).toList =
          s.toList ++ ',' :: ' ' :: (joined ", " (t :: rest)).toList := by
        simp [joined]
      obtain ⟨piece, pieces, hpieces, hspaced⟩ : ∃ piece pieces,
          split (· == ',') (joined ", " (t :: rest)).toList = piece :: pieces ∧
          split (· == ',') (' ' :: (joined ", " (t :: rest)).toList) = (' ' :: piece) :: pieces :=
        split_cons_of_not (by decide) _
      have hfirst : ((' ' :: piece) :: pieces).filterMap f = (piece :: pieces).filterMap f := by
        rw [List.filterMap_cons, List.filterMap_cons, hf]
      have hrest := ih (List.cons_ne_nil t rest) fun u hu => hitems u (List.mem_cons_of_mem s hu)
      rw [htext, split_append_cons hs rfl, hspaced, List.filterMap_cons, hfirst, ← hpieces, hrest]
      rfl

theorem joined_cons (separator s : String) (ss : List String) :
    joined separator (s :: ss) = s ++ String.join (ss.map (separator ++ ·)) := by
  induction ss generalizing s with
  | nil => simp [joined]
  | cons t ss ih =>
    rw [joined, ih, List.map_cons, String.join_cons, String.append_assoc, String.append_assoc]

/-- Splitting a text at its separators gives back the pieces that were joined with one of them. -/
theorem filter_split_joined {isSeparator : Char → Bool} {separator : String} {c : Char}
    (hseparator : separator.toList = [c]) (hc : isSeparator c) {pieces : List (List Char)}
    (h : ∀ piece ∈ pieces, piece ≠ [] ∧ ∀ d ∈ piece, isSeparator d = false) :
    (split isSeparator (joined separator (pieces.map String.ofList)).toList).filter (fun piece => !piece.isEmpty) =
      pieces := by
  induction pieces with
  | nil => rfl
  | cons piece pieces ih =>
    obtain ⟨hne, hpiece⟩ := h piece List.mem_cons_self
    have hkept (rest : List (List Char)) : (piece :: rest).filter (fun piece => !piece.isEmpty) =
        piece :: rest.filter fun piece => !piece.isEmpty := List.filter_cons_of_pos (by simpa using hne)
    cases pieces with
    | nil =>
      rw [List.map_singleton, joined, String.toList_ofList, split_of_forall hpiece, hkept]
      rfl
    | cons next rest =>
      have htext : (joined separator ((piece :: next :: rest).map String.ofList)).toList =
          piece ++ c :: (joined separator ((next :: rest).map String.ofList)).toList := by
        simp [joined, hseparator]
      have hrest := ih fun p hp => h p (List.mem_cons_of_mem piece hp)
      rw [htext, split_append_cons hpiece hc, hkept, hrest]

/-- A character of a list that commas divide is one of its items' or of the separator. -/
theorem mem_joined {items : List String} {c : Char} (h : c ∈ (joined ", " items).toList) :
    c = ',' ∨ c = ' ' ∨ ∃ s ∈ items, c ∈ s.toList := by
  induction items with
  | nil => simp [joined] at h
  | cons s items ih =>
    cases items with
    | nil => exact .inr (.inr ⟨s, List.mem_cons_self, h⟩)
    | cons t rest =>
      simp only [joined, String.toList_append, List.mem_append] at h
      rcases h with (h | h) | h
      · exact .inr (.inr ⟨s, List.mem_cons_self, h⟩)
      · rcases List.mem_cons.mp h with h | h
        · exact .inl h
        · exact .inr (.inl (List.mem_singleton.mp h))
      · rcases ih h with h | h | ⟨u, hu, hc⟩
        · exact .inl h
        · exact .inr (.inl h)
        · exact .inr (.inr ⟨u, List.mem_cons_of_mem s hu, hc⟩)

def opens (s : String) : Bool :=
  s.toList.head?.any fun c => !isBlank c

def closes (s : String) : Bool :=
  s.toList.getLast?.any fun c => !isBlank c

section Ends
variable {a b s : String}

theorem opens_append (b : String) (h : opens a) : opens (a ++ b) := by
  unfold opens at h ⊢
  rw [String.toList_append, List.head?_append]
  cases ha : a.toList.head? with
  | none => simp [ha] at h
  | some c => simpa [ha] using h

theorem closes_append (a : String) (h : closes b) : closes (a ++ b) := by
  unfold closes at h ⊢
  rw [String.toList_append, List.getLast?_append]
  cases hb : b.toList.getLast? with
  | none => simp [hb] at h
  | some c => simpa [hb] using h

theorem closes_append_join {ss : List String} (ha : closes a) (h : ∀ s ∈ ss, closes s) :
    closes (a ++ String.join ss) := by
  induction ss generalizing a with
  | nil => simpa using ha
  | cons s ss ih =>
    rw [String.join_cons, ← String.append_assoc]
    apply ih
    · exact closes_append a (h s List.mem_cons_self)
    · exact fun t ht => h t (List.mem_cons_of_mem s ht)

/-- Only the ends of a text matter for trimming. -/
theorem trim_of_ends (ho : opens s) (hc : closes s) : trim s.toList = s.toList := by
  unfold opens at ho
  unfold closes at hc
  rw [trim_eq_self_iff]
  refine ⟨?_, ?_⟩
  · intro c h
    rw [Option.mem_def.mp h] at ho
    simpa using ho
  · intro c h
    rw [Option.mem_def.mp h] at hc
    simpa using hc

theorem trimmed_of_ends (ho : opens s) (hc : closes s) : trimmed s = s := by
  rw [trimmed, trim_of_ends ho hc, String.ofList_toList]

/-- White space around a text goes when it is trimmed, and nothing else. -/
theorem trimmed_between {before after : String} (ho : opens s) (hc : closes s)
    (hb : ∀ c ∈ before.toList, isBlank c) (ha : ∀ c ∈ after.toList, isBlank c) :
    trimmed (before ++ s ++ after) = s := by
  rw [trimmed, String.toList_append, String.toList_append, trim_append_blanks ha,
    trim_blanks_append hb, trim_of_ends ho hc, String.ofList_toList]

theorem nonBlank?_of_ends (ho : opens s) (hc : closes s) : nonBlank? s.toList = some s := by
  apply nonBlank?_of_trim_eq (trim_of_ends ho hc)
  rintro rfl
  exact absurd ho (by decide)

end Ends

/-- A list of texts has the ends of its first and of its last text. -/
theorem ends_joined {separator s : String} {ss : List String} (h : ∀ t ∈ s :: ss, opens t ∧ closes t) :
    opens (joined separator (s :: ss)) ∧ closes (joined separator (s :: ss)) := by
  obtain ⟨ho, hc⟩ := h s List.mem_cons_self
  rw [joined_cons]
  refine ⟨opens_append _ ho, closes_append_join hc ?_⟩
  intro t ht
  obtain ⟨u, hu, rfl⟩ := List.mem_map.mp ht
  exact closes_append _ (h u (List.mem_cons_of_mem s hu)).2

theorem trimmed_joined {separator : String} {ss : List String}
    (h : ∀ s ∈ ss, opens s ∧ closes s) : trimmed (joined separator ss) = joined separator ss := by
  cases ss with
  | nil => rfl
  | cons s ss =>
    obtain ⟨ho, hc⟩ := ends_joined h
    exact trimmed_of_ends ho hc

theorem infix_joined (separator : String) {s : String} {ss : List String} (h : s ∈ ss) :
    s.toList <:+: (joined separator ss).toList := by
  cases ss with
  | nil => cases h
  | cons t ss =>
    rw [joined_cons, String.toList_append]
    rcases List.mem_cons.mp h with rfl | h
    · exact (List.prefix_append _ _).isInfix
    · obtain ⟨x, y, rfl⟩ := List.append_of_mem h
      simp only [List.map_append, List.map_cons, String.join_append, String.join_cons,
        String.toList_append, ← List.append_assoc]
      exact List.infix_append _ _ _

end Notebook.Text
