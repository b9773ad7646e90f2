import Notebook.Json.Basic
import Notebook.Proofs.Quoting
import Notebook.Proofs.Text

/-! JSON texts can be read in one way only.

Both ways of writing a value, on one line and indented, are of one form: they differ in the gaps between the
parts. The first character of a text tells the kind of the value, a string ends at its closing quote, a number
before the first character that no number holds, and a bracket is closed right behind its last part. -/
namespace Notebook

namespace Text

private theorem toList_joined_cons (separator s : String) (ss : List String) :
    (joined separator (s :: ss)).toList = s.toList ++ ss.flatMap fun t => separator.toList ++ t.toList := by
  rw [joined_cons, String.toList_append]
  congr 1
  induction ss with
  | nil => rfl
  | cons t ss ih => rw [List.map_cons, String.join_cons, String.toList_append, String.toList_append, ih, List.flatMap_cons]

end Text

namespace Json

def isNumeralChar (c : Char) : Bool :=
  c.isDigit || c == '-' || c == '+' || c == '.' || c == 'e'

def Numeric (s : String) : Prop :=
  ∀ c ∈ s.toList, isNumeralChar c

/-- The text of a number. -/
structure IsNumeral (s : String) : Prop where
  ne_empty : s ≠ ""
  chars : Numeric s

theorem Numeric.append {s t : String} (hs : Numeric s) (ht : Numeric t) : Numeric (s ++ t) := by
  intro c hc
  rw [String.toList_append] at hc
  exact (List.mem_append.mp hc).elim (hs c) (ht c)

theorem numeric_of_all {s : String} (h : s.toList.all isNumeralChar) : Numeric s :=
  List.all_eq_true.mp h

theorem numeric_ofList {cs : List Char} (h : ∀ c ∈ cs, c.isDigit) : Numeric (String.ofList cs) := by
  intro c hc
  rw [String.toList_ofList] at hc
  simp [isNumeralChar, h c hc]

theorem Numeric.ite {p : Prop} [Decidable p] {s t : String} (hs : Numeric s) (ht : Numeric t) :
    Numeric (if p then s else t) := by
  split
  · exact hs
  · exact ht

theorem IsNumeral.signed {sign s : String} (hsign : Numeric sign) (h : IsNumeral s) : IsNumeral (sign ++ s) where
  ne_empty := by simp [h.ne_empty]
  chars := hsign.append h.chars

/-- All numbers in a value have texts of numbers. -/
inductive Plain : Json → Prop
  | null : Plain null
  | bool (value : Bool) : Plain (bool value)
  | number {text : String} (numeral : IsNumeral text) : Plain (number text)
  | string (text : String) : Plain (string text)
  | array {items : List Json} (plain : ∀ item ∈ items, Plain item) : Plain (array items)
  | object {members : List (String × Json)} (plain : ∀ m ∈ members, Plain m.2) : Plain (object members)

structure Style where
  /-- The gap in front of a part at a depth. -/
  gap : Nat → String
  /-- What stands between a key and its value. -/
  colon : String
  gap_blank : ∀ depth, ∀ c ∈ (gap depth).toList, c = '\n' ∨ c = ' '

def Style.parts (style : Style) (depth : Nat) (texts : List String) : String :=
  if texts.isEmpty then ""
  else style.gap (depth + 1) ++ Text.joined ("," ++ style.gap (depth + 1)) texts ++ style.gap depth

def Style.member (style : Style) (text : Json → String) (m : String × Json) : String :=
  Text.quoted m.1 ++ style.colon ++ text m.2

/-- The texts of values are set in a style. -/
structure Style.Sets (style : Style) (text : Nat → Json → String) : Prop where
  null : ∀ depth, text depth .null = "null"
  bool : ∀ depth value, text depth (.bool value) = if value then "true" else "false"
  number : ∀ depth s, text depth (.number s) = s
  string : ∀ depth s, text depth (.string s) = Text.quoted s
  array : ∀ depth items, text depth (.array items) =
    "[" ++ style.parts depth (items.map (text (depth + 1))) ++ "]"
  object : ∀ depth members, text depth (.object members) =
    "\x7b" ++ style.parts depth (members.map (style.member (text (depth + 1)))) ++ "\x7d"

def oneLine : Style where
  gap := fun _ => ""
  colon := ":"
  gap_blank := fun _ => List.forall_mem_nil _

private theorem parts_oneLine (depth : Nat) (texts : List String) : oneLine.parts depth texts = Text.joined "," texts := by
  unfold Style.parts
  cases texts with
  | nil => rfl
  | cons s ss => simp [oneLine]

private theorem sets_compact : oneLine.Sets fun _ => compact where
  null _ := by rw [compact]
  bool _ _ := by rw [compact]
  number _ _ := by rw [compact]
  string _ _ := by rw [compact]
  array depth items := by rw [compact, parts_oneLine]
  object depth members := by
    rw [compact, parts_oneLine]
    rfl

def indentedLines : Style where
  gap := newline
  colon := ": "
  gap_blank := by
    intro depth c hc
    simp only [newline, String.toList_append, String.toList_ofList, List.mem_append, List.mem_replicate] at hc
    rcases hc with hc | ⟨-, hc⟩
    · exact .inl (List.mem_singleton.mp hc)
    · exact .inr hc

private theorem sets_indented : indentedLines.Sets indented where
  null _ := by rw [indented]
  bool _ _ := by rw [indented]
  number _ _ := by rw [indented]
  string _ _ := by rw [indented]
  array depth items := by
    rw [indented, Style.parts, List.isEmpty_map]
    split
    · rfl
    · simp [indentedLines, String.append_assoc]
  object depth members := by
    have hmember : (fun m : String × Json => Text.quoted m.1 ++ ": " ++ indented (depth + 1) m.2) =
        indentedLines.member (indented (depth + 1)) := rfl
    rw [indented, Style.parts, List.isEmpty_map, hmember]
    split
    · rfl
    · simp [indentedLines, String.append_assoc]

def Ends (rest : List Char) : Prop :=
  ∀ c ∈ rest.head?, isNumeralChar c = false

section Parts
variable {α : Type} {f : α → String} {style : Style} {depth : Nat} {close : Char} {as bs : List α} {x y : List Char}

/-- The texts of two parts show where they end, and are equal only for equal parts. -/
def Readable (f : α → String) (a b : α) : Prop :=
  ∀ x y, Ends x → Ends y → (f a).toList ++ x = (f b).toList ++ y → a = b ∧ x = y

def following (style : Style) (depth : Nat) (f : α → String) (close : Char) (as : List α) (x : List Char) : List Char :=
  (as.flatMap fun a => ',' :: ((style.gap (depth + 1)).toList ++ (f a).toList)) ++
    ((style.gap depth).toList ++ close :: x)

private theorem following_cons (a : α) : following style depth f close (a :: as) x =
    ',' :: ((style.gap (depth + 1)).toList ++ ((f a).toList ++ following style depth f close as x)) := by
  simp [following]

private theorem head_of_gap {c d : Char} (h : ((style.gap depth).toList ++ d :: x).head? = some c) :
    c = '\n' ∨ c = ' ' ∨ c = d := by
  cases hgap : (style.gap depth).toList with
  | nil =>
    rw [hgap] at h
    exact .inr (.inr (Option.some.inj h).symm)
  | cons e es =>
    rw [hgap] at h
    have hblank := style.gap_blank depth e (hgap ▸ List.mem_cons_self)
    rw [← Option.some.inj h]
    exact hblank.imp id .inl

private theorem head_of_following (hclose : close = ']' ∨ close = '}') {c : Char}
    (h : (following style depth f close as x).head? = some c) :
    c = ',' ∧ as ≠ [] ∨ c ∈ ['\n', ' ', ']', '}'] ∧ as = [] := by
  cases as with
  | nil =>
    refine .inr ⟨?_, rfl⟩
    rcases head_of_gap h with rfl | rfl | rfl
    · decide
    · decide
    · rcases hclose with rfl | rfl <;> decide
  | cons a as => exact .inl ⟨(Option.some.inj h).symm, List.cons_ne_nil a as⟩

private theorem ends_following (hclose : close = ']' ∨ close = '}') : Ends (following style depth f close as x) := by
  intro c hc
  rcases head_of_following hclose hc with ⟨rfl, -⟩ | ⟨hmem, -⟩
  · decide
  · fin_cases hmem <;> decide

/-- Parts are read one after the other, as long as a comma follows. -/
theorem following_inj (hclose : close = ']' ∨ close = '}') (hread : ∀ a ∈ as, ∀ b ∈ bs, Readable f a b)
    (h : following style depth f close as x = following style depth f close bs y) : as = bs ∧ x = y := by
  induction as generalizing bs with
  | nil =>
    cases bs with
    | nil => exact ⟨rfl, (List.cons.inj (List.append_cancel_left h)).2⟩
    | cons b bs =>
      rw [following_cons] at h
      rcases head_of_following hclose (congrArg List.head? h) with ⟨-, hne⟩ | ⟨hmem, -⟩
      · exact absurd rfl hne
      · exact absurd hmem (by decide)
  | cons a as ih =>
    rw [following_cons] at h
    cases bs with
    | nil =>
      rcases head_of_following hclose (congrArg List.head? h.symm) with ⟨-, hne⟩ | ⟨hmem, -⟩
      · exact absurd rfl hne
      · exact absurd hmem (by decide)
    | cons b bs =>
      rw [following_cons] at h
      obtain ⟨rfl, hrest⟩ := hread a List.mem_cons_self b List.mem_cons_self _ _ (ends_following hclose)
        (ends_following hclose) (List.append_cancel_left (List.cons.inj h).2)
      obtain ⟨rfl, rfl⟩ := ih (fun a ha b hb => hread a (List.mem_cons_of_mem _ ha) b (List.mem_cons_of_mem _ hb)) hrest
      exact ⟨rfl, rfl⟩

private theorem toList_parts_cons (a : α) : (style.parts depth ((a :: as).map f)).toList ++ close :: x =
    (style.gap (depth + 1)).toList ++ ((f a).toList ++ following style depth f close as x) := by
  rw [List.map_cons, Style.parts, if_neg (by simp), String.toList_append, String.toList_append,
    Text.toList_joined_cons, List.flatMap_map]
  simp [following]

def Opens (s : String) : Prop :=
  ∃ c rest, s.toList = c :: rest ∧ c ≠ ']' ∧ c ≠ '}'

private theorem parts_cons_ne (hclose : close = ']' ∨ close = '}') {a : α} (hopens : Opens (f a)) :
    (style.parts depth ((a :: as).map f)).toList ++ close :: x ≠ close :: y := by
  obtain ⟨c, rest, hc, hbracket, hbrace⟩ := hopens
  rw [toList_parts_cons, hc]
  intro h
  rcases head_of_gap (congrArg List.head? h) with rfl | rfl | rfl
  · simp at hclose
  · simp at hclose
  · rcases hclose with rfl | rfl
    · exact hbracket rfl
    · exact hbrace rfl

/-- The parts of a collection are told apart by their texts up to its end. -/
theorem parts_append_inj (hclose : close = ']' ∨ close = '}') (hread : ∀ a ∈ as, ∀ b ∈ bs, Readable f a b)
    (ha : ∀ a ∈ as, Opens (f a)) (hb : ∀ b ∈ bs, Opens (f b))
    (h : (style.parts depth (as.map f)).toList ++ close :: x = (style.parts depth (bs.map f)).toList ++ close :: y) :
    as = bs ∧ x = y := by
  cases as with
  | nil =>
    cases bs with
    | nil => exact ⟨rfl, (List.cons.inj h).2⟩
    | cons b bs => exact absurd h.symm (parts_cons_ne hclose (hb b List.mem_cons_self))
  | cons a as =>
    cases bs with
    | nil => exact absurd h (parts_cons_ne hclose (ha a List.mem_cons_self))
    | cons b bs =>
      rw [toList_parts_cons, toList_parts_cons] at h
      obtain ⟨rfl, hrest⟩ := hread a List.mem_cons_self b List.mem_cons_self _ _ (ends_following hclose)
        (ends_following hclose) (List.append_cancel_left h)
      obtain ⟨rfl, rfl⟩ := following_inj hclose
        (fun a ha b hb => hread a (List.mem_cons_of_mem _ ha) b (List.mem_cons_of_mem _ hb)) hrest
      exact ⟨rfl, rfl⟩

end Parts

/-- The kind of a value by the first character of its text, with one character for all numbers. -/
def mark : Json → Char
  | null => 'n'
  | bool value => if value then 't' else 'f'
  | number _ => '0'
  | string _ => '"'
  | array _ => '['
  | object _ => '\x7b'

def markOf (c : Char) : Char :=
  if isNumeralChar c then '0' else c

private theorem mark_ne_close (value : Json) : value.mark ≠ ']' ∧ value.mark ≠ '\x7d' := by
  cases value with
  | bool value => cases value <;> decide
  | _ => exact ⟨by simp [mark], by simp [mark]⟩

section Values
variable {style : Style} {text : Nat → Json → String} {a b : Json} {depth : Nat}

private theorem toList_array (hs : style.Sets text) (items : List Json) (x : List Char) :
    (text depth (array items)).toList ++ x =
      '[' :: ((style.parts depth (items.map (text (depth + 1)))).toList ++ ']' :: x) := by
  rw [hs.array]
  simp

private theorem toList_object (hs : style.Sets text) (members : List (String × Json)) (x : List Char) :
    (text depth (object members)).toList ++ x =
      '\x7b' :: ((style.parts depth (members.map (style.member (text (depth + 1))))).toList ++ '\x7d' :: x) := by
  rw [hs.object]
  simp

private theorem exists_head (hs : style.Sets text) (ha : Plain a) (depth : Nat) :
    ∃ c rest, (text depth a).toList = c :: rest ∧ markOf c = a.mark := by
  cases ha with
  | null => exact ⟨'n', _, by rw [hs.null]; rfl, rfl⟩
  | bool value =>
    cases value with
    | true => exact ⟨'t', _, by rw [hs.bool]; rfl, rfl⟩
    | false => exact ⟨'f', _, by rw [hs.bool]; rfl, rfl⟩
  | @number s numeral =>
    obtain ⟨c, rest, hc⟩ := List.exists_cons_of_ne_nil (mt String.toList_eq_nil_iff.mp numeral.ne_empty)
    exact ⟨c, rest, by rw [hs.number, hc], if_pos (numeral.chars c (hc ▸ List.mem_cons_self))⟩
  | string s => exact ⟨'"', _, by rw [hs.string, ← List.append_nil (Text.quoted s).toList, Text.toList_quoted], rfl⟩
  | @array items _ => exact ⟨'[', _, by rw [← List.append_nil (text depth _).toList, toList_array hs], rfl⟩
  | @object members _ => exact ⟨'\x7b', _, by rw [← List.append_nil (text depth _).toList, toList_object hs], rfl⟩

/-- The first character of a text tells the kind of the value. -/
theorem mark_eq (hs : style.Sets text) (ha : Plain a) (hb : Plain b) {x y : List Char}
    (h : (text depth a).toList ++ x = (text depth b).toList ++ y) : a.mark = b.mark := by
  obtain ⟨c, rest, hc, hmark⟩ := exists_head hs ha depth
  obtain ⟨c', rest', hc', hmark'⟩ := exists_head hs hb depth
  rw [hc, hc'] at h
  rw [← hmark, ← hmark', (List.cons.inj h).1]

theorem opens_text (hs : style.Sets text) (ha : Plain a) : Opens (text depth a) := by
  obtain ⟨c, rest, hc, hmark⟩ := exists_head hs ha depth
  have hclose := a.mark_ne_close
  refine ⟨c, rest, hc, ?_, ?_⟩
  · intro h
    exact hclose.1 (by rw [← hmark, h]; decide)
  · intro h
    exact hclose.2 (by rw [← hmark, h]; decide)

private theorem opens_member (value : Json → String) (m : String × Json) : Opens (style.member value m) :=
  ⟨'"', _, by rw [Style.member, String.append_assoc, String.toList_append, Text.toList_quoted], by decide, by decide⟩

private theorem readable_member {value : Json → String} {m n : String × Json} (h : Readable value m.2 n.2) :
    Readable (style.member value) m n := by
  intro x y hx hy heq
  simp only [Style.member, String.toList_append, List.append_assoc] at heq
  obtain ⟨hkey, hrest⟩ := Text.quoted_append_inj heq
  obtain ⟨hvalue, hxy⟩ := h x y hx hy (List.append_cancel_left hrest)
  exact ⟨Prod.ext hkey hvalue, hxy⟩

/-- A text shows where it ends, and equal texts at one depth are of equal values. -/
theorem readable_text (hs : style.Sets text) (ha : Plain a) (hb : Plain b) (depth : Nat) :
    Readable (text depth) a b := by
  -- by induction on the first value; the first character leaves one kind for the second
  induction ha generalizing b depth with
  | null =>
    intro x y hx hy h
    have hmark := mark_eq hs .null hb h
    cases hb with
    | null => exact ⟨rfl, List.append_cancel_left h⟩
    | _ => grind [mark]
  | bool value =>
    intro x y hx hy h
    have hmark := mark_eq hs (.bool value) hb h
    cases hb with
    | bool value' =>
      obtain rfl : value = value' := by cases value <;> cases value' <;> simp [mark] at hmark ⊢
      exact ⟨rfl, List.append_cancel_left h⟩
    | _ => grind [mark]
  | number numeral =>
    intro x y hx hy h
    have hmark := mark_eq hs (.number numeral) hb h
    cases hb with
    | number numeral' =>
      rw [hs.number, hs.number] at h
      obtain ⟨htext, hxy⟩ := Text.run_append_inj numeral.chars numeral'.chars hx hy h
      exact ⟨by rw [String.toList_inj.mp htext], hxy⟩
    | _ => grind [mark]
  | string s =>
    intro x y hx hy h
    have hmark := mark_eq hs (.string s) hb h
    cases hb with
    | string t =>
      rw [hs.string, hs.string] at h
      obtain ⟨rfl, hxy⟩ := Text.quoted_append_inj h
      exact ⟨rfl, hxy⟩
    | _ => grind [mark]
  | array plain ih =>
    intro x y hx hy h
    have hmark := mark_eq hs (.array plain) hb h
    cases hb with
    | array plain' =>
      rw [toList_array hs, toList_array hs] at h
      obtain ⟨rfl, hxy⟩ := parts_append_inj (.inl rfl) (fun a ha b hb => ih a ha (plain' b hb) (depth + 1))
        (fun a ha => opens_text hs (plain a ha)) (fun b hb => opens_text hs (plain' b hb)) (List.cons.inj h).2
      exact ⟨rfl, hxy⟩
    | _ => grind [mark]
  | object plain ih =>
    intro x y hx hy h
    have hmark := mark_eq hs (.object plain) hb h
    cases hb with
    | object plain' =>
      rw [toList_object hs, toList_object hs] at h
      obtain ⟨rfl, hxy⟩ := parts_append_inj (.inr rfl)
        (fun m hm n hn => readable_member (ih m hm (plain' n hn) (depth + 1)))
        (fun m _ => opens_member _ m) (fun n _ => opens_member _ n) (List.cons.inj h).2
      exact ⟨rfl, hxy⟩
    | _ => grind [mark]

private theorem text_inj (hs : style.Sets text) (ha : Plain a) (hb : Plain b) (depth : Nat)
    (h : text depth a = text depth b) : a = b := by
  have hends : Ends [] := fun _ hc => by simp at hc
  exact (readable_text hs ha hb depth [] [] hends hends (by rw [h])).1

end Values

theorem compact_inj {a b : Json} (ha : Plain a) (hb : Plain b) : a.compact = b.compact ↔ a = b :=
  ⟨text_inj sets_compact ha hb 0, congrArg compact⟩

theorem pretty_inj {a b : Json} (ha : Plain a) (hb : Plain b) : a.pretty = b.pretty ↔ a = b :=
  ⟨text_inj sets_indented ha hb 0, congrArg pretty⟩

end Json

end Notebook
