import Notebook.Proofs.Text
import Notebook.RenderArgs

/-! The arguments of a renderer as a map that remembers in which order its keys were first inserted.

Each operation is described by what it does to the keys and to the answers of `get?`. What a history of
insertions leaves follows by induction on the history, from its end. -/
namespace Notebook

namespace Text
variable {isSeparator : Char → Bool}

/-- The first piece of a text goes up to its first separator. -/
theorem head?_split (cs : List Char) :
    (split isSeparator cs).head? = some (cs.takeWhile fun c => !isSeparator c) := by
  induction cs with
  | nil => rfl
  | cons c cs ih =>
    by_cases hc : isSeparator c
    · rw [split, if_pos hc, List.takeWhile_cons_of_neg (by simp [hc]), List.head?_cons]
    · rw [Bool.not_eq_true] at hc
      obtain ⟨piece, rest, hpiece, hall⟩ := split_cons_of_not hc cs
      rw [hpiece, List.head?_cons, Option.some.injEq] at ih
      rw [hall, List.takeWhile_cons_of_pos (by simp [hc]), List.head?_cons, ih]

private theorem nonBlank?_congr {cs ds : List Char} (h : trim cs = trim ds) : nonBlank? cs = nonBlank? ds := by
  rw [nonBlank?, nonBlank?, h]

/-- A text is its pieces with the separators between them. -/
theorem intercalate_split (separator : Char) (cs : List Char) :
    [separator].intercalate (split (· == separator) cs) = cs := by
  induction cs with
  | nil => rfl
  | cons c cs ih =>
    obtain ⟨piece, rest, hpieces⟩ := List.exists_cons_of_ne_nil (split_ne_nil (· == separator) cs)
    by_cases hc : (c == separator) = true
    · rw [split, if_pos hc, hpieces, List.intercalate_cons_cons, ← hpieces, ih, beq_iff_eq.mp hc]
      rfl
    · rw [split, if_neg hc, hpieces]
      rw [hpieces] at ih
      cases rest with
      | nil => rw [List.intercalate_singleton] at ih ⊢; rw [ih]
      | cons next rest =>
        rw [List.intercalate_cons_cons] at ih ⊢
        rw [List.cons_append, List.cons_append, ih]

end Text

namespace RenderArgs
variable (args : RenderArgs) (key : String) (value : Option String)

def keys : List String :=
  args.entries.map Prod.fst

def insertAll (args : RenderArgs) (entries : List (String × Option String)) : RenderArgs :=
  entries.foldl (fun args e => args.insert e.1 e.2) args

section Entries
variable {k : String} {entries : List (String × Option String)}

/-- An entry hides what stands behind it under its key. -/
theorem lookup_entry : ((key, value) :: entries).lookup k = if k = key then some value else entries.lookup k := by
  rw [List.lookup_cons]
  by_cases h : k = key
  · simp [h]
  · simp [h, beq_false_of_ne h]

private theorem forall_bne_iff : (∀ e ∈ entries, (k != e.1) = true) ↔ k ∉ entries.map Prod.fst := by
  rw [List.mem_map, not_exists]
  refine forall_congr' fun e => ?_
  rw [bne_iff_ne, not_and, ne_comm]

theorem lookup_of_mem (h : (entries.map Prod.fst).Nodup) {e : String × Option String} (he : e ∈ entries) :
    entries.lookup e.1 = some e.2 := by
  induction entries with
  | nil => cases he
  | cons first entries ih =>
    obtain ⟨hfirst, h⟩ := List.nodup_cons.mp h
    rw [lookup_entry]
    rcases List.mem_cons.mp he with rfl | he
    · rw [if_pos rfl]
    · have hne : e.1 ≠ first.1 := fun heq => hfirst (heq ▸ List.mem_map_of_mem he)
      rw [if_neg hne, ih h he]

private theorem map_fst_setFirst : (setFirst key value entries).map Prod.fst =
    if key ∈ entries.map Prod.fst then entries.map Prod.fst else entries.map Prod.fst ++ [key] := by
  induction entries with
  | nil => rfl
  | cons e entries ih =>
    rw [setFirst]
    by_cases h : e.1 = key
    · rw [if_pos h, List.map_cons, List.map_cons, if_pos (List.mem_cons.mpr (.inl h.symm))]
    · have hmem : key ∈ e.1 :: entries.map Prod.fst ↔ key ∈ entries.map Prod.fst := by
        rw [List.mem_cons, or_iff_right (Ne.symm h)]
      simp only [if_neg h, List.map_cons, ih, hmem]
      split <;> rfl

private theorem lookup_setFirst :
    (setFirst key value entries).lookup k = if k = key then some value else entries.lookup k := by
  induction entries with
  | nil => exact lookup_entry key value
  | cons e entries ih =>
    rw [setFirst]
    by_cases h : e.1 = key
    · rw [if_pos h, lookup_entry, lookup_entry, h]
      split <;> rfl
    · rw [if_neg h, lookup_entry, lookup_entry, ih]
      by_cases hk : k = key
      · rw [if_pos hk, if_pos hk, if_neg (by rw [hk]; exact Ne.symm h)]
      · rw [if_neg hk, if_neg hk]

end Entries

/-- A key that is there keeps its place, and one that is not gets the last place. -/
theorem keys_insert :
    (args.insert key value).keys = if key ∈ args.keys then args.keys else args.keys ++ [key] :=
  map_fst_setFirst key value

private theorem get?_eq_none_iff : args.get? key = none ↔ key ∉ args.keys := by
  rw [get?, List.lookup_eq_none_iff, forall_bne_iff, keys]

private theorem get?_insert (k : String) :
    (args.insert key value).get? k = if k = key then some value else args.get? k :=
  lookup_setFirst key value

def valued : List (String × String) :=
  args.entries.filterMap fun e => e.2.map (Prod.mk e.1)

private theorem valued_eq (h : args.keys.Nodup) :
    args.valued = args.keys.filterMap fun k => (args.get? k).join.map (Prod.mk k) := by
  rw [valued, keys, List.filterMap_map]
  apply List.filterMap_congr
  intro e he
  have hget : args.get? e.1 = some e.2 := lookup_of_mem h he
  rw [Function.comp_apply, hget, Option.join_some]

theorem toJson_eq : args.toJson = .object (args.valued.map fun m => (m.1, .string m.2)) := by
  rw [toJson, valued, List.map_filterMap]
  simp only [Option.map_map, Function.comp_def]

private theorem compact_toJson : args.toJson.compact = "\x7b" ++
    Text.joined "," (args.valued.map fun m => Text.quoted m.1 ++ ":" ++ Text.quoted m.2) ++ "\x7d" := by
  rw [toJson_eq, Json.compact, List.map_map]
  simp only [Function.comp_def, Json.compact]

section History
variable (history : List (String × Option String))

private theorem insertAll_concat (e : String × Option String) :
    args.insertAll (history ++ [e]) = (args.insertAll history).insert e.1 e.2 :=
  List.foldl_concat ..

private theorem insertAll_append (more : List (String × Option String)) :
    args.insertAll (history ++ more) = (args.insertAll history).insertAll more :=
  List.foldl_append

private theorem prefix_keys_insert : args.keys <+: (args.insert key value).keys := by
  rw [keys_insert]
  split
  · exact List.prefix_rfl
  · exact List.prefix_append _ _

private theorem prefix_keys_insertAll : args.keys <+: (args.insertAll history).keys := by
  induction history using List.reverseRecOn with
  | nil => exact List.prefix_rfl
  | append_singleton history e ih =>
    rw [insertAll_concat]
    exact ih.trans (prefix_keys_insert _ _ _)

private theorem mem_keys_insertAll (k : String) :
    k ∈ (({} : RenderArgs).insertAll history).keys ↔ k ∈ history.map Prod.fst := by
  induction history using List.reverseRecOn with
  | nil => exact Iff.rfl
  | append_singleton history e ih =>
    rw [insertAll_concat, keys_insert, List.map_append, List.mem_append, ← ih, List.map_singleton,
      List.mem_singleton]
    split
    · rename_i hmem
      exact ⟨.inl, fun h => h.elim id fun he => he ▸ hmem⟩
    · rw [List.mem_append, List.mem_singleton]

/-- The last insertion of a key decides what is found. -/
theorem get?_insertAll (k : String) :
    (({} : RenderArgs).insertAll history).get? k = history.reverse.lookup k := by
  induction history using List.reverseRecOn with
  | nil => rfl
  | append_singleton history e ih =>
    rw [insertAll_concat, get?_insert, ih, List.reverse_concat, lookup_entry]

/-- The keys stand in the order of their first insertions: a key that is new now comes behind all others. -/
theorem keys_insertAll_ordered : (({} : RenderArgs).insertAll history).keys.Pairwise fun a b =>
    (history.map Prod.fst).idxOf a < (history.map Prod.fst).idxOf b := by
  induction history using List.reverseRecOn with
  | nil => exact List.Pairwise.nil
  | append_singleton history e ih =>
    have hold {k : String} (hk : k ∈ (({} : RenderArgs).insertAll history).keys) :
        ((history ++ [e]).map Prod.fst).idxOf k = (history.map Prod.fst).idxOf k := by
      rw [List.map_append]
      exact List.idxOf_append_of_mem ((mem_keys_insertAll history k).mp hk)
    have hordered := ih.imp_of_mem fun ha hb hlt => (hold ha).symm ▸ (hold hb).symm ▸ hlt
    rw [insertAll_concat, keys_insert]
    split
    · exact hordered
    · rename_i hnew
      refine List.pairwise_append.mpr ⟨hordered, List.pairwise_singleton _ _, ?_⟩
      intro a ha b hb
      rw [List.mem_singleton.mp hb, hold ha, List.map_append,
        List.idxOf_append_of_notMem (mt (mem_keys_insertAll history e.1).mpr hnew)]
      have hlt := List.idxOf_lt_length_of_mem ((mem_keys_insertAll history a).mp ha)
      omega

end History

section Pieces

/-- The entry that a piece of an argument list writes: the part before its first equals sign is the key, and
the part up to the second one is the value. -/
def written? (piece : List Char) : Option (String × Option String) :=
  let rest := (piece.dropWhile (· != '=')).tail?
  (Text.nonBlank? (piece.takeWhile (· != '='))).map fun key =>
    (key, rest.map fun rest => String.ofList (Text.trim (rest.takeWhile (· != '='))))

private theorem bne_of_not_mem {cs : List Char} (h : '=' ∉ cs) : ∀ c ∈ cs, (c != '=') = true :=
  fun _ hc => bne_iff_ne.mpr fun he => h (he ▸ hc)

private theorem written?_of_not_mem {piece : List Char} (h : '=' ∉ piece) :
    written? piece = (Text.nonBlank? piece).map (·, none) := by
  rw [written?, List.takeWhile_eq_self_iff.mpr (bne_of_not_mem h),
    List.dropWhile_eq_nil_iff.mpr (bne_of_not_mem h)]
  rfl

private theorem written?_append {a : List Char} (ha : '=' ∉ a) (b : List Char) :
    written? (a ++ '=' :: b) = (Text.nonBlank? a).map
      (·, some (String.ofList (Text.trim (b.takeWhile (· != '='))))) := by
  rw [written?, Text.takeWhile_append_cons (bne_of_not_mem ha) rfl,
    Text.dropWhile_append_cons (bne_of_not_mem ha) rfl]
  rfl

private theorem setting?_of_not_mem {piece : List Char} (h : '=' ∉ piece) :
    setting? piece = (Text.nonBlank? piece).map (·, none) := by
  have htrim : '=' ∉ Text.trim piece := fun hmem => h ((Text.trim_infix piece).subset hmem)
  rw [setting?, Text.split_of_forall (by simpa using bne_of_not_mem htrim)]
  dsimp only
  rw [Text.nonBlank?_congr (Text.trim_trim piece)]
  rfl

/-- White space at the end of a text is trimmed off with the last part of it, or is in no part. -/
theorem trim_takeWhile_trimEnd (p : Char → Bool) (cs : List Char) :
    Text.trim ((Text.trimEnd cs).takeWhile p) = Text.trim (cs.takeWhile p) := by
  have hcs : cs = Text.trimEnd cs ++ cs.rtakeWhile Text.isBlank := List.rdropWhile_append_rtakeWhile.symm
  conv_rhs => rw [hcs, List.takeWhile_append]
  split
  · rename_i hall
    rw [(List.takeWhile_prefix p).eq_of_length hall, Text.trim_append_blanks]
    intro c hc
    exact List.mem_rtakeWhile_imp ((List.takeWhile_prefix p).subset hc)
  · rfl

private theorem setting?_append {a : List Char} (ha : '=' ∉ a) (b : List Char) :
    setting? (a ++ '=' :: b) = (Text.nonBlank? a).map
      (·, some (String.ofList (Text.trim (b.takeWhile (· != '='))))) := by
  have htrim : Text.trim (a ++ '=' :: b) = Text.trimStart a ++ '=' :: Text.trimEnd b := by
    have hends := Text.trim_append_append (a := a) (m := ['=']) (b := b) ⟨'=', rfl, by decide⟩ ⟨'=', rfl, by decide⟩
    simpa using hends
  have hstart : '=' ∉ Text.trimStart a := fun hmem => ha ((List.dropWhile_sublist _).subset hmem)
  have hkey : Text.trim (Text.trimStart a) = Text.trim a := by
    rw [Text.trim, Text.trim, Text.trimStart, Text.trimStart, List.dropWhile_idempotent]
  rw [setting?, htrim, Text.split_append_cons (by simpa using bne_of_not_mem hstart) rfl]
  dsimp only
  rw [Text.head?_split, Option.map_some, Text.nonBlank?_congr hkey, trim_takeWhile_trimEnd]
  rfl

/-- White space around a piece belongs to its first or its last part, and these are trimmed anyway. -/
theorem setting?_eq_written? (piece : List Char) : setting? piece = written? piece := by
  by_cases h : '=' ∈ piece
  · obtain ⟨a, b, rfl, ha⟩ := List.eq_append_cons_of_mem h
    rw [setting?_append ha, written?_append ha]
  · rw [setting?_of_not_mem h, written?_of_not_mem h]

end Pieces

/-- What a history of insertions leaves. -/
structure Remembers (args : RenderArgs) (history : List (String × Option String)) : Prop where
  /-- The keys that have been inserted are there, and no others. -/
  mem_keys_iff : ∀ k, k ∈ args.keys ↔ k ∈ history.map Prod.fst
  keys_nodup : args.keys.Nodup
  /-- The keys stand in the order of their first insertions. -/
  keys_ordered : args.keys.Pairwise fun a b =>
    (history.map Prod.fst).idxOf a < (history.map Prod.fst).idxOf b
  /-- The keys that there were at any time are still in their places. -/
  keys_kept : ∀ before after, history = before ++ after →
    (({} : RenderArgs).insertAll before).keys <+: args.keys
  size_eq : args.size = args.keys.length
  /-- The last insertion of a key counts. -/
  get?_iff : ∀ k value, args.get? k = some value ↔
    ∃ before after, history = before ++ (k, value) :: after ∧ k ∉ after.map Prod.fst
  get?_none_iff : ∀ k, args.get? k = none ↔ k ∉ history.map Prod.fst
  /-- The object has the keys with present values, in order. -/
  valued_eq : args.valued = args.keys.filterMap fun k => (args.get? k).join.map (Prod.mk k)
  text_eq : args.toJson.compact = "\x7b" ++
    Text.joined "," (args.valued.map fun m => Text.quoted m.1 ++ ":" ++ Text.quoted m.2) ++ "\x7d"

private theorem nodup_keys_insertAll (history : List (String × Option String)) :
    (({} : RenderArgs).insertAll history).keys.Nodup :=
  (keys_insertAll_ordered history).imp fun hlt heq => by
    rw [heq] at hlt
    omega

private theorem remembers_insertAll (history : List (String × Option String)) :
    (({} : RenderArgs).insertAll history).Remembers history where
  mem_keys_iff := mem_keys_insertAll history
  keys_nodup := nodup_keys_insertAll history
  keys_ordered := keys_insertAll_ordered history
  keys_kept := by
    rintro before after rfl
    rw [insertAll_append]
    exact prefix_keys_insertAll _ after
  size_eq := (List.length_map _).symm
  get?_iff := by
    intro k value
    rw [get?_insertAll, List.lookup_eq_some_iff]
    simp only [forall_bne_iff]
    constructor
    · rintro ⟨after, before, heq, hafter⟩
      refine ⟨before.reverse, after.reverse, ?_, by simpa using hafter⟩
      rw [← List.reverse_reverse history, heq]
      simp
    · rintro ⟨before, after, rfl, hafter⟩
      exact ⟨after.reverse, before.reverse, by simp, by simpa using hafter⟩
  get?_none_iff := by
    intro k
    rw [get?_eq_none_iff, mem_keys_insertAll]
  valued_eq := valued_eq _ (nodup_keys_insertAll history)
  text_eq := compact_toJson _

/-- Arguments that are read from a text and then set one by one remember all that was ever set. Each piece of
the text between commas with something before its first equals sign sets one argument. -/
theorem parse_insertAll_remembers (list : List Char) (steps : List (String × Option String)) :
    ∃ pieces : List (List Char), pieces ≠ [] ∧ (∀ piece ∈ pieces, ',' ∉ piece) ∧
      list = [','].intercalate pieces ∧
      parse list = ({} : RenderArgs).insertAll (pieces.filterMap written?) ∧
      ((parse list).insertAll steps).Remembers (pieces.filterMap written? ++ steps) := by
  have hparse : parse list = ({} : RenderArgs).insertAll ((Text.split (· == ',') list).filterMap written?) := by
    rw [parse, funext setting?_eq_written?]
    rfl
  refine ⟨Text.split (· == ',') list, Text.split_ne_nil _ list, ?_, (Text.intercalate_split ',' list).symm,
    hparse, ?_⟩
  · intro piece hpiece hcomma
    exact absurd (Text.forall_of_mem_split hpiece ',' hcomma) (by decide)
  · rw [hparse, ← insertAll_append]
    exact remembers_insertAll _

end RenderArgs

end Notebook
