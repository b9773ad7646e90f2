import Mathlib
import Notebook.Module

/-! The pass that finds the names which a module defines more than once.

The names that have been met and the names that have been found guard each other. What both of them
say about the names read so far is kept by each step, so it holds at the end. -/
namespace Notebook

/-- The place is the one where the name occurs for the second time. -/
def GeneratedModule.SecondAt (names : List String) (name : String) (place : Nat) : Prop :=
  names[place]? = some name ∧ (names.take place).count name = 1

open GeneratedModule (SecondAt)

namespace Repeats
variable {r : Repeats} {names : List String} {name : String}

/-- What a pass knows after it has read `names`. -/
structure Tracks (r : Repeats) (names : List String) : Prop where
  mem_seen_iff : ∀ a, a ∈ r.seen ↔ a ∈ names
  mem_found_iff : ∀ a, a ∈ r.found ↔ 2 ≤ names.count a
  nodup : r.found.Nodup
  placed : ∀ a ∈ r.found, ∃ i, SecondAt names a i
  ordered : r.found.Pairwise fun a b => ∃ i j, i < j ∧ SecondAt names a i ∧ SecondAt names b j

private theorem visit_of_new (h : name ∉ r.seen) : r.visit name = { r with seen := name :: r.seen } := by
  simp [visit, meet, h]

private theorem visit_of_found (hseen : name ∈ r.seen) (hfound : name ∈ r.found) : r.visit name = r := by
  simp [visit, meet, hseen, hfound]

private theorem visit_of_again (hseen : name ∈ r.seen) (hfound : name ∉ r.found) :
    r.visit name = { r with found := r.found ++ [name] } := by
  simp [visit, meet, hseen, hfound]

private theorem lt_length {a : String} {i : Nat} (h : SecondAt names a i) : i < names.length :=
  (List.getElem?_eq_some_iff.mp h.1).1

/-- Names that follow do not move the second place of a name. -/
private theorem secondAt_concat {a : String} {i : Nat} (h : SecondAt names a i) :
    SecondAt (names ++ [name]) a i := by
  have hi := lt_length h
  rw [SecondAt, List.getElem?_append_left hi, List.take_append_of_le_length hi.le]
  exact h

private theorem count_concat (a : String) :
    (names ++ [name]).count a = names.count a + if name = a then 1 else 0 := by
  rw [List.count_append, List.count_singleton]
  simp

namespace Tracks
variable (h : Tracks r names)
include h

private theorem placed_concat : ∀ a ∈ r.found, ∃ i, SecondAt (names ++ [name]) a i := by
  intro a ha
  obtain ⟨i, hi⟩ := h.placed a ha
  exact ⟨i, secondAt_concat hi⟩

private theorem ordered_concat : r.found.Pairwise fun a b => ∃ i j, i < j ∧
    SecondAt (names ++ [name]) a i ∧ SecondAt (names ++ [name]) b j := by
  refine h.ordered.imp ?_
  rintro a b ⟨i, j, hlt, ha, hb⟩
  exact ⟨i, j, hlt, secondAt_concat ha, secondAt_concat hb⟩

/-- A name that has been met is not new to `seen`. -/
private theorem mem_seen_concat_iff (hseen : name ∈ r.seen) (a : String) : a ∈ r.seen ↔ a ∈ names ++ [name] := by
  rw [h.mem_seen_iff] at hseen ⊢
  rw [List.mem_append, List.mem_singleton]
  exact ⟨.inl, fun ha => ha.elim id fun he => he ▸ hseen⟩

/-- Only the second place of a name changes which names occur twice. -/
private theorem mem_found_concat_iff (hcount : names.count name ≠ 1) (a : String) :
    a ∈ r.found ↔ 2 ≤ (names ++ [name]).count a := by
  rw [h.mem_found_iff, count_concat]
  split
  · rename_i ha
    rw [← ha]
    omega
  · rfl

private theorem visit_new (hnew : name ∉ r.seen) : Tracks (r.visit name) (names ++ [name]) := by
  have hcount : names.count name = 0 := List.count_eq_zero.mpr (mt (h.mem_seen_iff name).mpr hnew)
  rw [visit_of_new hnew]
  refine ⟨fun a => ?_, h.mem_found_concat_iff (by omega), h.nodup, h.placed_concat, h.ordered_concat⟩
  rw [List.mem_cons, h.mem_seen_iff, List.mem_append, List.mem_singleton, or_comm]

private theorem visit_found (hseen : name ∈ r.seen) (hfound : name ∈ r.found) :
    Tracks (r.visit name) (names ++ [name]) := by
  have hcount := (h.mem_found_iff name).mp hfound
  rw [visit_of_found hseen hfound]
  exact ⟨h.mem_seen_concat_iff hseen, h.mem_found_concat_iff (by omega), h.nodup, h.placed_concat,
    h.ordered_concat⟩

/-- A name that has been met and not found occurs once, so this is its second place. -/
private theorem visit_again (hseen : name ∈ r.seen) (hfound : name ∉ r.found) :
    Tracks (r.visit name) (names ++ [name]) := by
  have hcount : names.count name = 1 := by
    have hpos : 0 < names.count name := List.count_pos_iff.mpr ((h.mem_seen_iff name).mp hseen)
    have hlt := mt (h.mem_found_iff name).mpr hfound
    omega
  have hplace : SecondAt (names ++ [name]) name names.length := by
    refine ⟨by simp, ?_⟩
    rwa [List.take_left]
  rw [visit_of_again hseen hfound]
  refine ⟨h.mem_seen_concat_iff hseen, fun a => ?_, ?_, ?_, ?_⟩
  · rw [List.mem_append, List.mem_singleton, h.mem_found_iff, count_concat]
    split
    · rename_i ha
      rw [← ha]
      simp [hcount]
    · rename_i ha
      simp [Ne.symm ha]
  · exact h.nodup.append (List.nodup_singleton _) (List.disjoint_singleton.mpr hfound)
  · exact List.forall_mem_append.mpr ⟨h.placed_concat, List.forall_mem_singleton.mpr ⟨_, hplace⟩⟩
  · refine List.pairwise_append.mpr ⟨h.ordered_concat, List.pairwise_singleton _ _, fun a ha b hb => ?_⟩
    obtain ⟨i, hi⟩ := h.placed a ha
    rw [List.mem_singleton.mp hb]
    exact ⟨i, names.length, lt_length hi, secondAt_concat hi, hplace⟩

theorem visit (name : String) : Tracks (r.visit name) (names ++ [name]) := by
  by_cases hseen : name ∈ r.seen
  · by_cases hfound : name ∈ r.found
    · exact h.visit_found hseen hfound
    · exact h.visit_again hseen hfound
  · exact h.visit_new hseen

end Tracks

private theorem tracks_foldl (names : List String) : Tracks (names.foldl Repeats.visit {}) names := by
  induction names using List.reverseRecOn with
  | nil =>
    exact ⟨fun _ => Iff.rfl, by simp, List.nodup_nil, List.forall_mem_nil _, List.Pairwise.nil⟩
  | append_singleton names name ih =>
    rw [List.foldl_append]
    exact ih.visit name

example : (["a", "b", "c", "b", "a", "b"].foldl Repeats.visit {}).found = ["b", "a"] := by decide

end Repeats

namespace GeneratedModule

theorem nodup_duplicates (m : GeneratedModule) : m.duplicates.Nodup :=
  (Repeats.tracks_foldl m.definitions).nodup

theorem mem_duplicates_iff {m : GeneratedModule} {name : String} :
    name ∈ m.duplicates ↔ 2 ≤ m.definitions.count name :=
  (Repeats.tracks_foldl m.definitions).mem_found_iff name

/-- The names that a module defines more than once stand in the order of their second places. -/
theorem duplicates_ordered (m : GeneratedModule) : m.duplicates.Pairwise fun a b => ∃ i j, i < j ∧
    SecondAt m.definitions a i ∧ SecondAt m.definitions b j :=
  (Repeats.tracks_foldl m.definitions).ordered

theorem duplicates_eq_nil {m : GeneratedModule} (h : m.definitions.Nodup) : m.duplicates = [] := by
  rw [List.eq_nil_iff_forall_not_mem]
  intro name hname
  have htwice := mem_duplicates_iff.mp hname
  have honce := List.nodup_iff_count_le_one.mp h name
  omega

end GeneratedModule

end Notebook
