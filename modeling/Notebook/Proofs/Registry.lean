import Mathlib
import Notebook.Registry

/-! Registering specifiers one after the other. A specifier keeps the label it got first, and two
specifiers never share one. -/
namespace Notebook.Registry
variable {r r' : Registry} {s t : String}

def specifiers (r : Registry) : List String :=
  r.entries.map RegistryEntry.specifier

def registerAll (r : Registry) (specifiers : List String) : Registry :=
  specifiers.foldl (fun r s => (r.register s).2) r

def labelOf (r : Registry) (s : String) : String :=
  toString (r.specifiers.idxOf s)

private theorem lookup_eq_some_iff {i : Nat} :
    r.places.lookup s = some i ↔ r.specifiers[i]? = some s := by
  rw [r.inStep.lookup_iff, specifiers, List.getElem?_map]

private theorem lookup_of_mem (h : s ∈ r.specifiers) :
    r.places.lookup s = some (r.specifiers.idxOf s) := by
  rw [lookup_eq_some_iff, List.getElem?_eq_some_iff]
  exact ⟨List.idxOf_lt_length_of_mem h, List.getElem_idxOf _⟩

private theorem lookup_of_not_mem (h : s ∉ r.specifiers) : r.places.lookup s = none := by
  rw [Option.eq_none_iff_forall_ne_some]
  intro i hi
  exact h (List.mem_of_getElem? (lookup_eq_some_iff.mp hi))

/-- Two entries of one specifier would stand at the place that the index gives for it. -/
theorem nodup_specifiers (r : Registry) : r.specifiers.Nodup := by
  rw [List.nodup_iff_injective_get]
  intro i j hij
  have hi : r.places.lookup (r.specifiers.get i) = some i.val := lookup_eq_some_iff.mpr (by simp)
  have hj : r.places.lookup (r.specifiers.get j) = some j.val := lookup_eq_some_iff.mpr (by simp)
  rw [hij, hj] at hi
  exact Fin.ext (Option.some.inj hi).symm

/-- The entries are the specifiers with their labels. -/
theorem entries_eq_map (r : Registry) : r.entries = r.specifiers.map fun s => ⟨s, r.labelOf s⟩ := by
  have hlength : r.specifiers.length = r.entries.length := List.length_map _
  apply List.ext_getElem
  · rw [List.length_map, hlength]
  · intro i hi _
    have hlabel := r.inStep.label_eq i _ (List.getElem?_eq_getElem hi)
    have hplace := r.nodup_specifiers.idxOf_getElem i (hlength ▸ hi)
    rw [List.getElem_map, labelOf, hplace, ← hlabel]
    simp [specifiers]

private theorem get_of_lookup {place : Nat} (h : r.places.lookup s = some place) :
    r.entries.get ⟨place, r.inStep.lt_length h⟩ = ⟨s, r.labelOf s⟩ := by
  have hs : r.specifiers[place]? = some s := lookup_eq_some_iff.mp h
  have hentry : r.entries[place]? = some ⟨s, r.labelOf s⟩ := by
    rw [entries_eq_map, List.getElem?_map, hs]
    rfl
  exact (List.getElem?_eq_some_iff.mp hentry).2

theorem get?_of_mem (h : s ∈ r.specifiers) : r.get? s = some ⟨s, r.labelOf s⟩ := by
  unfold get?
  split
  · rename_i place hplace
    rw [get_of_lookup hplace]
  · rename_i hnone
    rw [lookup_of_mem h] at hnone
    cases hnone

theorem get?_of_not_mem (h : s ∉ r.specifiers) : r.get? s = none := by
  unfold get?
  split
  · rename_i place hplace
    rw [lookup_of_not_mem h] at hplace
    cases hplace
  · rfl

private theorem register_of_mem (h : s ∈ r.specifiers) : r.register s = (⟨s, r.labelOf s⟩, r) := by
  unfold register
  split
  · rename_i place hplace
    rw [get_of_lookup hplace]
  · rename_i hnone
    rw [lookup_of_mem h] at hnone
    cases hnone

private theorem register_of_not_mem (h : s ∉ r.specifiers) : (r.register s).1 = ⟨s, toString r.size⟩ ∧
    (r.register s).2.entries = r.entries ++ [⟨s, toString r.size⟩] := by
  unfold register
  split
  · rename_i place hplace
    rw [lookup_of_not_mem h] at hplace
    cases hplace
  · exact ⟨rfl, rfl⟩

theorem specifiers_register (r : Registry) (s : String) :
    (r.register s).2.specifiers = if s ∈ r.specifiers then r.specifiers else r.specifiers ++ [s] := by
  by_cases h : s ∈ r.specifiers
  · rw [register_of_mem h, if_pos h]
  · rw [specifiers, (register_of_not_mem h).2, if_neg h, List.map_append]
    rfl

private theorem prefix_register (r : Registry) (s : String) : r.entries <+: (r.register s).2.entries := by
  by_cases h : s ∈ r.specifiers
  · rw [register_of_mem h]
  · rw [(register_of_not_mem h).2]
    exact List.prefix_append _ _

theorem mem_register : t ∈ (r.register s).2.specifiers ↔ t ∈ r.specifiers ∨ t = s := by
  rw [specifiers_register]
  by_cases h : s ∈ r.specifiers
  · rw [if_pos h]
    exact ⟨.inl, fun ht => ht.elim id (fun he => he ▸ h)⟩
  · rw [if_neg h]
    simp

/-- The entry that registering gives has the label in the registry that it leaves. -/
theorem fst_register (r : Registry) (s : String) :
    (r.register s).1 = ⟨s, (r.register s).2.labelOf s⟩ := by
  by_cases h : s ∈ r.specifiers
  · rw [register_of_mem h]
  · have hplace : (r.register s).2.specifiers.idxOf s = r.size := by
      rw [specifiers_register, if_neg h, List.idxOf_append_of_notMem h]
      simp [specifiers, size]
    rw [labelOf, hplace, (register_of_not_mem h).1]

/-- A registry that goes on from another one keeps its labels. -/
theorem labelOf_of_prefix (h : r.entries <+: r'.entries) (hs : s ∈ r.specifiers) :
    r'.labelOf s = r.labelOf s := by
  obtain ⟨rest, he⟩ : r.specifiers <+: r'.specifiers := h.map RegistryEntry.specifier
  rw [labelOf, labelOf, ← he, List.idxOf_append_of_mem hs]

theorem labelOf_inj (hs : s ∈ r.specifiers) : r.labelOf s = r.labelOf t ↔ s = t := by
  constructor
  · intro h
    exact (List.idxOf_inj hs).mp (Nat.repr_injective h)
  · exact congrArg r.labelOf

@[simp] theorem registerAll_nil (r : Registry) : r.registerAll [] = r := rfl

@[simp] theorem registerAll_cons (r : Registry) (s : String) (ss : List String) :
    r.registerAll (s :: ss) = (r.register s).2.registerAll ss := rfl

theorem registerAll_append (r : Registry) (ss ts : List String) :
    r.registerAll (ss ++ ts) = (r.registerAll ss).registerAll ts :=
  List.foldl_append

theorem prefix_registerAll (r : Registry) (ss : List String) :
    r.entries <+: (r.registerAll ss).entries := by
  induction ss generalizing r with
  | nil => exact List.prefix_refl _
  | cons s ss ih => exact (prefix_register r s).trans (ih _)

theorem mem_registerAll {ss : List String} :
    t ∈ (r.registerAll ss).specifiers ↔ t ∈ r.specifiers ∨ t ∈ ss := by
  induction ss generalizing r with
  | nil => simp
  | cons s ss ih => rw [registerAll_cons, ih, mem_register, List.mem_cons, or_assoc]

end Notebook.Registry
