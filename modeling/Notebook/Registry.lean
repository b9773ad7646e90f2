/-! The modules that a document imports. -/
namespace Notebook

structure RegistryEntry where
  specifier : String
  label : String
deriving Repr, DecidableEq

def RegistryEntry.level (e : RegistryEntry) (level : String) : String :=
  level ++ e.label

namespace Registry
variable {entries : List RegistryEntry} {places : List (String × Nat)} {s : String}

/-- The index leads to the entries of the specifiers in it and to no others, and the label of an entry is its
place. -/
structure InStep (entries : List RegistryEntry) (places : List (String × Nat)) : Prop where
  lookup_iff : ∀ s i, places.lookup s = some i ↔ (entries[i]?).map RegistryEntry.specifier = some s
  label_eq : ∀ (i : Nat) (e : RegistryEntry), entries[i]? = some e → e.label = toString i

theorem InStep.nil : InStep [] [] where
  lookup_iff _ _ := by simp
  label_eq _ _ h := by simp at h

theorem InStep.lt_length (h : InStep entries places) {i : Nat} (hs : places.lookup s = some i) :
    i < entries.length := by
  obtain ⟨e, he, _⟩ := Option.map_eq_some_iff.mp ((h.lookup_iff s i).mp hs)
  exact (List.getElem?_eq_some_iff.mp he).1

theorem InStep.push (h : InStep entries places) (hnew : places.lookup s = none) :
    InStep (entries ++ [⟨s, toString entries.length⟩]) ((s, entries.length) :: places) where
  lookup_iff t i := by
    have hold := h.lookup_iff t i
    rw [List.lookup_cons, List.getElem?_append]
    by_cases hi : i < entries.length
    · rw [if_pos hi, ← hold]
      by_cases ht : t = s
      · rw [ht, hnew]
        simp
        omega
      · rw [beq_false_of_ne ht]
    · rw [if_neg hi, List.getElem?_singleton]
      have hnone : places.lookup t ≠ some i := fun hsome => hi (h.lt_length hsome)
      by_cases ht : t = s
      · simp [ht]
        omega
      · simp [beq_false_of_ne ht, hnone, Ne.symm ht]
  label_eq i e he := by
    rw [List.getElem?_append] at he
    split at he
    · exact h.label_eq i e he
    · rename_i hi
      obtain ⟨hzero, rfl⟩ : i - entries.length = 0 ∧ _ = e := by simpa [List.getElem?_singleton] using he
      rw [show i = entries.length by omega]
      rfl

end Registry

/-- Entries in the order in which their specifiers are first met, and where the entry of a specifier is. -/
structure Registry where
  entries : List RegistryEntry := []
  places : List (String × Nat) := []
  inStep : Registry.InStep entries places := by exact .nil
deriving Repr, DecidableEq

namespace Registry

def size (r : Registry) : Nat :=
  r.entries.length

def get? (r : Registry) (specifier : String) : Option RegistryEntry :=
  match h : r.places.lookup specifier with
  | some place => some (r.entries.get ⟨place, r.inStep.lt_length h⟩)
  | none => none

def register (r : Registry) (specifier : String) : RegistryEntry × Registry :=
  match h : r.places.lookup specifier with
  | some place => (r.entries.get ⟨place, r.inStep.lt_length h⟩, r)
  | none =>
    let entry : RegistryEntry := ⟨specifier, toString r.size⟩
    (entry, ⟨r.entries ++ [entry], (specifier, r.size) :: r.places, r.inStep.push h⟩)

end Registry

end Notebook
