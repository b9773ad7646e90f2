import Notebook.Proofs.ImportFragments

/-! Registries list specifiers in the order in which they are first seen, and so the registry of a
document lists the specifiers of its import lines. -/
namespace Notebook

namespace Registry

def answers (r : Registry) : List String → List RegistryEntry
  | [] => []
  | s :: ss => (r.register s).1 :: (r.register s).2.answers ss

/-- What a registry that has been filled with `specifiers` holds. -/
structure FirstSeen (specifiers : List String) (r : Registry) : Prop where
  /-- Each specifier has one entry, in the order of first appearance. -/
  entries_eq : r.entries.map RegistryEntry.specifier = specifiers.eraseDups
  /-- The label of an entry is its place. -/
  label_eq : ∀ (place : Nat) (entry : RegistryEntry), r.entries[place]? = some entry →
    entry.label = toString place
  /-- The index leads to the entries of their specifiers. -/
  indexed : ∀ s place, r.places.lookup s = some place ↔
    (r.entries[place]?).map RegistryEntry.specifier = some s
  /-- The registered specifiers are found, and no others. -/
  found_iff : ∀ s, (∃ entry, r.get? s = some entry) ↔ s ∈ specifiers
  /-- What is found is the entry of the specifier. -/
  get?_iff : ∀ s entry, r.get? s = some entry ↔ entry ∈ r.entries ∧ entry.specifier = s
  /-- Every call for a specifier has been answered with the entry that is found in the end. -/
  answered : List.Forall₂ (fun s entry => r.get? s = some entry) specifiers
    (({} : Registry).answers specifiers)
  /-- The entries that there were at any time are still in their places. -/
  kept : ∀ before after, specifiers = before ++ after →
    (({} : Registry).registerAll before).entries <+: r.entries

/-- Registering is removing later repetitions. -/
theorem specifiers_registerAll (ss : List String) :
    (({} : Registry).registerAll ss).specifiers = ss.eraseDups := by
  induction ss using List.reverseRecOn with
  | nil => rfl
  | append_singleton ss s ih =>
    have hlast : ([s].removeAll ss).eraseDups = if s ∈ ss then [] else [s] := by
      by_cases h : s ∈ ss
      · simp [List.removeAll, h]
      · simp [List.removeAll, h, List.eraseDups_cons]
    rw [registerAll_append, registerAll_cons, registerAll_nil, specifiers_register, ih,
      List.eraseDups_append, hlast]
    simp only [List.mem_eraseDups]
    split <;> simp

private theorem exists_get?_iff {r : Registry} {s : String} :
    (∃ entry, r.get? s = some entry) ↔ s ∈ r.specifiers := by
  constructor
  · rintro ⟨entry, he⟩
    by_contra h
    simp [get?_of_not_mem h] at he
  · exact fun h => ⟨_, get?_of_mem h⟩

private theorem get?_eq_some_iff {r : Registry} {s : String} {entry : RegistryEntry} :
    r.get? s = some entry ↔ entry ∈ r.entries ∧ entry.specifier = s := by
  rw [entries_eq_map, List.mem_map]
  constructor
  · intro he
    have hs : s ∈ r.specifiers := exists_get?_iff.mp ⟨entry, he⟩
    rw [get?_of_mem hs] at he
    cases he
    exact ⟨⟨s, hs, rfl⟩, rfl⟩
  · rintro ⟨⟨t, ht, rfl⟩, rfl⟩
    exact get?_of_mem ht

/-- The entry of a call is that of the registry in the end, since entries keep their places. -/
theorem answers_eq (r : Registry) (ss : List String) :
    r.answers ss = ss.map fun s => ⟨s, (r.registerAll ss).labelOf s⟩ := by
  induction ss generalizing r with
  | nil => rfl
  | cons s ss ih =>
    have hmem : s ∈ (r.register s).2.specifiers := mem_register.mpr (.inr rfl)
    rw [answers, ih, fst_register, List.map_cons, registerAll_cons,
      labelOf_of_prefix (prefix_registerAll _ ss) hmem]

private theorem firstSeen_registerAll (ss : List String) : FirstSeen ss (({} : Registry).registerAll ss) := by
  have hmem {s : String} : s ∈ (({} : Registry).registerAll ss).specifiers ↔ s ∈ ss := by
    rw [mem_registerAll]
    simp [specifiers]
  have hstep := (registerAll {} ss).inStep
  refine ⟨specifiers_registerAll ss, hstep.label_eq, hstep.lookup_iff, ?_,
    fun s entry => get?_eq_some_iff, ?_, ?_⟩
  · intro s
    rw [exists_get?_iff, hmem]
  · rw [answers_eq, List.forall₂_map_right_iff, List.forall₂_same]
    exact fun s hs => get?_of_mem (hmem.mpr hs)
  · rintro before after rfl
    rw [registerAll_append]
    exact prefix_registerAll _ after

end Registry

/-- Registering any specifiers in order lists them as they are first seen. The statements of chunks
are made with such a registry, filled from the import lines of all chunks in order, and each import
refers to the constant of the entry that the specifier of its line has in the end. -/
theorem Registry.firstSeen_everywhere :
    (∀ specifiers, FirstSeen specifiers (({} : Registry).registerAll specifiers)) ∧
    ∀ (site : Site) (chunks : List Chunk) (body : List Fragment) (registry : Registry),
      Chunk.generateAll site chunks {} = .ok (body, registry) →
      FirstSeen ((chunks.flatMap Chunk.moduleImports).map ModuleImport.specifier) registry ∧
      List.Forall₂ (fun i b => ∃ entry, registry.get? i.specifier = some entry ∧
          b = i.bindingTo (childBinding site.level entry.label))
        (chunks.flatMap Chunk.moduleImports) (body.filterMap Fragment.imported) := by
  refine ⟨firstSeen_registerAll, ?_⟩
  intro site chunks body registry h
  have hemits := Chunk.emits_generateAll h
  have hregistry : registry = _ := hemits.registry
  refine ⟨hregistry ▸ firstSeen_registerAll _, ?_⟩
  rw [hemits.imported, List.forall₂_map_right_iff, List.forall₂_same]
  intro i hi
  have hmem : i.specifier ∈ registry.specifiers := by
    rw [hregistry]
    exact mem_registerAll.mpr (.inr (List.mem_map_of_mem hi))
  exact ⟨_, get?_of_mem hmem, rfl⟩

/-- Four import lines in two chunks, the last of which goes back to the first module. -/
theorem Registry.firstSeen_everywhere_two_chunks :
    let first : Chunk := { index := 0, type := "imports", content := "{a} from m\n{b} from n" }
    let second : Chunk :=
      { index := 1, type := "imports", content := "x load f.csv\n{c} from o\n{d as e} from m" }
    ∃ body registry, Chunk.generateAll { level := "0" } [first, second] {} = .ok (body, registry) ∧
      registry.entries = [⟨"m", "0"⟩, ⟨"n", "1"⟩, ⟨"o", "2"⟩] ∧
      FirstSeen ["m", "n", "o", "m"] registry ∧
      List.Forall₂ (fun i b => ∃ entry, registry.get? i.specifier = some entry ∧
          b = i.bindingTo (childBinding "0" entry.label))
        ([first, second].flatMap Chunk.moduleImports) (body.filterMap Fragment.imported) := by
  intro first second
  have hrun : (Chunk.generateAll { level := "0" } [first, second] {}).toOption.map (·.2.entries) =
      some [⟨"m", "0"⟩, ⟨"n", "1"⟩, ⟨"o", "2"⟩] := by decide +kernel
  have hlines : ([first, second].flatMap Chunk.moduleImports).map ModuleImport.specifier =
      ["m", "n", "o", "m"] := by decide +kernel
  cases h : Chunk.generateAll { level := "0" } [first, second] {} with
  | error e =>
    rw [h] at hrun
    cases hrun
  | ok out =>
    rw [h] at hrun
    obtain ⟨hseen, hbindings⟩ := firstSeen_everywhere.2 _ _ out.1 out.2 h
    exact ⟨out.1, out.2, rfl, Option.some.inj hrun, hlines ▸ hseen, hbindings⟩

end Notebook
