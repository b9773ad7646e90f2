import Notebook.Proofs.ModuleNames

/-! When the constants that hold the children of a module hide the functions that make them.

Constants and functions are both named after levels: the constants begin with the word `child`, the
functions with the stem of the configuration. -/
namespace Notebook

/-- A constant for a child has the name of a function that makes a child: it hides the function in the
statements that make the children. -/
def GeneratedModule.Shadowed (m : GeneratedModule) : Prop :=
  ∃ a ∈ m.children, ∃ b ∈ m.children, a.binding = b.defineName

def IsDigits (text : String) : Prop :=
  ∀ c ∈ text.toList, c.isDigit

def letters (cs : List Char) : Nat :=
  cs.countP fun c => !c.isDigit

private theorem letters_append (cs ds : List Char) : letters (cs ++ ds) = letters cs + letters ds :=
  List.countP_append

private theorem letters_eq_zero_iff {text : String} : letters text.toList = 0 ↔ IsDigits text := by
  rw [letters, List.countP_eq_zero]
  simp [IsDigits]

/-- Names that end in digits have the same letters at their starts. So a stem under which a function has
the name of a constant is the word of the constants and then digits. -/
theorem constant_eq_function_iff {stem level a b : String} (ha : IsDigits a) (hb : IsDigits b) :
    "child" ++ (level ++ a) = stem ++ (level ++ b) ↔
      ∃ digits, IsDigits digits ∧ stem = "child" ++ digits ∧ level ++ a = digits ++ (level ++ b) := by
  have hword : letters "child".toList = 5 := by decide
  constructor
  · intro h
    have hchars := congrArg String.toList h
    simp only [String.toList_append] at hchars
    have hletters : letters stem.toList = 5 := by
      have hcount := congrArg letters hchars
      simp only [letters_append, letters_eq_zero_iff.mpr ha, letters_eq_zero_iff.mpr hb] at hcount
      omega
    have hlength : "child".toList.length ≤ stem.toList.length := by
      have hle : letters stem.toList ≤ stem.toList.length := List.countP_le_length
      rwa [hletters] at hle
    obtain ⟨rest, hrest⟩ := List.prefix_of_prefix_length_le
      (hchars ▸ List.prefix_append _ _) (List.prefix_append _ _) hlength
    have hstem : stem = "child" ++ String.ofList rest := by
      apply String.toList_inj.mp
      simp [← hrest]
    refine ⟨String.ofList rest, ?_, hstem, ?_⟩
    · rw [hstem, String.toList_append, letters_append] at hletters
      exact letters_eq_zero_iff.mp (by omega)
    · rwa [hstem, String.append_assoc, String.append_right_inj] at h
  · rintro ⟨digits, _, rfl, h⟩
    rw [h, String.append_assoc]

namespace Wired
variable {config : Config} {document : Document} {m : GeneratedModule}

/-- A constant hides a function just if the stem goes on from the word `child` with digits, and these
can also be read as the start of a level. -/
theorem shadowed_iff (h : Wired config document m) : m.Shadowed ↔
    ∃ digits, IsDigits digits ∧ config.defineStem = "child" ++ digits ∧
      ∃ a < m.children.length, ∃ b < m.children.length,
        m.level ++ toString a = digits ++ (m.level ++ toString b) := by
  have hnames {a b : Nat} {x y : ChildModule} (hx : m.children[a]? = some x)
      (hy : m.children[b]? = some y) : x.binding = y.defineName ↔ ∃ digits, IsDigits digits ∧
        config.defineStem = "child" ++ digits ∧
        m.level ++ toString a = digits ++ (m.level ++ toString b) := by
    obtain ⟨hxl, hxb, _⟩ := h.named a x hx
    obtain ⟨hyl, _, hyd⟩ := h.named b y hy
    rw [hxb, hyd, hxl, hyl]
    exact constant_eq_function_iff (fun _ => isDigit_toString) (fun _ => isDigit_toString)
  constructor
  · rintro ⟨x, hx, y, hy, he⟩
    obtain ⟨a, ha, rfl⟩ := List.getElem_of_mem hx
    obtain ⟨b, hb, rfl⟩ := List.getElem_of_mem hy
    obtain ⟨digits, hdigits, hstem, hlevel⟩ :=
      (hnames (List.getElem?_eq_getElem ha) (List.getElem?_eq_getElem hb)).mp he
    exact ⟨digits, hdigits, hstem, a, ha, b, hb, hlevel⟩
  · rintro ⟨digits, hdigits, hstem, a, ha, b, hb, hlevel⟩
    exact ⟨_, List.getElem_mem ha, _, List.getElem_mem hb,
      (hnames (List.getElem?_eq_getElem ha) (List.getElem?_eq_getElem hb)).mpr
        ⟨digits, hdigits, hstem, hlevel⟩⟩

/-- With the word of the constants as the stem, every constant hides the function of its own child. -/
theorem shadowed_of_child (h : Wired config document m) (hstem : config.defineStem = "child") :
    m.Shadowed ↔ m.children ≠ [] := by
  constructor
  · rintro ⟨x, hx, _⟩
    exact List.ne_nil_of_mem hx
  · intro hne
    have hpos := List.length_pos_of_ne_nil hne
    exact h.shadowed_iff.mpr ⟨"", nofun, hstem, 0, hpos, 0, hpos, rfl⟩

/-- The labels of at most ten children have one digit each, which leaves none for the stem. -/
theorem not_shadowed_of_few (h : Wired config document m) (hstem : config.defineStem ≠ "child")
    (hfew : m.children.length ≤ 10) : ¬ m.Shadowed := by
  intro hshadowed
  obtain ⟨digits, _, hdigits, a, ha, b, _, hlevel⟩ := h.shadowed_iff.mp hshadowed
  have hone : (toString a).length ≤ 1 := (Nat.length_repr_le_iff Nat.one_pos).mpr (by omega)
  have hpos : 0 < (toString b).length := Nat.length_repr_pos
  have hlength := congrArg String.length hlevel
  simp only [String.length_append] at hlength
  have hnone : digits = "" := String.length_eq_zero_iff.mp (by omega)
  exact hstem (by rw [hdigits, hnone, String.append_empty])

end Wired

namespace Compiler
variable {c : Compiler} {document : Document} {level : String}

/-- In a tree that compiles, a module has a constant that hides a function that makes one of its children
just if the stem is `child` followed by digits that the level and a label can take up. So every module
with children has one if the stem is `child`, and with another stem no module with at most ten children
has one. -/
theorem compileModule_shadowed {depth : Nat} {m : GeneratedModule} {j k : Journal}
    (h : (c.compileModule depth document level).Returns j m k) :
    ∃ tree, (c.compileTree depth document level).Returns j tree k ∧ tree.module = m ∧
      ∀ nested ∈ tree.modules,
        (nested.Shadowed ↔ ∃ digits, IsDigits digits ∧ c.config.defineStem = "child" ++ digits ∧
          ∃ a < nested.children.length, ∃ b < nested.children.length,
            nested.level ++ toString a = digits ++ (nested.level ++ toString b)) ∧
        (c.config.defineStem = "child" → (nested.Shadowed ↔ nested.children ≠ [])) ∧
        (c.config.defineStem ≠ "child" → nested.children.length ≤ 10 → ¬ nested.Shadowed) := by
  obtain ⟨tree, _, ht, h⟩ := Compile.returns_bind.mp h
  obtain ⟨rfl, rfl⟩ := Compile.returns_pure.mp h
  refine ⟨tree, ht, rfl, ?_⟩
  intro nested hn
  obtain ⟨_, _, _, hwired⟩ := ((compiles_of_returns ht).exists_source wired_moduleOf).2 nested hn
  exact ⟨hwired.shadowed_iff, hwired.shadowed_of_child, hwired.not_shadowed_of_few⟩

/-- Eleven imports and the stem `child1`: the constant of the last import is the function of the first. -/
theorem compileModule_shadowed_eleven :
    let c : Compiler := ⟨⟨fun _ specifier _ => .ok { path := specifier }, fun _ _ => .ok "A"⟩,
      { defineStem := "child1" }⟩
    let lines := (List.range 11).map fun n => "\n{x} from " ++ toString n
    let document : Document := ⟨"```{imports}" ++ String.join lines ++ "\n```", { path := "n.md" }⟩
    ∃ m k, (c.compileModule 1 document "").Returns {} m k ∧ m.children.length = 11 ∧ m.Shadowed := by
  intro c lines document
  obtain ⟨m, k, h, hm⟩ := Compile.exists_returns (x := c.compileModule 1 document "") (j := {})
    (f := fun m => (m.children.length, m.level)) (b := (11, "")) (by decide +kernel)
  obtain ⟨hlength, hlevel⟩ := Prod.mk.inj hm
  obtain ⟨tree, _, htree, hall⟩ := compileModule_shadowed (c := c) h
  have hroot : m ∈ tree.modules := by
    cases tree
    simp [← htree, ModuleTree.modules_node, ModuleTree.module]
  refine ⟨m, k, h, hlength, (hall m hroot).1.mpr ⟨"1", ?_, rfl, 10, ?_, 0, ?_, ?_⟩⟩
  · intro d hd
    fin_cases hd
    decide
  · rw [hlength]
    decide
  · rw [hlength]
    decide
  · rw [hlevel]
    decide +kernel

/-- The stem `child` is valid, and the only constant of the module that imports a document is declared by
a statement that refers to the constant itself. -/
theorem shadowed_with_stem_child :
    let c : Compiler := ⟨Library.ofTexts [("a.md", "A")], { defineStem := "child" }⟩
    let document : Document := ⟨"```{imports}\n{x} from a.md\n```", { path := "n.md" }⟩
    c.config.validate = .ok () ∧
    ∃ m k, (c.compileModule 1 document "").Returns {} m k ∧ m.Shadowed ∧
      m.children.map GeneratedModule.instanceText = ["  const child0 = runtime.module(child0)"] := by
  intro c document
  have hvalid : c.config.validate = .ok () := by decide
  obtain ⟨m, k, h, hm⟩ := Compile.exists_returns (x := c.compileModule 1 document "") (j := {})
    (f := fun m => m.children.map fun child => (child.binding, child.defineName))
    (b := [("child0", "child0")]) (by decide +kernel)
  obtain ⟨child, hchildren, hchild⟩ := List.map_eq_singleton_iff.mp hm
  obtain ⟨hbinding, hname⟩ := Prod.mk.inj hchild
  refine ⟨hvalid, m, k, h, ?_, ?_⟩
  · refine ⟨child, ?_, child, ?_, hbinding.trans hname.symm⟩ <;> simp [hchildren]
  · rw [hchildren, List.map_singleton, GeneratedModule.instanceText, hbinding, hname]
    decide +kernel

end Compiler

end Notebook
