import Notebook.Proofs.CallOrder
import Notebook.Proofs.DefinitionNames

/-! Which functions are reported as defined more than once.

A compile notes the names that its module repeats at its end, and nothing that it does before notes a
collision. -/
namespace Notebook

namespace GeneratedModule
variable {name : String}

def collisions (m : GeneratedModule) (resource : Resource) : List Note :=
  m.duplicates.map fun name => .collision name resource

private theorem nodup_collisions {m : GeneratedModule} {resource : Resource} : (m.collisions resource).Nodup := by
  refine m.nodup_duplicates.map ?_
  intro a b hab
  exact (Note.collision.inj hab).1

private theorem mem_collisions_iff {m : GeneratedModule} {resource source : Resource} :
    .collision name source ∈ m.collisions resource ↔ source = resource ∧ 2 ≤ m.definitions.count name := by
  rw [collisions, List.mem_map, ← mem_duplicates_iff]
  constructor
  · rintro ⟨a, ha, heq⟩
    obtain ⟨rfl, rfl⟩ := Note.collision.inj heq
    exact ⟨rfl, ha⟩
  · rintro ⟨rfl, hname⟩
    exact ⟨name, hname, rfl⟩

end GeneratedModule

def Note.isCollision : Note → Bool
  | collision _ _ => true
  | _ => false

private theorem isCollision_of_importNotes {site : Site} {chunks : List Chunk} {r : Registry} :
    ∀ n ∈ importNotes site chunks r, n.isCollision = false := by
  induction chunks generalizing r with
  | nil => exact List.forall_mem_nil _
  | cons chunk chunks ih =>
    rw [importNotes]
    split
    · exact List.forall_mem_nil _
    · refine List.forall_mem_append.mpr ⟨?_, ih⟩
      split
      · exact List.forall_mem_singleton.mpr rfl
      · exact List.forall_mem_nil _

namespace Compile
variable {α β : Type} {x : Compile α}

/-- The computation only adds to the notes, and nothing about names that collide. -/
def Quiet (x : Compile α) : Prop :=
  ∀ j, ∃ added, (x.run.run j).2.notes = j.notes ++ added ∧ ∀ n ∈ added, n.isCollision = false

namespace Quiet

theorem pure (a : α) : Quiet (pure a) :=
  fun _ => ⟨[], (List.append_nil _).symm, List.forall_mem_nil _⟩

theorem throw (e : Error) : Quiet (throw e : Compile α) :=
  fun _ => ⟨[], (List.append_nil _).symm, List.forall_mem_nil _⟩

theorem bind {f : α → Compile β} (hx : Quiet x) (hf : ∀ a, Quiet (f a)) : Quiet (x >>= f) := by
  intro j
  obtain ⟨first, hfirst, hquiet⟩ := hx j
  rw [run_bind]
  rcases hrun : x.run.run j with ⟨_ | a, k⟩
  · rw [hrun] at hfirst
    exact ⟨first, hfirst, hquiet⟩
  · rw [hrun] at hfirst
    obtain ⟨second, hsecond, hquiet'⟩ := hf a k
    refine ⟨first ++ second, ?_, List.forall_mem_append.mpr ⟨hquiet, hquiet'⟩⟩
    dsimp only at hfirst ⊢
    rw [hsecond, hfirst, List.append_assoc]

theorem notes {ns : List Note} (h : ∀ n ∈ ns, n.isCollision = false) : Quiet (notes ns) :=
  fun _ => ⟨ns, rfl, h⟩

theorem note {n : Note} (h : n.isCollision = false) : Quiet (note n) :=
  fun _ => ⟨[n], rfl, List.forall_mem_singleton.mpr h⟩

theorem lift (result : Except Error α) : Quiet (lift result) := by
  cases result with
  | ok a => exact .pure a
  | error e => exact .throw e

theorem locate (library : Library) (s : String) (origin : Resource) : Quiet (locate library s origin) := by
  intro j
  cases hj : library.locate j.calls s origin with
  | error cause =>
    rw [run_locate_of_error hj]
    exact ⟨[], (List.append_nil _).symm, List.forall_mem_nil _⟩
  | ok resource =>
    rw [run_locate_of_ok hj]
    exact ⟨_, rfl, List.forall_mem_singleton.mpr rfl⟩

theorem fetch (library : Library) (resource : Resource) : Quiet (fetch library resource) := by
  intro j
  rw [run_fetch]
  exact ⟨_, rfl, List.forall_mem_singleton.mpr rfl⟩

theorem mapM {f : α → Compile β} {xs : List α} (h : ∀ a, Quiet (f a)) : Quiet (xs.mapM f) := by
  induction xs with
  | nil => exact .pure []
  | cons a xs ih =>
    rw [List.mapM_cons]
    exact (h a).bind fun b => ih.bind fun bs => .pure (b :: bs)

end Quiet

end Compile

namespace Compiler
variable (c : Compiler)

private theorem quiet_importModule {inner : Option (Document → String → Compile ModuleTree)}
    (hinner : ∀ compile ∈ inner, ∀ document level, (compile document level).Quiet)
    (origin : Resource) (level : String) (entry : RegistryEntry) :
    (c.importModule inner origin level entry).Quiet := by
  refine (Compile.Quiet.locate _ _ _).bind fun resource => (Compile.Quiet.fetch _ _).bind fun text => ?_
  cases inner with
  | none => exact .throw _
  | some compile => exact (hinner compile rfl _ _).bind fun tree => .pure _

private theorem quiet_compileWith {inner : Option (Document → String → Compile ModuleTree)}
    (hinner : ∀ compile ∈ inner, ∀ document level, (compile document level).Quiet)
    (document : Document) (level : String) : (c.compileWith inner document level).Quiet := by
  refine (Compile.Quiet.note rfl).bind fun _ => (Compile.Quiet.lift _).bind fun content => ?_
  refine (Compile.Quiet.note rfl).bind fun _ => ?_
  refine (Compile.Quiet.notes isCollision_of_importNotes).bind fun _ => ?_
  refine (Compile.Quiet.lift _).bind fun ⟨body, registry⟩ => ?_
  refine (Compile.Quiet.mapM (c.quiet_importModule hinner _ _)).bind fun imports => ?_
  exact (Compile.Quiet.note rfl).bind fun _ => .pure _

/-- Only the end of a compile notes collisions. -/
theorem quiet_compileTree (depth : Nat) (document : Document) (level : String) :
    (c.compileTree depth document level).Quiet := by
  induction depth generalizing document level with
  | zero => exact c.quiet_compileWith (by simp) document level
  | succ depth ih =>
    refine c.quiet_compileWith ?_ document level
    rintro compile ⟨⟩
    exact ih

variable {c} {depth : Nat} {document : Document} {j k : Journal}

private theorem notes_compile_of_returns {tree : ModuleTree} (h : (c.compileTree depth document "").Returns j tree k) :
    ((c.compile depth document).run.run j).2.notes =
      k.notes ++ tree.module.collisions document.resource := by
  have hmodule : (c.compileModule depth document "").run.run j = (.ok tree.module, k) := by
    rw [run_compileModule, show (c.compileTree depth document "").run.run j = (.ok tree, k) from h]
    rfl
  rw [compile, run_bind_ok hmodule]
  rfl

private theorem notes_compile_of_error {e : Error} (h : (c.compileTree depth document "").run.run j = (.error e, k)) :
    ((c.compile depth document).run.run j).2.notes = k.notes := by
  have hmodule : (c.compileModule depth document "").run.run j = (.error e, k) := by
    rw [run_compileModule, h]
    rfl
  rw [compile, run_bind_error hmodule]

/-- The report of a module names each function that it defines more than once, and no other. It names it
once, and in the order in which the functions are defined for the second time. A compile notes one
collision for each function that is defined more than once in its tree, and no other; one that fails notes
none. -/
theorem duplicates_reported (m : GeneratedModule) (c : Compiler) (depth : Nat) (document : Document)
    (j : Journal) :
    (m.duplicates.Nodup ∧ (∀ name, name ∈ m.duplicates ↔ 2 ≤ m.definitions.count name) ∧
      m.duplicates.Pairwise fun a b => ∃ i j, i < j ∧
        GeneratedModule.SecondAt m.definitions a i ∧ GeneratedModule.SecondAt m.definitions b j) ∧
    ∃ added, ((c.compile depth document).run.run j).2.notes = j.notes ++ added ∧
      ∀ name resource, added.count (.collision name resource) ≤ 1 ∧
        (.collision name resource ∈ added ↔ resource = document.resource ∧
          ∃ tree k, (c.compileTree depth document "").Returns j tree k ∧
            2 ≤ (tree.modules.map GeneratedModule.defineName).count name) := by
  refine ⟨⟨m.nodup_duplicates, fun _ => GeneratedModule.mem_duplicates_iff, m.duplicates_ordered⟩, ?_⟩
  obtain ⟨before, hbefore, hquiet⟩ := c.quiet_compileTree depth document "" j
  have hnone (name : String) (resource : Resource) : .collision name resource ∉ before :=
    fun hmem => absurd (hquiet _ hmem) (by simp [Note.isCollision])
  rcases hrun : (c.compileTree depth document "").run.run j with ⟨e | tree, k⟩
  · rw [hrun] at hbefore
    refine ⟨before, (notes_compile_of_error hrun).trans hbefore, fun name resource => ?_⟩
    refine ⟨by rw [List.count_eq_zero.mpr (hnone name resource)]; omega, ?_⟩
    refine ⟨fun hmem => absurd hmem (hnone name resource), ?_⟩
    rintro ⟨-, tree, k', hreturns, -⟩
    cases hrun.symm.trans hreturns
  · rw [hrun] at hbefore
    have hreturns : (c.compileTree depth document "").Returns j tree k := hrun
    have hnotes := notes_compile_of_returns hreturns
    rw [hbefore, List.append_assoc] at hnotes
    refine ⟨_, hnotes, fun name resource => ⟨?_, ?_⟩⟩
    · rw [List.count_append, List.count_eq_zero.mpr (hnone name resource), Nat.zero_add]
      exact List.nodup_iff_count_le_one.mp GeneratedModule.nodup_collisions _
    · rw [List.mem_append, or_iff_right (hnone name resource), GeneratedModule.mem_collisions_iff,
        (compiles_of_returns hreturns).definitions_eq]
      refine and_congr_right fun _ => ⟨fun hcount => ⟨tree, k, hreturns, hcount⟩, ?_⟩
      rintro ⟨tree', k', hreturns', hcount⟩
      cases hreturns.unique hreturns'
      exact hcount

end Compiler

end Notebook
