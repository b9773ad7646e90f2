import Notebook.Proofs.Effects
import Notebook.Workspace

/-! What a written file changes: the file at one place, and nothing else. -/
namespace Notebook

private theorem fromUTF8?_toUTF8 (s : String) : String.fromUTF8? s.toUTF8 = some s := by
  rw [String.toUTF8_eq_toByteArray, String.fromUTF8?, dif_pos s.isValidUTF8]
  rfl

namespace FileTree
variable {tree before after : FileTree} {place : Place} {bytes : ByteArray}

/-- The trees differ in one file only, which holds the bytes in the second one. -/
structure Replaced (before after : FileTree) (place : Place) (bytes : ByteArray) : Prop where
  file : after.file? place = some bytes
  others : ∀ p, p ≠ place → after.file? p = before.file? p
  directories : ∀ p, after.isDirectory p = before.isDirectory p

private theorem file?_put_self (tree : FileTree) (place : Place) (bytes : ByteArray) :
    (tree.put place bytes).file? place = some bytes := by
  simp [put, file?]

private theorem file?_put_of_ne {p : Place} (h : p ≠ place) :
    (tree.put place bytes).file? p = tree.file? p := by
  unfold put file?
  rw [List.lookup_cons, beq_false_of_ne h]
  dsimp only
  induction tree.files with
  | nil => rfl
  | cons f files ih =>
    by_cases hf : f.1 = place
    · rw [List.filter_cons_of_neg (by simp [hf]), ih, List.lookup_cons, hf, beq_false_of_ne h]
    · rw [List.filter_cons_of_pos (by simp [hf]), List.lookup_cons, List.lookup_cons, ih]

theorem put_put (tree : FileTree) (place : Place) (old bytes : ByteArray) :
    (tree.put place old).put place bytes = tree.put place bytes := by
  simp [put]

private theorem isDirectory_iff {p : Place} : tree.isDirectory p ↔ p = [] ∨ (∃ d ∈ tree.directories, p <+: d) ∨
    ∃ f ∈ tree.files, p <+: f.1 ∧ p.length < f.1.length := by
  simp [isDirectory, or_assoc]

/-- All that leads to a directory is one. -/
theorem isDirectory_of_prefix {p q : Place} (hpq : p <+: q) (h : tree.isDirectory q) :
    tree.isDirectory p := by
  rw [isDirectory_iff] at h ⊢
  rcases h with rfl | ⟨d, hd, hq⟩ | ⟨f, hf, hq, hlt⟩
  · exact .inl (List.prefix_nil.mp hpq)
  · exact .inr (.inl ⟨d, hd, hpq.trans hq⟩)
  · exact .inr (.inr ⟨f, hf, hpq.trans hq, hpq.length_le.trans_lt hlt⟩)

private theorem isDirectory_put {directory : Place} (h : tree.isDirectory directory) (name : String) (p : Place) :
    (tree.put (directory ++ [name]) bytes).isDirectory p = tree.isDirectory p := by
  rw [Bool.eq_iff_iff]
  constructor
  · intro hp
    rcases isDirectory_iff.mp hp with rfl | hd | ⟨f, hf, hpf, hlt⟩
    · rfl
    · exact isDirectory_iff.mpr (.inr (.inl hd))
    · rcases List.mem_cons.mp hf with rfl | hf
      · have hlength : p.length ≤ directory.length := by simpa [Nat.lt_succ_iff] using hlt
        have habove := List.prefix_of_prefix_length_le hpf (List.prefix_append directory [name]) hlength
        exact isDirectory_of_prefix habove h
      · exact isDirectory_iff.mpr (.inr (.inr ⟨f, List.mem_of_mem_filter hf, hpf, hlt⟩))
  · intro hp
    rcases isDirectory_iff.mp hp with rfl | hd | ⟨f, hf, hpf, hlt⟩
    · rfl
    · exact isDirectory_iff.mpr (.inr (.inl hd))
    · refine isDirectory_iff.mpr (.inr (.inr ?_))
      by_cases he : f.1 = directory ++ [name]
      · exact ⟨_, List.mem_cons_self, he ▸ hpf, he ▸ hlt⟩
      · exact ⟨f, List.mem_cons_of_mem _ (List.mem_filter.mpr ⟨hf, by simpa using he⟩), hpf, hlt⟩

private theorem replaced_put {directory : Place} (h : tree.isDirectory directory) (name : String) :
    tree.Replaced (tree.put (directory ++ [name]) bytes) (directory ++ [name]) bytes :=
  ⟨file?_put_self _ _ _, fun _ => file?_put_of_ne, isDirectory_put h name⟩

private theorem Replaced.isSome_file? (h : before.Replaced after place bytes) {p : Place}
    (hp : (before.file? p).isSome) : (after.file? p).isSome := by
  by_cases he : p = place
  · rw [he, h.file]
    rfl
  · rwa [h.others p he]

theorem follow_append (tree : FileTree) (place : Place) (a b : List String) :
    tree.follow place (a ++ b) = (tree.follow place a).bind (tree.follow · b) := by
  induction a generalizing place with
  | nil => rfl
  | cons part a ih =>
    simp only [List.cons_append, follow]
    split_ifs
    all_goals first | rfl | exact ih _

/-- A path leads through a tree as it did before a file was replaced. -/
theorem Replaced.follow (h : before.Replaced after place bytes) {start p : Place} {parts : List String}
    (hp : before.follow start parts = .ok p) : after.follow start parts = .ok p := by
  induction parts generalizing start with
  | nil => exact hp
  | cons part parts ih =>
    rw [FileTree.follow] at hp ⊢
    rw [h.directories start]
    split_ifs at hp ⊢ with hdir hhere hup hlong
    · exact ih hp
    · exact ih hp
    · dsimp only at hp ⊢
      split at hp
      · rename_i hnext
        rw [if_pos ?_]
        · exact ih hp
        · rw [h.directories]
          rw [Bool.or_eq_true] at hnext ⊢
          exact hnext.imp_left h.isSome_file?
      · cases hp

/-- Where a file can be created or replaced: below a directory, under a name, and not in place of a
directory. -/
theorem slot_eq_ok {start : Place} {above : List String} {name : String} {hasSlash : Bool}
    (h : tree.slot start above name hasSlash = .ok place) : hasSlash = false ∧ name ≠ "." ∧ name ≠ ".." ∧
      ¬ nameLimit < name.utf8ByteSize ∧ ∃ directory, tree.follow start above = .ok directory ∧
      tree.isDirectory directory ∧ place = directory ++ [name] := by
  obtain ⟨directory, hfollow, h⟩ := bind_eq_ok_iff.mp h
  split_ifs at h with hdir hname hlong hplace
  cases h
  simp only [Bool.or_eq_true, decide_eq_true_eq, not_or, Bool.not_eq_true] at hname
  exact ⟨hname.2, hname.1.1, hname.1.2, hlong, directory, hfollow, by simpa using hdir, rfl⟩

/-- A file that has been put below a directory is where its name leads to. -/
theorem Replaced.follow_name {directory : Place} {name : String}
    (h : before.Replaced after (directory ++ [name]) bytes) (hdir : before.isDirectory directory)
    (hempty : name ≠ "") (hdot : name ≠ ".") (hdots : name ≠ "..")
    (hlimit : ¬ nameLimit < name.utf8ByteSize) :
    after.follow directory [name] = .ok (directory ++ [name]) := by
  simp [FileTree.follow, h.directories, hdir, hempty, hdot, hdots, hlimit, h.file]

end FileTree

namespace Workspace
variable {w : Workspace} {path text : String}

/-- A path under which a file is created or replaced ends in a name. -/
theorem target_eq_ok {place : Place} (h : w.target path = .ok place) : allowed path = .ok () ∧
    ∃ above name, FileTree.parts path = above ++ [name] ∧ name ≠ "" ∧
      w.files.slot (w.start path) above name false = .ok place := by
  obtain ⟨_, hallowed, h⟩ := bind_eq_ok_iff.mp h
  refine ⟨hallowed, ?_⟩
  dsimp only at h
  split at h
  · cases h
  · rename_i name above hparts
    have hslash := (FileTree.slot_eq_ok h).1
    have hlength : (FileTree.parts path).length ≤ above.length + 1 := by simpa using hslash
    -- Nothing was dropped from the end, so the last part is the name.
    have hsuffix : name :: above <:+ (FileTree.parts path).reverse :=
      hparts ▸ List.dropWhile_suffix _
    have heq := hsuffix.eq_of_length_le (by simpa using hlength)
    refine ⟨above.reverse, name, by simpa using (congrArg List.reverse heq).symm, ?_, hslash ▸ h⟩
    have hhead := List.head?_dropWhile_not (· == "") (FileTree.parts path).reverse
    rw [hparts] at hhead
    simpa using hhead

private theorem read_of_replaced {files : FileTree} {place : Place} (ha : allowed path = .ok ())
    (hf : files.follow (w.start path) (FileTree.parts path) = .ok place)
    (hr : w.files.Replaced files place text.toUTF8) :
    ({ w with files := files } : Workspace).read path = .ok text := by
  have hempty : path.isEmpty = false := by
    unfold allowed at ha
    split_ifs at ha with _ h
    simpa using h
  have hlocate : ({ w with files := files } : Workspace).locate path = .ok place := by
    rw [locate, ha]
    change resolve _ path = _
    rw [resolve, if_neg (by simp [hempty])]
    exact hf
  rw [read, hlocate]
  change files.textAt place = _
  rw [FileTree.textAt, hr.file]
  dsimp only
  rw [fromUTF8?_toUTF8]

/-- Writing a text replaces one file. The path leads to it afterwards, and the text is read from
there. -/
theorem replaced_of_target {place : Place} (text : String) (htarget : w.target path = .ok place) :
    w.files.Replaced (w.files.put place text.toUTF8) place text.toUTF8 ∧
      ({ w with files := w.files.put place text.toUTF8 } : Workspace).read path = .ok text := by
  obtain ⟨hallowed, above, name, hparts, hempty, hslot⟩ := target_eq_ok htarget
  obtain ⟨-, hdot, hdots, hlimit, directory, hfollow, hdir, rfl⟩ := FileTree.slot_eq_ok hslot
  have hreplaced : w.files.Replaced _ (directory ++ [name]) text.toUTF8 :=
    FileTree.replaced_put hdir name
  refine ⟨hreplaced, read_of_replaced hallowed ?_ hreplaced⟩
  calc
    _ = (FileTree.follow _ (w.start path) above).bind (FileTree.follow _ · [name]) := by
      rw [hparts, FileTree.follow_append]
    _ = FileTree.follow _ directory [name] := by
      rw [hreplaced.follow hfollow]
      rfl
    _ = .ok (directory ++ [name]) := hreplaced.follow_name hdir hempty hdot hdots hlimit

end Workspace
end Notebook
