import Notebook.Proofs.RepositoryPaths

/-! Paths that are followed one after the other. A document lies in the directory that the path to it
leads to without its last name, so what is imported from there is what the two paths, written as one,
lead to from the first document. -/
namespace Notebook

namespace Resource

/-- A path to a directory: nothing, or a path that ends with a slash. -/
def IsDirectoryPath (path : String) : Prop :=
  path = "" ∨ path.toList.getLast? = some '/'

def follow (directory : List (List Char)) (path : String) : List (List Char) :=
  (segments path).foldl step directory

section Follow
variable {d s b : String} {directory : List (List Char)}

private theorem segments_append (h : IsDirectoryPath d) (b : String) : segments (d ++ b) = segments d ++ segments b := by
  rcases h with rfl | h
  · rw [String.empty_append]
    rfl
  · obtain ⟨start, hstart⟩ := List.getLast?_eq_some_iff.mp h
    have hd : Text.split (· == '/') d.toList = Text.split (· == '/') start ++ [[]] := by
      rw [hstart]
      exact Text.split_append_separator rfl start []
    have hall : Text.split (· == '/') (d ++ b).toList =
        Text.split (· == '/') start ++ Text.split (· == '/') b.toList := by
      rw [String.toList_append, hstart, List.append_assoc]
      exact Text.split_append_separator rfl start b.toList
    -- the slash at the end leaves an empty segment, which does not count
    rw [segments, segments, segments, hall, hd, List.filter_append, List.filter_append]
    simp

theorem follow_append (h : IsDirectoryPath d) (directory : List (List Char)) (b : String) :
    follow directory (d ++ b) = follow (follow directory d) b := by
  rw [follow, segments_append h, List.foldl_append]
  rfl

private theorem segments_name (h : IsName s.toList) : segments s = [s.toList] := by
  obtain ⟨hne, -, -, hslash⟩ := h
  have hsplit : Text.split (· == '/') s.toList = [s.toList] := by
    apply Text.split_of_forall
    intro c hc
    exact beq_false_of_ne fun he => hslash (he ▸ hc)
  rw [segments, hsplit, List.filter_eq_self, List.forall_mem_singleton]
  simpa using hne

theorem follow_name (h : IsName s.toList) (directory : List (List Char)) :
    follow directory s = directory ++ [s.toList] := by
  rw [follow, segments_name h, List.foldl_cons, List.foldl_nil, step, if_neg h.2.1, if_neg h.2.2.1]

private theorem mem_step {segment n : List Char} (h : n ∈ step directory segment) : n ∈ directory ∨ n = segment := by
  unfold step at h
  split at h
  · exact .inl h
  · split at h
    · exact .inl (List.mem_of_mem_dropLast h)
    · exact (List.mem_append.mp h).imp id List.mem_singleton.mp

/-- Going up forgets segments, and nothing else is made of them. -/
theorem mem_foldl_step {followed : List (List Char)} {n : List Char} (h : n ∈ followed.foldl step directory) :
    n ∈ directory ∨ n ∈ followed := by
  induction followed generalizing directory with
  | nil => exact .inl h
  | cons segment followed ih =>
    rcases ih h with h | h
    · rcases mem_step h with h | rfl
      · exact .inl h
      · exact .inr List.mem_cons_self
    · exact .inr (List.mem_cons_of_mem segment h)

private theorem mem_segments_of_mem_directory {r : Resource} {path : String} {n : List Char} (h : n ∈ r.directory path) :
    n ∈ segments r.path := by
  unfold directory at h
  split at h
  · cases h
  · exact List.mem_of_mem_dropLast h

end Follow

section Join
variable (r : Resource) {d s b : String}

private theorem path_join (path : String) :
    (r.join path).path = Text.joined "/" ((follow (r.directory path) path).map String.ofList) := rfl

/-- Only the start of a path tells whether it is followed from the root. -/
theorem directory_append (d : String) (h : b.toList.head? ≠ some '/') : r.directory (d ++ b) = r.directory d := by
  unfold directory
  rw [String.toList_append, List.head?_append]
  cases d.toList.head? with
  | none => simp [h]
  | some c => rfl

private theorem segments_join (path : String) : segments (r.join path).path = follow (r.directory path) path := by
  rw [path_join]
  apply segments_joined
  intro n hn
  rcases mem_foldl_step hn with hn | hn
  · exact mem_segments (mem_segments_of_mem_directory hn)
  · exact mem_segments hn

/-- The directory of a joined resource is where the path leads without its last name. -/
theorem directory_join (hd : IsDirectoryPath d) (hs : IsName s.toList) (hb : b.toList.head? ≠ some '/') :
    (r.join (d ++ s)).directory b = follow (r.directory d) d := by
  have hslash : s.toList.head? ≠ some '/' := fun h => hs.2.2.2 (List.mem_of_head? h)
  rw [directory, if_neg hb, segments_join, directory_append r d hslash, follow_append hd, follow_name hs,
    List.dropLast_concat]

end Join

/-- Following a path from a resource that was reached by a path is following both as one path: the second
takes the place of the last name of the first. This holds whatever dots and slashes the paths hold and
however far they go up, and no path leaves the repository or the revision. So a document that is imported
by an imported document is the one that the first document imports by the path written as one. -/
theorem join_join (r : Resource) (d s b : String) (hd : IsDirectoryPath d) (hs : IsName s.toList)
    (hb : b.toList.head? ≠ some '/') :
    (r.join (d ++ s)).join b = r.join (d ++ b) ∧
    (∀ path, (r.join path).owner = r.owner ∧ (r.join path).repo = r.repo ∧
      (r.join path).revision = r.revision) ∧
    ∀ first second whole, Library.unquoted first = d ++ s → Library.unquoted second = b →
      Library.unquoted whole = d ++ b → b ≠ "" →
      ∃ middle target, Library.relative first r = .ok middle ∧ Library.relative second middle = .ok target ∧
        Library.relative whole r = .ok target := by
  have hjoin : (r.join (d ++ s)).join b = r.join (d ++ b) := by
    have hpath : ((r.join (d ++ s)).join b).path = (r.join (d ++ b)).path := by
      rw [path_join, path_join, directory_join r hd hs hb, directory_append r d hb, follow_append hd]
    exact congrArg (fun path => { r with path }) hpath
  refine ⟨hjoin, fun _ => ⟨rfl, rfl, rfl⟩, ?_⟩
  intro first second whole hfirst hsecond hwhole hne
  have hname : s ≠ "" := fun h => hs.1 (by rw [h]; rfl)
  refine ⟨r.join (d ++ s), r.join (d ++ b), ?_, ?_, ?_⟩
  · rw [Library.relative, hfirst, if_neg (by simp [hname])]
  · rw [Library.relative, hsecond, if_neg (by simp [hne]), hjoin]
  · rw [Library.relative, hwhole, if_neg (by simp [hne])]

/-- A path that goes above the root twice, from a document whose own path has a dot in it. -/
theorem join_join_above_root :
    let r : Resource := ⟨"o", "r", "notes//./simple.md", some "v1"⟩
    IsDirectoryPath "../../../lib//" ∧ IsName "plots.md".toList ∧ "../../x/./y.md".toList.head? ≠ some '/' ∧
    (r.join "../../../lib//plots.md").join "../../x/./y.md" = r.join "../../../lib//../../x/./y.md" ∧
    (r.join "../../../lib//../../x/./y.md").path = "x/y.md" ∧
    ∃ middle target, Library.relative " '../../../lib//plots.md'" r = .ok middle ∧
      Library.relative "../../x/./y.md" middle = .ok target ∧
      Library.relative "\"../../../lib//../../x/./y.md\"" r = .ok target := by
  intro r
  have hd : IsDirectoryPath "../../../lib//" := .inr (by decide)
  have hs : IsName "plots.md".toList := by decide
  have hb : "../../x/./y.md".toList.head? ≠ some '/' := by decide
  obtain ⟨hjoin, -, hlocate⟩ := join_join r "../../../lib//" "plots.md" "../../x/./y.md" hd hs hb
  refine ⟨hd, hs, hb, hjoin, by decide +kernel, ?_⟩
  exact hlocate _ _ _ (by decide +kernel) (by decide +kernel) (by decide +kernel) (by decide)

end Resource

end Notebook
