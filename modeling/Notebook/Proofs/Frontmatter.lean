import Notebook.Proofs.CompileTree
import Notebook.Proofs.Text

/-! The frontmatter of a notebook. It is cut off at its closing line, to the character. What it says has no
part in the source that is made of the rest, but it is the only thing that can keep a notebook from being
read. -/
namespace Notebook

namespace Frontmatter

def dashes : List Char := ['-', '-', '-']

/-- Whole lines, none of which would close a frontmatter. -/
structure IsBody (body : List Char) : Prop where
  ended : body = [] ∨ body.getLast? = some '\n'
  unclosed : dashes ∉ Text.split (· == '\n') body

def Closes (text rest : List Char) : Prop :=
  text = dashes ++ '\n' :: rest ∨ text = dashes ∧ rest = []

/-- The text begins with a frontmatter, and `rest` follows its closing line. -/
def Encloses (text body rest : List Char) : Prop :=
  IsBody body ∧ ∃ after, text = dashes ++ '\n' :: body ++ after ∧ Closes after rest

section Closing
variable {line cs body rest : List Char}

private theorem closing?_false_cons (c : Char) (cs : List Char) : closing? false (c :: cs) =
    (closing? (c == '\n') cs).map fun (body, rest) => (c :: body, rest) := rfl

/-- In the middle of a line, the search goes on to the next line. -/
theorem closing?_false_line (h : '\n' ∉ line) (cs : List Char) : closing? false (line ++ '\n' :: cs) =
    (closing? true cs).map fun (body, rest) => (line ++ '\n' :: body, rest) := by
  induction line with
  | nil => rfl
  | cons c line ih =>
    have hc : (c == '\n') = false := beq_false_of_ne fun he => h (he ▸ List.mem_cons_self)
    rw [List.cons_append, closing?_false_cons, hc, ih fun hm => h (List.mem_cons_of_mem c hm), Option.map_map]
    rfl

private theorem closing?_false_last (h : '\n' ∉ line) : closing? false line = none := by
  induction line with
  | nil => rfl
  | cons c line ih =>
    have hc : (c == '\n') = false := beq_false_of_ne fun he => h (he ▸ List.mem_cons_self)
    rw [closing?_false_cons, hc, ih fun hm => h (List.mem_cons_of_mem c hm)]
    rfl

private theorem closing?_cons {c : Char} (hlast : c :: cs ≠ dashes)
    (hnext : ∀ rest, c :: cs ≠ dashes ++ '\n' :: rest) : closing? true (c :: cs) =
      (closing? (c == '\n') cs).map fun (body, rest) => (c :: body, rest) := by
  rw [closing?]
  · simpa [dashes] using hlast
  · simpa [dashes] using hnext

/-- A line is passed over unless it is the closing one. -/
theorem closing?_line (h : '\n' ∉ line) (cs : List Char) : closing? true (line ++ '\n' :: cs) =
    if line = dashes then some ([], cs)
    else (closing? true cs).map fun (body, rest) => (line ++ '\n' :: body, rest) := by
  split
  · rename_i he
    subst he
    rfl
  · rename_i hne
    cases line with
    | nil => rfl
    | cons c line =>
      have hc : (c == '\n') = false := beq_false_of_ne fun he => h (he ▸ List.mem_cons_self)
      rw [List.cons_append, closing?_cons, hc, closing?_false_line fun hm => h (List.mem_cons_of_mem c hm),
        Option.map_map]
      · rfl
      · intro he
        have hm : '\n' ∈ dashes := he ▸ by simp
        exact absurd hm (by decide)
      · intro rest he
        exact hne (Text.append_cons_inj h (by decide) he).1

private theorem closing?_last (h : '\n' ∉ line) :
    closing? true line = if line = dashes then some ([], []) else none := by
  split
  · rename_i he
    subst he
    rfl
  · rename_i hne
    cases line with
    | nil => rfl
    | cons c line =>
      have hc : (c == '\n') = false := beq_false_of_ne fun he => h (he ▸ List.mem_cons_self)
      rw [closing?_cons hne, hc, closing?_false_last fun hm => h (List.mem_cons_of_mem c hm)]
      · rfl
      · intro rest he
        exact h (he ▸ by simp)

private theorem isBody_nil : IsBody [] :=
  ⟨.inl rfl, by decide⟩

private theorem isBody_line (h : '\n' ∉ line) :
    IsBody (line ++ '\n' :: body) ↔ line ≠ dashes ∧ IsBody body := by
  have hended : (line ++ '\n' :: body = [] ∨ (line ++ '\n' :: body).getLast? = some '\n') ↔
      (body = [] ∨ body.getLast? = some '\n') := by
    rw [List.getLast?_append_cons, List.getLast?_cons]
    cases hb : body.getLast? with
    | none => simp [List.getLast?_eq_none_iff.mp hb]
    | some c =>
      have hne : body ≠ [] := by
        rintro rfl
        cases hb
      simp [hne]
  have hopen : dashes ∉ Text.split (· == '\n') (line ++ '\n' :: body) ↔
      line ≠ dashes ∧ dashes ∉ Text.split (· == '\n') body := by
    rw [Text.split_line h, List.mem_cons, not_or, ne_comm]
  constructor
  · rintro ⟨he, ho⟩
    exact ⟨(hopen.mp ho).1, hended.mp he, (hopen.mp ho).2⟩
  · rintro ⟨hne, he, ho⟩
    exact ⟨hended.mpr he, hopen.mpr ⟨hne, ho⟩⟩

private theorem IsBody.eq_nil (hbody : IsBody body) (h : '\n' ∉ body) : body = [] :=
  hbody.ended.elim id fun hlast => absurd (List.mem_of_getLast? hlast) h

/-- The search finds the first closing line. -/
theorem closing?_eq_some_iff : closing? true cs = some (body, rest) ↔
    IsBody body ∧ ∃ after, cs = body ++ after ∧ Closes after rest := by
  induction cs using Text.lineInduction generalizing body with
  | last line h =>
    rw [closing?_last h]
    constructor
    · intro he
      split at he
      · rename_i hline
        cases he
        exact ⟨isBody_nil, line, rfl, .inr ⟨hline, rfl⟩⟩
      · cases he
    · rintro ⟨hbody, after, rfl, rfl | ⟨rfl, rfl⟩⟩
      · exact absurd (by simp) h
      · cases hbody.eq_nil fun hm => h (List.mem_append_left _ hm)
        rfl
  | next line cs h ih =>
    rw [closing?_line h]
    constructor
    · intro he
      split at he
      · rename_i hline
        cases he
        refine ⟨isBody_nil, _, (List.nil_append _).symm, .inl ?_⟩
        rw [hline]
      · rename_i hne
        obtain ⟨⟨inner, _⟩, hinner, he⟩ := Option.map_eq_some_iff.mp he
        cases he
        obtain ⟨hbody, after, rfl, hafter⟩ := ih.mp hinner
        refine ⟨(isBody_line h).mpr ⟨hne, hbody⟩, after, ?_, hafter⟩
        rw [List.append_assoc, List.cons_append]
    · rintro ⟨hbody, after, hcs, hafter⟩
      by_cases hb : '\n' ∈ body
      · -- the first line of the body is the first line of the text
        obtain ⟨line', inner, rfl, h'⟩ := List.eq_append_cons_of_mem hb
        obtain ⟨hne, hinner⟩ := (isBody_line h').mp hbody
        rw [List.append_assoc, List.cons_append] at hcs
        obtain ⟨rfl, rfl⟩ := Text.append_cons_inj h h' hcs
        rw [if_neg hne, ih.mpr ⟨hinner, after, rfl, hafter⟩]
        rfl
      · cases hbody.eq_nil hb
        rw [List.nil_append] at hcs
        rcases hafter with rfl | ⟨rfl, rfl⟩
        · obtain ⟨rfl, rfl⟩ := Text.append_cons_inj h (by decide) hcs
          rfl
        · have hm : '\n' ∈ dashes := by
            rw [← hcs]
            simp
          exact absurd hm (by decide)

private theorem bind_closing?_eq_some_iff :
    (Text.after? ['-', '-', '-', '\n'] cs).bind (closing? true) = some (body, rest) ↔
      Encloses cs body rest := by
  rw [Option.bind_eq_some_iff]
  simp only [Text.after?_eq_some_iff, closing?_eq_some_iff]
  constructor
  · rintro ⟨_, rfl, hbody, after, rfl, hafter⟩
    exact ⟨hbody, after, (List.append_assoc _ _ _).symm, hafter⟩
  · rintro ⟨hbody, after, rfl, hafter⟩
    exact ⟨body ++ after, List.append_assoc _ _ _, hbody, after, rfl, hafter⟩

private theorem split_of_encloses (h : Encloses cs body rest) : split cs = (some body, rest) := by
  rw [split, bind_closing?_eq_some_iff.mpr h]

private theorem split_of_not_encloses (h : ∀ body rest, ¬ Encloses cs body rest) : split cs = (none, cs) := by
  unfold split
  split
  · rename_i hs
    exact absurd (bind_closing?_eq_some_iff.mp hs) (h _ _)
  · rfl

private theorem split_eq_some_iff : split cs = (some body, rest) ↔ Encloses cs body rest := by
  refine ⟨fun h => ?_, split_of_encloses⟩
  unfold split at h
  split at h
  · rename_i hs
    cases h
    exact bind_closing?_eq_some_iff.mp hs
  · cases h

/-- A text has one frontmatter at most: the first closing line ends it. -/
theorem encloses_unique {body' rest' : List Char} (h : Encloses cs body rest) (h' : Encloses cs body' rest') :
    body = body' ∧ rest = rest' := by
  have heq : (some body, rest) = (some body', rest') := (split_of_encloses h).symm.trans (split_of_encloses h')
  cases heq
  exact ⟨rfl, rfl⟩

end Closing

/-- There is something in the body, and it is read as neither nothing nor a mapping. -/
structure IsRefused (body : List Char) : Prop where
  nonblank : ∃ c ∈ body, Text.isBlank c = false
  unread : ∀ value, Yaml.read body = .ok value → value ≠ .null ∧ ∀ entries, value ≠ .mapping entries

section Read
variable {body : List Char}

private theorem read_of_blank (h : ∀ c ∈ body, Text.isBlank c) : read (some body) = .ok [] := by
  rw [read, Option.filter_some, Text.trim_eq_nil_iff.mpr h]
  rfl

private theorem filter_of_nonblank (h : ∃ c ∈ body, Text.isBlank c = false) :
    ((some body).filter fun cs => !(Text.trim cs).isEmpty) = some body := by
  have hne : Text.trim body ≠ [] := by
    intro hblank
    obtain ⟨c, hc, hfalse⟩ := h
    rw [Text.trim_eq_nil_iff.mp hblank c hc] at hfalse
    cases hfalse
  rw [Option.filter_some, if_pos (by simpa using hne)]

/-- A frontmatter cannot be read just if its body is refused. -/
theorem read_eq_error_iff : (∃ error, read (some body) = .error error) ↔ IsRefused body := by
  by_cases hblank : ∃ c ∈ body, Text.isBlank c = false
  · rw [read, filter_of_nonblank hblank]
    dsimp only
    constructor
    · rintro ⟨error, he⟩
      refine ⟨hblank, fun value hvalue => ?_⟩
      rw [hvalue] at he
      constructor
      · rintro rfl
        cases he
      · rintro entries rfl
        cases he
    · rintro ⟨-, hunread⟩
      split
      · exact ⟨_, rfl⟩
      · rename_i hvalue
        exact absurd rfl (hunread _ hvalue).1
      · rename_i entries hvalue
        exact absurd rfl ((hunread _ hvalue).2 entries)
      · exact ⟨_, rfl⟩
  · have hall : ∀ c ∈ body, Text.isBlank c := by simpa using hblank
    rw [read_of_blank hall]
    constructor
    · rintro ⟨error, he⟩
      cases he
    · intro h
      exact absurd h.nonblank hblank

end Read

/-- A text that can stand between the opening and the closing line, and is read as a mapping. -/
structure IsAccepted (text : String) : Prop where
  no_returns : '\r' ∉ text.toList
  isBody : IsBody text.toList
  read : ∃ mapping, Frontmatter.read (some text.toList) = .ok mapping

end Frontmatter

def Document.headed (frontmatter rest : String) (resource : Resource) : Document :=
  ⟨"---\n" ++ frontmatter ++ "---\n" ++ rest, resource⟩

namespace Content
variable {frontmatter rest : String}

/-- A frontmatter takes nothing away from the text after it. -/
theorem ofText_headed (h : Frontmatter.IsAccepted frontmatter) (rest : String) (resource : Resource) :
    ∃ mapping, ofText (Document.headed frontmatter rest resource).text =
      .ok ⟨mapping, Chunk.discover (normal rest.toList)⟩ := by
  obtain ⟨mapping, hread⟩ := h.read
  refine ⟨mapping, ?_⟩
  have hnormal : normal (Document.headed frontmatter rest resource).text.toList =
      Frontmatter.dashes ++ '\n' :: frontmatter.toList ++
        (Frontmatter.dashes ++ '\n' :: normal rest.toList) := by
    have hsame : normal frontmatter.toList = frontmatter.toList :=
      List.filter_eq_self.mpr fun c hc => bne_iff_ne.mpr fun he => h.no_returns (he ▸ hc)
    simp only [normal] at hsame
    simp [Document.headed, normal, hsame, Frontmatter.dashes]
  have hsplit := Frontmatter.split_of_encloses ⟨h.isBody, _, hnormal, .inl rfl⟩
  rw [ofText, hsplit]
  simp [hread, bind, Except.bind, pure, Except.pure]

private theorem ofText_of_not_encloses
    (h : ∀ body after, ¬ Frontmatter.Encloses (normal rest.toList) body after) :
    ofText rest = .ok ⟨[], Chunk.discover (normal rest.toList)⟩ := by
  rw [ofText, Frontmatter.split_of_not_encloses h]
  rfl

/-- Only a frontmatter can keep a text from being read. -/
theorem ofText_eq_error_iff {text : String} : (∃ error, ofText text = .error error) ↔
    ∃ body rest, Frontmatter.Encloses (normal text.toList) body rest ∧ Frontmatter.IsRefused body := by
  by_cases hnone : ∃ body rest, Frontmatter.Encloses (normal text.toList) body rest
  · obtain ⟨body, rest, henc⟩ := hnone
    have hread : (∃ error, ofText text = .error error) ↔ ∃ error, Frontmatter.read (some body) = .error error := by
      rw [ofText, Frontmatter.split_of_encloses henc]
      dsimp only [bind, Except.bind, pure, Except.pure]
      cases Frontmatter.read (some body) <;> simp
    rw [hread, Frontmatter.read_eq_error_iff]
    constructor
    · exact fun h => ⟨body, rest, henc, h⟩
    · rintro ⟨body', rest', henc', h⟩
      rwa [(Frontmatter.encloses_unique henc henc').1]
  · rw [ofText_of_not_encloses fun body rest h => hnone ⟨body, rest, h⟩]
    constructor
    · rintro ⟨error, he⟩
      cases he
    · rintro ⟨body, rest, henc, -⟩
      exact absurd ⟨body, rest, henc⟩ hnone

end Content

/-- A text is split just where its frontmatter ends, if it has one: the opening line, whole lines none of
which is a closing one, and the first closing line, which may be the end of the text. There is no more than
one such frontmatter, and without one nothing is cut off. So the text of a notebook is refused just if,
without its carriage returns, it has a frontmatter that is refused. -/
theorem Frontmatter.split_enclosed (text : String) :
    (∀ body rest, split text.toList = (some body, rest) ↔ Encloses text.toList body rest) ∧
    (∀ body rest body' rest', Encloses text.toList body rest → Encloses text.toList body' rest' →
      body = body' ∧ rest = rest') ∧
    ((∀ body rest, ¬ Encloses text.toList body rest) → split text.toList = (none, text.toList)) ∧
    ((∃ error, Content.ofText text = .error error) ↔
      ∃ body rest, Encloses (Content.normal text.toList) body rest ∧ IsRefused body) :=
  ⟨fun _ _ => split_eq_some_iff, fun _ _ _ _ => encloses_unique, split_of_not_encloses,
    Content.ofText_eq_error_iff⟩

/-- A closing line at the end of the text, after lines that only begin like one. -/
theorem Frontmatter.split_enclosed_at_end :
    let text := "---\n----\r\n--- x\n---"
    split text.toList = (some "----\r\n--- x\n".toList, []) ∧
    (∀ body rest, Encloses text.toList body rest → body = "----\r\n--- x\n".toList ∧ rest = []) ∧
    ∃ error, Content.ofText text = .error error := by
  intro text
  have henc : Encloses text.toList "----\r\n--- x\n".toList [] :=
    ⟨⟨.inr (by decide), by decide⟩, dashes, by decide, .inr ⟨rfl, rfl⟩⟩
  have hnormal : Encloses (Content.normal text.toList) "----\n--- x\n".toList [] :=
    ⟨⟨.inr (by decide), by decide⟩, dashes, by decide, .inr ⟨rfl, rfl⟩⟩
  obtain ⟨hsplit, hunique, -, herror⟩ := split_enclosed text
  refine ⟨(hsplit _ _).mpr henc, fun body rest h => hunique _ _ _ _ h henc, ?_⟩
  refine herror.mpr ⟨_, _, hnormal, ⟨'-', by decide, by decide⟩, fun value hvalue => ?_⟩
  have hread : Yaml.read "----\n--- x\n".toList = .error .severalDocuments := by cbv
  cases hread.symm.trans hvalue

def ModuleTree.withFrontmatter (frontmatter : Yaml.Mapping) : ModuleTree → ModuleTree
  | node module imports => node { module with frontmatter := frontmatter } imports

private theorem ModuleTree.duplicates_withFrontmatter (tree : ModuleTree) (frontmatter : Yaml.Mapping) :
    (tree.withFrontmatter frontmatter).module.duplicates = tree.module.duplicates := by
  cases tree
  rfl

private theorem ModuleTree.source_withFrontmatter (tree : ModuleTree) (frontmatter : Yaml.Mapping) :
    (tree.withFrontmatter frontmatter).module.source = tree.module.source := by
  cases tree
  rfl

namespace Compiler
variable {c : Compiler} {text text' : String} {frontmatter frontmatter' : Yaml.Mapping}
  {chunks : List Chunk}

section SameChunks
variable (h : Content.ofText text = .ok ⟨frontmatter, chunks⟩)
  (h' : Content.ofText text' = .ok ⟨frontmatter', chunks⟩)
include h h'

/-- The frontmatter is handed on to the module, and nothing else depends on it. -/
theorem compileWith_of_chunks (inner : Option (Document → String → Compile ModuleTree))
    (resource : Resource) (level : String) :
    c.compileWith inner ⟨text, resource⟩ level =
      ModuleTree.withFrontmatter frontmatter <$> c.compileWith inner ⟨text', resource⟩ level := by
  unfold compileWith
  dsimp only
  rw [h, h']
  simp only [Compile.lift, pure_bind, map_bind, map_pure]
  rfl

private theorem compileTree_of_chunks (depth : Nat) (resource : Resource) (level : String) :
    c.compileTree depth ⟨text, resource⟩ level =
      ModuleTree.withFrontmatter frontmatter <$> c.compileTree depth ⟨text', resource⟩ level := by
  cases depth with
  | zero => exact compileWith_of_chunks h h' none resource level
  | succ depth => exact compileWith_of_chunks h h' (some (c.compileTree depth)) resource level

private theorem compile_of_chunks (depth : Nat) (resource : Resource) :
    c.compile depth ⟨text, resource⟩ = c.compile depth ⟨text', resource⟩ := by
  unfold compile compileModule
  rw [compileTree_of_chunks h h']
  simp only [bind_map_left, bind_assoc, pure_bind]
  refine bind_congr fun tree => ?_
  rw [tree.source_withFrontmatter, tree.duplicates_withFrontmatter]

end SameChunks

/-- A frontmatter has no influence: whatever it says, as long as it can be read, compiling the notebook
is the same computation, with the same calls and notes and the same source or error. It is also the same
as compiling the text after the frontmatter, unless that text begins with a frontmatter itself. -/
theorem compile_headed {first second : String} (hfirst : Frontmatter.IsAccepted first)
    (hsecond : Frontmatter.IsAccepted second) (c : Compiler) (depth : Nat) (rest : String)
    (resource : Resource) :
    c.compile depth (.headed first rest resource) = c.compile depth (.headed second rest resource) ∧
    ((∀ body after, ¬ Frontmatter.Encloses (Content.normal rest.toList) body after) →
      c.compile depth (.headed first rest resource) = c.compile depth ⟨rest, resource⟩) := by
  obtain ⟨mapping, hm⟩ := Content.ofText_headed hfirst rest resource
  obtain ⟨mapping', hm'⟩ := Content.ofText_headed hsecond rest resource
  refine ⟨compile_of_chunks hm hm' depth resource, fun hnone => ?_⟩
  exact compile_of_chunks hm (Content.ofText_of_not_encloses hnone) depth resource

/-- A text that opens a frontmatter and never closes it, after a frontmatter with an entry and after an
empty one. -/
theorem compile_headed_unclosed :
    let c : Compiler := ⟨Library.ofTexts [], {}⟩
    let rest := "---\r\n# Totals\n```{js#x}\n1\n```\n"
    Frontmatter.IsAccepted "title: Totals\n" ∧ Frontmatter.IsAccepted "" ∧
    (∀ body after, ¬ Frontmatter.Encloses (Content.normal rest.toList) body after) ∧
    c.compile 0 (.headed "title: Totals\n" rest {}) = c.compile 0 (.headed "" rest {}) ∧
    c.compile 0 (.headed "title: Totals\n" rest {}) = c.compile 0 ⟨rest, {}⟩ ∧
    ∃ source k, (c.compile 0 ⟨rest, {}⟩).Returns {} source k := by
  intro c rest
  have htitle : Frontmatter.IsAccepted "title: Totals\n" := by
    refine ⟨by decide, ⟨.inr (by decide), by decide⟩, [(.string "title", .string "Totals")], ?_⟩
    cbv
  have hempty : Frontmatter.IsAccepted "" := ⟨by decide, Frontmatter.isBody_nil, [], rfl⟩
  have hnone (body after : List Char) :
      ¬ Frontmatter.Encloses (Content.normal rest.toList) body after := by
    intro h
    have hsearch : (Text.after? ['-', '-', '-', '\n'] (Content.normal rest.toList)).bind
        (Frontmatter.closing? true) = none := by decide +kernel
    rw [Frontmatter.bind_closing?_eq_some_iff.mpr h] at hsearch
    cases hsearch
  obtain ⟨hsame, halone⟩ := compile_headed htitle hempty c 0 rest {}
  obtain ⟨source, k, hsource, _⟩ := Compile.exists_returns (x := c.compile 0 ⟨rest, {}⟩) (j := {})
    (f := fun _ => ()) (b := ()) (by decide +kernel)
  exact ⟨htitle, hempty, hnone, hsame, halone hnone, source, k, hsource⟩

end Compiler

end Notebook
