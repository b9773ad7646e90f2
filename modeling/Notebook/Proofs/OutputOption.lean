import Mathlib
import Notebook.CommandLine.Arguments

/-! What `-o` adds to the arguments of a compile. Wherever it is put among them, it is not understood
or it sets the output, and everything else is read as before. -/
namespace Notebook.CommandLine

namespace Arguments
variable {a b : Arguments} {out : String}

private theorem value?_concat {name value other : String} (h : a.values = b.values ++ [(name, value)]) :
    a.value? other = (b.value? other).or (if other = name then some value else none) := by
  rw [value?, h, List.lookup_append, List.lookup_cons]
  congr 1
  split_ifs with hname
  · simp [hname]
  · simp [beq_false_of_ne hname]

/-- The arguments differ in the output only, which is set in the second ones. -/
structure AddsOutput (out : String) (a b : Arguments) : Prop where
  flags : b.flags = a.flags
  positionals : b.positionals = a.positionals
  pending : b.pending = a.pending
  output : b.value? "output" = some out
  others : ∀ name, name ≠ "output" → b.value? name = a.value? name

/-- If the first reading succeeds, the second one adds the output or is not understood. -/
def Keeps (out : String) (x y : Except Stop Arguments) : Prop :=
  ∀ a, x = .ok a → y = .error .usage ∨ ∃ b, y = .ok b ∧ AddsOutput out a b

theorem Keeps.bind {x y : Except Stop Arguments} {f : Arguments → Except Stop Arguments}
    (hxy : Keeps out x y) (hf : ∀ {a b}, AddsOutput out a b → Keeps out (f a) (f b)) :
    Keeps out (x >>= f) (y >>= f) := by
  intro c hc
  cases x with
  | error stop => cases hc
  | ok a =>
    rcases hxy a rfl with rfl | ⟨b, rfl, hab⟩
    · exact .inl rfl
    · exact hf hab c hc

private theorem Keeps.bind_same {x : Except Stop Arguments} {f g : Arguments → Except Stop Arguments}
    (h : ∀ a, x = .ok a → Keeps out (f a) (g a)) : Keeps out (x >>= f) (x >>= g) := by
  intro c hc
  cases x with
  | error stop => cases hc
  | ok a => exact h a rfl c hc

namespace AddsOutput
variable (h : AddsOutput out a b)
include h

theorem addFlag (name : String) : Keeps out (a.addFlag name) (b.addFlag name) := by
  intro c hc
  unfold Arguments.addFlag hasFlag at hc ⊢
  rw [h.pending, h.flags]
  split_ifs at hc ⊢
  cases hc
  exact .inr ⟨_, rfl, rfl, h.positionals, rfl, h.output, h.others⟩

theorem addValue (name value : String) : Keeps out (a.addValue name value) (b.addValue name value) := by
  intro c hc
  unfold Arguments.addValue at hc ⊢
  by_cases hname : name = "output"
  · exact .inl (if_pos (by rw [hname, h.output]; simp))
  · rw [h.pending, h.others name hname]
    split_ifs at hc ⊢
    cases hc
    refine .inr ⟨_, rfl, h.flags, h.positionals, rfl, ?_, fun other hother => ?_⟩
    · rw [value?_concat (b := b) rfl, h.output]
      rfl
    · refine (value?_concat (b := b) rfl).trans (Eq.trans ?_ (value?_concat (b := a) rfl).symm)
      rw [h.others other hother]

theorem await (name : String) : Keeps out (a.await name) (b.await name) := by
  intro c hc
  unfold Arguments.await at hc ⊢
  by_cases hname : name = "output"
  · exact .inl (if_pos (by rw [hname, h.output]; simp))
  · rw [h.pending, h.others name hname]
    split_ifs at hc ⊢
    cases hc
    exact .inr ⟨_, rfl, h.flags, h.positionals, rfl, h.output, h.others⟩

theorem addPlain (limit : Nat) (text : String) :
    Keeps out (a.addPlain limit text) (b.addPlain limit text) := by
  unfold Arguments.addPlain
  rw [h.pending]
  cases a.pending with
  | some name =>
    have hfilled : AddsOutput out { a with pending := none } { b with pending := none } :=
      ⟨h.flags, h.positionals, rfl, h.output, h.others⟩
    exact hfilled.addValue name text
  | none =>
    intro c hc
    dsimp only at hc ⊢
    rw [h.positionals]
    split_ifs at hc ⊢
    cases hc
    exact .inr ⟨_, rfl, h.flags, rfl, rfl, h.output, h.others⟩

theorem addLong (specs : List OptionSpec) (cs : List Char) :
    Keeps out (a.addLong specs cs) (b.addLong specs cs) := by
  unfold Arguments.addLong
  dsimp only
  split
  · exact fun _ hc => nomatch hc
  · split
    · exact h.await _
    · exact h.addFlag _
  · split
    · exact h.addValue _ _
    · exact fun _ hc => nomatch hc

omit h in
theorem addLetters (specs : List OptionSpec) (cs : List Char) {a b : Arguments}
    (h : AddsOutput out a b) : Keeps out (a.addLetters specs cs) (b.addLetters specs cs) := by
  induction cs generalizing a b with
  | nil =>
    intro c hc
    cases hc
    exact .inr ⟨b, rfl, h⟩
  | cons letter cs ih =>
    unfold Arguments.addLetters
    split
    · exact fun _ hc => nomatch hc
    · split
      · exact (h.addFlag _).bind ih
      · split
        · exact h.await _
        · exact h.addValue _ _
        · exact h.addValue _ _

omit h in
theorem read {specs : List OptionSpec} {limit : Nat} {onlyPlain : Bool} (args : List String)
    {a b : Arguments} (h : AddsOutput out a b) :
    Keeps out (a.read specs limit onlyPlain args) (b.read specs limit onlyPlain args) := by
  induction args generalizing a b onlyPlain with
  | nil =>
    intro c hc
    unfold Arguments.read at hc ⊢
    rw [h.pending]
    split_ifs at hc ⊢
    cases hc
    exact .inr ⟨b, rfl, h⟩
  | cons arg args ih =>
    cases onlyPlain with
    | true =>
      unfold Arguments.read
      exact (h.addPlain limit arg).bind ih
    | false =>
      unfold Arguments.read
      split
      · rw [h.pending]
        split
        · exact fun _ hc => nomatch hc
        · exact ih h
      · exact (h.addLong specs _).bind ih
      · exact (h.addLetters specs _).bind ih
      · exact (h.addPlain limit arg).bind ih

end AddsOutput

section Waiting
variable {name : String} (h : a.pending = some name)
include h

/-- While a value is waited for, no option can come. -/
theorem addFlag_of_pending (flag : String) : a.addFlag flag = .error .usage :=
  if_pos (by rw [h]; rfl)

private theorem addValue_of_pending (option value : String) : a.addValue option value = .error .usage :=
  if_pos (by rw [h]; rfl)

private theorem await_of_pending (option : String) : a.await option = .error .usage :=
  if_pos (by rw [h]; rfl)

private theorem addLong_of_pending (specs : List OptionSpec) (cs : List Char) :
    a.addLong specs cs = .error .usage := by
  unfold addLong
  simp only [await_of_pending h, addFlag_of_pending h, addValue_of_pending h, ite_self]
  split <;> rfl

private theorem addLetters_of_pending (specs : List OptionSpec) (c : Char) (cs : List Char) :
    a.addLetters specs (c :: cs) = .error .usage := by
  unfold addLetters
  simp only [await_of_pending h, addFlag_of_pending h, addValue_of_pending h]
  split
  · rfl
  · split
    · rfl
    · split <;> rfl

end Waiting

/-- An output that is not set yet is set by `-o`, if something other than an option follows it. -/
theorem keeps_output (out : String) (rest : List String) (a : Arguments) :
    Keeps out (a.read compileSpecs 1 false rest) (a.read compileSpecs 1 false ("-o" :: out :: rest)) := by
  have hread : a.read compileSpecs 1 false ("-o" :: out :: rest) =
      (a.await "output").bind (Arguments.read compileSpecs 1 false (out :: rest)) := rfl
  intro c hc
  rw [hread]
  unfold Arguments.await
  split_ifs with hset
  · exact .inl rfl
  · rw [Bool.or_eq_true, not_or] at hset
    obtain ⟨hpending, hvalue⟩ := hset
    rw [Option.not_isSome_iff_eq_none] at hpending hvalue
    change Arguments.read _ _ _ (out :: rest) _ = _ ∨ ∃ b, Arguments.read _ _ _ (out :: rest) _ = _ ∧ _
    unfold Arguments.read
    split
    · exact .inl rfl
    · rw [addLong_of_pending rfl]
      exact .inl rfl
    · rw [addLetters_of_pending rfl]
      exact .inl rfl
    · have hplain : ({ a with pending := some "output" } : Arguments).addPlain 1 out =
          .ok { a with values := a.values ++ [("output", out)], pending := none } :=
        if_neg (Bool.eq_false_iff.mp (congrArg Option.isSome hvalue))
      rw [hplain]
      have hadds : AddsOutput out a { a with values := a.values ++ [("output", out)], pending := none } := by
        refine ⟨rfl, rfl, hpending.symm, ?_, fun name hname => ?_⟩
        · rw [value?_concat (b := a) rfl, hvalue]
          rfl
        · rw [value?_concat (b := a) rfl, if_neg hname, Option.or_none]
      exact hadds.read rest c hc

private theorem addPlain_of_not_pending (h : a.pending = none) {limit : Nat} {text : String} :
    a.addPlain limit text =
      if a.positionals.length < limit then .ok { a with positionals := a.positionals ++ [text] }
      else .error .usage := by
  rw [addPlain, h]

/-- After `--` there is no room for two more arguments. -/
theorem read_plain_pair {out : String} (rest : List String) (hpending : a.pending = none) :
    a.read compileSpecs 1 true ("-o" :: out :: rest) = .error .usage := by
  unfold Arguments.read
  rw [addPlain_of_not_pending hpending]
  split_ifs
  · change Arguments.read _ _ _ (out :: rest) _ = _
    have hfull : ({ a with positionals := a.positionals ++ ["-o"] } : Arguments).addPlain 1 out =
        .error .usage := by
      rw [addPlain_of_not_pending (by exact hpending), if_neg (by simp)]
    unfold Arguments.read
    rw [hfull]
    rfl
  · rfl

/-- Wherever `-o` is put among the arguments of a compile, the others are read as before. -/
theorem keeps_insert (out : String) (before rest : List String) {onlyPlain : Bool}
    (h : onlyPlain = true → a.pending = none) :
    Keeps out (a.read compileSpecs 1 onlyPlain (before ++ rest))
      (a.read compileSpecs 1 onlyPlain (before ++ "-o" :: out :: rest)) := by
  induction before generalizing a onlyPlain with
  | nil =>
    cases onlyPlain with
    | true => exact fun _ _ => .inl (read_plain_pair rest (h rfl))
    | false => exact keeps_output out rest a
  | cons arg before ih =>
    cases onlyPlain with
    | true =>
      rw [List.cons_append, List.cons_append]
      unfold Arguments.read
      refine .bind_same fun b hb => ih fun _ => ?_
      rw [addPlain_of_not_pending (h rfl)] at hb
      split_ifs at hb
      cases hb
      exact h rfl
    | false =>
      rw [List.cons_append, List.cons_append]
      unfold Arguments.read
      split
      · split
        · exact fun _ hc => nomatch hc
        · rename_i hpending
          exact ih fun _ => by simpa using hpending
      · exact .bind_same fun _ _ => ih nofun
      · exact .bind_same fun _ _ => ih nofun
      · exact .bind_same fun _ _ => ih nofun

end Arguments

def Arguments.optionsFor (a : Arguments) (document : String) : CompileOptions where
  document := document
  root := a.value? "root"
  owner := (a.value? "owner").getD ""
  repo := (a.value? "repo").getD ""
  revision := a.value? "ref"
  output := a.value? "output"
  config := a.value? "config"
  defineStem := a.value? "define-prefix"
  baseUrl := a.value? "base-url"

private theorem Arguments.AddsOutput.optionsFor {a b : Arguments} {out : String} (h : AddsOutput out a b)
    (document : String) : b.optionsFor document = { a.optionsFor document with output := some out } := by
  simp [Arguments.optionsFor, h.output, h.others]

private theorem compileCommand_eq_ok_iff {args : List String} {i : Invocation} :
    compileCommand args = .ok i ↔ ∃ a document, Arguments.read compileSpecs 1 false args {} = .ok a ∧
      a.positionals = [document] ∧ i = ⟨.compile (a.optionsFor document), a.hasFlag "verbose"⟩ := by
  unfold compileCommand
  cases Arguments.read compileSpecs 1 false args {} with
  | error stop => exact ⟨nofun, fun ⟨_, _, h, _⟩ => nomatch h⟩
  | ok a =>
    dsimp only [bind, Except.bind]
    constructor
    · intro h
      split at h
      · rename_i document hpositionals
        exact ⟨a, document, rfl, hpositionals, (Except.ok.inj h).symm⟩
      · cases h
    · rintro ⟨_, document, ha, hpositionals, rfl⟩
      cases ha
      rw [hpositionals]
      rfl

/-- If the first call is a compile, the second one is not understood, or it is the same compile but
for its output. -/
def SetsOutput (out : String) (x y : Except Stop Invocation) : Prop :=
  ∀ options verbose, x = .ok ⟨.compile options, verbose⟩ →
    y = .error .usage ∨ y = .ok ⟨.compile { options with output := some out }, verbose⟩

private theorem setsOutput_compileCommand (out : String) (before rest : List String) :
    SetsOutput out (compileCommand (before ++ rest)) (compileCommand (before ++ "-o" :: out :: rest)) := by
  intro options verbose h
  obtain ⟨a, document, ha, hpositionals, heq⟩ := compileCommand_eq_ok_iff.mp h
  cases heq
  have hkeeps : Arguments.Keeps out (Arguments.read compileSpecs 1 false (before ++ rest) {}) _ :=
    Arguments.keeps_insert out before rest fun h => nomatch h
  rcases hkeeps a ha with hb | ⟨b, hb, hadds⟩
  · left
    rw [compileCommand, hb]
    rfl
  · right
    refine compileCommand_eq_ok_iff.mpr ⟨b, document, hb, hadds.positionals.trans hpositionals, ?_⟩
    rw [hadds.optionsFor, Arguments.hasFlag, Arguments.hasFlag, hadds.flags]

theorem SetsOutput.under {out : String} {x y : Except Stop Invocation} (h : SetsOutput out x y)
    (top : Arguments) :
    SetsOutput out (x.map (Invocation.under top)) (y.map (Invocation.under top)) := by
  intro options verbose hx
  cases x with
  | error stop => cases hx
  | ok i =>
    obtain ⟨command, own⟩ := i
    cases hx
    rcases h options own rfl with rfl | rfl
    · exact .inl rfl
    · exact .inr rfl

private theorem command_of_chunksCommand {args : List String} {i : Invocation} (h : chunksCommand args = .ok i) :
    ∃ document, i.command = .chunks document := by
  unfold chunksCommand at h
  cases ha : Arguments.read chunksSpecs 1 false args {} with
  | error stop =>
    rw [ha] at h
    cases h
  | ok a =>
    rw [ha] at h
    dsimp only [bind, Except.bind] at h
    split at h
    · exact ⟨_, congrArg Invocation.command (Except.ok.inj h).symm⟩
    · cases h

/-- Wherever `-o` is put in a call, it is not understood or it sets the output. -/
theorem setsOutput_invocation (out : String) (top : Arguments) (before rest : List String) :
    SetsOutput out (invocation top (before ++ rest)) (invocation top (before ++ "-o" :: out :: rest)) := by
  induction before generalizing top with
  | nil => exact fun _ _ _ => .inl rfl
  | cons arg before ih =>
    have hbind (x : Except Stop Arguments) : SetsOutput out
        (x >>= (invocation · (before ++ rest))) (x >>= (invocation · (before ++ "-o" :: out :: rest))) := by
      cases x with
      | error stop => exact fun _ _ h => nomatch h
      | ok top => exact ih top
    rw [List.cons_append, List.cons_append]
    unfold invocation
    split
    · exact (setsOutput_compileCommand out before rest).under top
    split
    · intro options verbose h
      cases hc : chunksCommand (before ++ rest) with
      | error stop =>
        rw [hc] at h
        cases h
      | ok i =>
        rw [hc] at h
        obtain ⟨document, hdocument⟩ := command_of_chunksCommand hc
        have hcommand : i.command = .compile options := congrArg Invocation.command (Except.ok.inj h)
        cases hdocument.symm.trans hcommand
    split
    · exact fun _ _ h => nomatch h
    split
    · exact hbind _
    · exact fun _ _ h => nomatch h
    · exact hbind _
    · exact fun _ _ h => nomatch h

end Notebook.CommandLine
