import Notebook.Text.Blank
import Notebook.Text.Word

/-! Fenced blocks as they are written.

A block opens with three backticks and a header in braces. The header has a type and perhaps a
name, and may list inputs; more inputs and a renderer may follow on the same line. Three backticks
close the block. -/
namespace Notebook

def Fence.ticks : List Char :=
  "\x60\x60\x60".toList

/-- The text of a fenced block, cut into its parts. -/
structure Fence where
  header : List Char
  headerInputs : Option (List Char)
  inputs : Option (List Char)
  renderer : Option (List Char × Option (List Char))
  body : List Char
deriving Repr, DecidableEq

namespace Fence

def isHeaderChar (c : Char) : Bool :=
  Text.isWord c || c == '#' || c == ' '

def isRendererChar (c : Char) : Bool :=
  Text.isWord c || c == '/'

def isInner (c : Char) : Bool :=
  c != ')' && c != '\n'

/-- The end of a header. Inputs in the header go up to the first parenthesis that is followed by
the closing brace, over as many lines as that takes. -/
def headerEnd? : List Char → Option (Option (List Char) × List Char)
  | '}' :: cs => some (none, cs)
  | '(' :: cs =>
    (Text.cutAt? [')', '}'] cs).map fun (inputs, rest) => (some inputs, rest)
  | _ => none

def parens? : List Char → Option (List Char × List Char)
  | '(' :: cs =>
    match cs.dropWhile isInner with
    | ')' :: rest => some (cs.takeWhile isInner, rest)
    | _ => none
  | _ => none

def rendererEnd? : List Char → Option (Option (List Char) × List Char)
  | ']' :: cs => some (none, cs)
  | cs =>
    match parens? cs with
    | some (args, ']' :: rest) => some (some args, rest)
    | _ => none

def renderer? (cs : List Char) : Option ((List Char × Option (List Char)) × List Char) :=
  match cs.dropWhile fun c => c == ' ' || c == '\t' with
  | '[' :: rest =>
    let name := rest.takeWhile isRendererChar
    if name.isEmpty then none
    else (rendererEnd? (rest.dropWhile isRendererChar)).map fun (args, rest) => ((name, args), rest)
  | _ => none

/-- The ways to read what follows a header, in order of preference: with inputs and a renderer as
far as they are there. -/
def suffixes (cs : List Char) :
    List (Option (List Char) × Option (List Char × Option (List Char)) × List Char) :=
  let heads := (parens? cs).toList.map (fun (inputs, rest) => (some inputs, rest)) ++ [(none, cs)]
  heads.flatMap fun (inputs, rest) =>
    (renderer? rest).toList.map (fun (renderer, rest) => (inputs, some renderer, rest)) ++
      [(inputs, none, rest)]

/-- The block that a text starts with, and what follows it. The first way to read it is taken that
leaves a closing fence. -/
def read? (cs : List Char) : Option (Fence × List Char) := do
  let rest ← Text.after? (ticks ++ ['{']) cs
  let header := rest.takeWhile isHeaderChar
  if header.isEmpty then none
  else
    let (headerInputs, rest) ← headerEnd? (rest.dropWhile isHeaderChar)
    (suffixes rest).findSome? fun (inputs, renderer, rest) =>
      (Text.cutAt? ticks rest).map fun (body, rest) =>
        (⟨header, headerInputs, inputs, renderer, body⟩, rest)

def first? : List Char → Option (List Char × Fence × List Char)
  | [] => none
  | c :: cs =>
    match read? (c :: cs) with
    | some (fence, rest) => some ([], fence, rest)
    | none => (first? cs).map fun (before, fence, rest) => (c :: before, fence, rest)

theorem length_of_headerEnd? {cs rest : List Char} {inputs : Option (List Char)}
    (h : headerEnd? cs = some (inputs, rest)) : rest.length ≤ cs.length := by
  unfold headerEnd? at h
  split at h
  · cases h
    simp
  · obtain ⟨⟨i, r⟩, hr, he⟩ := Option.map_eq_some_iff.mp h
    cases he
    simp [Text.eq_append_of_cutAt? hr]
    omega
  · cases h

theorem length_of_parens? {cs inner rest : List Char} (h : parens? cs = some (inner, rest)) :
    rest.length ≤ cs.length := by
  unfold parens? at h
  split at h
  · rename_i cs
    split at h
    · rename_i r hr
      cases h
      have := (List.dropWhile_suffix isInner (l := cs)).length_le
      simp [hr] at this ⊢
      omega
    · cases h
  · cases h

theorem length_of_rendererEnd? {cs rest : List Char} {args : Option (List Char)}
    (h : rendererEnd? cs = some (args, rest)) : rest.length ≤ cs.length := by
  unfold rendererEnd? at h
  split at h
  · cases h
    simp
  · split at h
    · rename_i hp
      cases h
      have := length_of_parens? hp
      simp at this
      omega
    · cases h

theorem length_of_renderer? {cs rest : List Char} {renderer : List Char × Option (List Char)}
    (h : renderer? cs = some (renderer, rest)) : rest.length ≤ cs.length := by
  unfold renderer? at h
  split at h
  · rename_i r hr
    dsimp only at h
    split at h
    · cases h
    · obtain ⟨⟨a, t⟩, ha, he⟩ := Option.map_eq_some_iff.mp h
      cases he
      have h₁ := length_of_rendererEnd? ha
      have h₂ := (List.dropWhile_suffix isRendererChar (l := r)).length_le
      have h₃ := (List.dropWhile_suffix (fun c => c == ' ' || c == '\t') (l := cs)).length_le
      rw [hr] at h₃
      simp at h₃
      show t.length ≤ cs.length
      omega
  · cases h

theorem length_of_mem_suffixes {cs rest : List Char} {inputs : Option (List Char)}
    {renderer : Option (List Char × Option (List Char))}
    (h : (inputs, renderer, rest) ∈ suffixes cs) : rest.length ≤ cs.length := by
  simp only [suffixes, List.mem_flatMap, List.mem_append, List.mem_map, List.mem_singleton,
    Option.mem_toList] at h
  obtain ⟨⟨i, r⟩, hi, hr⟩ := h
  have hle : r.length ≤ cs.length := by
    rcases hi with ⟨⟨i', r'⟩, hp, he⟩ | he
    · cases he
      exact length_of_parens? hp
    · cases he
      exact Nat.le_refl _
  rcases hr with ⟨⟨f, t⟩, hp, he⟩ | he
  · cases he
    exact Nat.le_trans (length_of_renderer? hp) hle
  · cases he
    exact hle

theorem length_of_read? {cs rest : List Char} {fence : Fence}
    (h : read? cs = some (fence, rest)) : rest.length < cs.length := by
  simp only [read?, Option.bind_eq_bind, Option.bind_eq_some_iff] at h
  obtain ⟨r, hr, h⟩ := h
  split at h
  · cases h
  · obtain ⟨⟨i, t⟩, ht, h⟩ := Option.bind_eq_some_iff.mp h
    obtain ⟨⟨i', f, u⟩, hu, h⟩ := List.exists_of_findSome?_eq_some h
    obtain ⟨⟨b, v⟩, hv, he⟩ := Option.map_eq_some_iff.mp h
    cases he
    have h₁ := congrArg List.length (Text.eq_append_of_after? hr)
    have h₂ := (List.dropWhile_suffix isHeaderChar (l := r)).length_le
    have h₃ := length_of_headerEnd? ht
    have h₄ := length_of_mem_suffixes hu
    have h₅ := congrArg List.length (Text.eq_append_of_cutAt? hv)
    simp at h₁ h₄ h₅
    show v.length < cs.length
    omega

theorem length_of_first? {cs before rest : List Char} {fence : Fence}
    (h : first? cs = some (before, fence, rest)) : rest.length < cs.length := by
  induction cs generalizing before with
  | nil => simp [first?] at h
  | cons c cs ih =>
    simp only [first?] at h
    split at h
    · rename_i hr
      cases h
      exact length_of_read? hr
    · obtain ⟨⟨b, f, r⟩, hr, he⟩ := Option.map_eq_some_iff.mp h
      cases he
      exact Nat.lt_succ_of_lt (ih hr)

end Fence

end Notebook
