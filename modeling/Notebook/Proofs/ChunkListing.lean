import Notebook.Listing
import Notebook.Proofs.ArgumentOrder
import Notebook.Proofs.Effects
import Notebook.Proofs.JsonText
import Notebook.Proofs.ModuleNames

/-! What the text of a chunk, and the listing of a notebook, tell about the chunks.

The fields of a chunk are slots with fixed keys, some of which may be left out. The texts are equal if and only if the
slots are, and a slot forgets nothing but the keys of arguments that have no value. -/
namespace Notebook

namespace Json

private theorem isNumeral_nat (n : Nat) : IsNumeral (toString n) where
  ne_empty := by simp
  chars := by
    intro c hc
    simp [isNumeralChar, isDigit_toString hc]

private theorem isNumeral_int (n : Int) : IsNumeral (toString n) := by
  cases n with
  | ofNat n => exact isNumeral_nat n
  | negSucc n => exact (isNumeral_nat (n + 1)).signed (numeric_of_all (by decide))

def ofSlots (slots : List (String × Option Json)) : Json :=
  .object (slots.filterMap fun s => s.2.map (Prod.mk s.1))

private theorem plain_ofSlots {slots : List (String × Option Json)} (h : ∀ s ∈ slots, ∀ value ∈ s.2, Plain value) :
    Plain (ofSlots slots) := by
  apply Plain.object
  intro m hm
  obtain ⟨s, hs, hsome⟩ := List.mem_filterMap.mp hm
  obtain ⟨value, hvalue, rfl⟩ := Option.map_eq_some_iff.mp hsome
  exact h s hs value hvalue

private theorem key_mem_of_slots {slots : List (String × Option Json)} {m : String × Json}
    (h : m ∈ slots.filterMap fun s => s.2.map (Prod.mk s.1)) : m.1 ∈ slots.map Prod.fst := by
  obtain ⟨s, hs, hsome⟩ := List.mem_filterMap.mp h
  obtain ⟨value, -, rfl⟩ := Option.map_eq_some_iff.mp hsome
  exact List.mem_map_of_mem hs

/-- Under fixed keys that are distinct, an object shows which slots are filled. -/
theorem ofSlots_inj {xs ys : List (String × Option Json)} (hkeys : xs.map Prod.fst = ys.map Prod.fst)
    (hnodup : (xs.map Prod.fst).Nodup) : ofSlots xs = ofSlots ys ↔ xs = ys := by
  refine ⟨fun h => ?_, congrArg ofSlots⟩
  have hmembers := Json.object.inj h
  clear h
  induction xs generalizing ys with
  | nil => exact (List.map_eq_nil_iff.mp hkeys.symm).symm
  | cons x xs ih =>
    cases ys with
    | nil => cases hkeys
    | cons y ys =>
      obtain ⟨key, slot⟩ := x
      obtain ⟨key', slot'⟩ := y
      obtain ⟨rfl, htail⟩ := List.cons.inj hkeys
      obtain ⟨hnew, hdistinct⟩ := List.nodup_cons.mp hnodup
      -- a filled slot next to an empty one would have to be filled again further on
      cases slot with
      | none =>
        cases slot' with
        | none => rw [ih htail hdistinct hmembers]
        | some value =>
          have hmem : (key, value) ∈ xs.filterMap fun s => s.2.map (Prod.mk s.1) :=
            (show _ = (key, value) :: _ from hmembers) ▸ List.mem_cons_self
          exact absurd (key_mem_of_slots hmem) hnew
      | some value =>
        cases slot' with
        | none =>
          have hmem : (key, value) ∈ ys.filterMap fun s => s.2.map (Prod.mk s.1) :=
            (show (key, value) :: _ = _ from hmembers) ▸ List.mem_cons_self
          exact absurd (htail ▸ key_mem_of_slots hmem) hnew
        | some value' =>
          obtain ⟨hvalue, hrest⟩ := List.cons.inj hmembers
          rw [ih htail hdistinct hrest, (Prod.mk.inj hvalue).2]

def slot (empty : Bool) (value : Json) : Option Json :=
  if empty then none else some value

private theorem slot_inj {empty empty' : Bool} {value value' : Json} :
    slot empty value = slot empty' value' ↔ empty = empty' ∧ (empty = false → value = value') := by
  cases empty <;> cases empty' <;> simp [slot]

private theorem eq_of_mem_slot {empty : Bool} {value v : Json} (h : v ∈ slot empty value) : v = value := by
  cases empty with
  | true => cases h
  | false => exact (Option.some.inj h).symm

private theorem plain_of_mem_map {o : Option String} {value : Json} (h : value ∈ o.map Json.string) : Plain value := by
  obtain ⟨text, -, rfl⟩ := Option.map_eq_some_iff.mp h
  exact .string text

end Json

namespace Decimal

private theorem isDigit_toDigits {n : Nat} {c : Char} (h : c ∈ Nat.toDigits 10 n) : c.isDigit :=
  Nat.isDigit_of_mem_toDigits (by decide) (by decide) h

private theorem isDigit_zeros {n : Nat} {c : Char} (h : c ∈ List.replicate n '0') : c.isDigit :=
  (List.eq_of_mem_replicate h) ▸ rfl

private theorem Layout.isNumeral_write (layout : Layout) (s : Scaled) : Json.IsNumeral (layout.write s) := by
  have htake (k : Nat) : ∀ c ∈ (Nat.toDigits 10 s.digits).take k, c.isDigit :=
    fun c hc => isDigit_toDigits (List.mem_of_mem_take hc)
  have hdrop (k : Nat) : ∀ c ∈ (Nat.toDigits 10 s.digits).drop k, c.isDigit :=
    fun c hc => isDigit_toDigits (List.mem_of_mem_drop hc)
  have hpoint : Json.Numeric "." := Json.numeric_of_all (by decide)
  unfold write
  dsimp only
  split
  · exact ⟨by decide, Json.numeric_of_all (by decide)⟩
  split
  · split
    · refine ⟨by simp, (Json.numeric_of_all (by decide)).append (Json.numeric_ofList ?_)⟩
      exact List.forall_mem_append.mpr ⟨fun _ => isDigit_zeros, fun _ => isDigit_toDigits⟩
    · refine ⟨by simp, ((Json.numeric_ofList ?_).append hpoint).append (.ite ?_ (Json.numeric_ofList (hdrop _)))⟩
      · exact List.forall_mem_append.mpr ⟨htake _, fun _ => isDigit_zeros⟩
      · exact Json.numeric_of_all (by decide)
  · refine ⟨by simp, (((Json.numeric_ofList (htake 1)).append (.ite ?_ ?_)).append (.ite ?_ ?_)).append ?_⟩
    · exact Json.numeric_of_all (by decide)
    · exact hpoint.append (Json.numeric_ofList (hdrop 1))
    · exact Json.numeric_of_all (by decide)
    · exact Json.numeric_of_all (by decide)
    · exact (Json.isNumeral_nat _).chars

private theorem Layout.isNumeral_writeFloat (layout : Layout) (x : Float) : Json.IsNumeral (layout.writeFloat x) :=
  (layout.isNumeral_write _).signed (.ite (Json.numeric_of_all (by decide)) (Json.numeric_of_all (by decide)))

end Decimal

/-- A list that is made item by item holds only what the items make. -/
theorem exists_of_mem_mapM {ε α β : Type} {f : α → Except ε β} {xs : List α} {ys : List β}
    (h : xs.mapM f = .ok ys) : ∀ y ∈ ys, ∃ x ∈ xs, f x = .ok y := by
  induction xs generalizing ys with
  | nil =>
    cases h
    exact List.forall_mem_nil _
  | cons x xs ih =>
    rw [List.mapM_cons] at h
    obtain ⟨y, hy, h⟩ := bind_eq_ok_iff.mp h
    obtain ⟨rest, hrest, h⟩ := bind_eq_ok_iff.mp h
    cases h
    refine List.forall_mem_cons.mpr ⟨⟨x, List.mem_cons_self, hy⟩, ?_⟩
    intro z hz
    obtain ⟨x', hx', hmade⟩ := ih hrest z hz
    exact ⟨x', List.mem_cons_of_mem _ hx', hmade⟩

private theorem Yaml.Value.plain_toJson {value : Yaml.Value} {json : Json} (h : value.toJson = .ok json) : json.Plain := by
  induction value using toJson.induct generalizing json with
  | case1 =>
    rw [toJson] at h
    cases h
    exact .null
  | case2 value =>
    rw [toJson] at h
    cases h
    exact .bool value
  | case3 value =>
    rw [toJson] at h
    cases h
    exact .number (Json.isNumeral_int value)
  | case4 value =>
    rw [toJson] at h
    cases h
    split
    · exact .number (numberLayout.isNumeral_writeFloat value)
    · exact .null
  | case5 text =>
    rw [toJson] at h
    cases h
    exact .string text
  | case6 items ih =>
    rw [toJson] at h
    obtain ⟨values, hvalues, h⟩ := bind_eq_ok_iff.mp h
    cases h
    apply Json.Plain.array
    intro value hvalue
    obtain ⟨item, hitem, hmade⟩ := exists_of_mem_mapM hvalues value hvalue
    exact ih item hitem hmade
  | case7 entries ih =>
    rw [toJson] at h
    obtain ⟨members, hmembers, h⟩ := bind_eq_ok_iff.mp h
    cases h
    apply Json.Plain.object
    intro m hm
    obtain ⟨entry, hentry, hmade⟩ := exists_of_mem_mapM hmembers m hm
    obtain ⟨key, -, hmade⟩ := bind_eq_ok_iff.mp hmade
    obtain ⟨value, hvalue, hmade⟩ := bind_eq_ok_iff.mp hmade
    cases hmade
    exact ih entry hentry hvalue
  | case8 tag value ih =>
    rw [toJson] at h
    obtain ⟨inner, hinner, h⟩ := bind_eq_ok_iff.mp h
    cases h
    apply Json.Plain.object
    intro m hm
    rw [List.mem_singleton.mp hm]
    exact ih hinner

namespace RenderArgs
variable {args args' : RenderArgs}

private theorem valued_of_isEmpty (h : args.isEmpty) : args.valued = [] := by
  rw [valued, List.isEmpty_iff.mp h, List.filterMap_nil]

private theorem toJson_inj : args.toJson = args'.toJson ↔ args.valued = args'.valued := by
  have hmember : Function.Injective fun m : String × String => (m.1, Json.string m.2) :=
    fun m n h => Prod.ext (Prod.mk.inj h).1 (Json.string.inj (Prod.mk.inj h).2)
  rw [toJson_eq, toJson_eq, Json.object.injEq, (List.map_injective_iff.mpr hmember).eq_iff]

end RenderArgs

namespace Chunk

def slots (chunk : Chunk) : List (String × Option Json) :=
  [("index", some (.number (toString chunk.index))),
    ("type", some (.string chunk.type)),
    ("name", chunk.name.map .string),
    ("inputs", Json.slot chunk.inputs.isEmpty (.array (chunk.inputs.map .string))),
    ("renderer", chunk.renderer.map .string),
    ("render_args", Json.slot chunk.renderArgs.isEmpty chunk.renderArgs.toJson),
    ("content", some (.string chunk.content))]

private theorem toJson_eq_ofSlots (chunk : Chunk) : chunk.toJson = .ofSlots chunk.slots := by
  unfold toJson slots Json.ofSlots field Json.slot
  -- four fields may be left out
  cases chunk.name <;> cases chunk.renderer <;> cases chunk.inputs.isEmpty <;> cases chunk.renderArgs.isEmpty <;> rfl

private theorem plain_toJson (chunk : Chunk) : chunk.toJson.Plain := by
  rw [toJson_eq_ofSlots]
  apply Json.plain_ofSlots
  have hargs : chunk.renderArgs.toJson.Plain := by
    rw [RenderArgs.toJson_eq]
    apply Json.Plain.object
    intro m hm
    obtain ⟨e, -, rfl⟩ := List.mem_map.mp hm
    exact .string e.2
  have hinputs : (Json.array (chunk.inputs.map .string)).Plain := by
    apply Json.Plain.array
    intro item hitem
    obtain ⟨input, -, rfl⟩ := List.mem_map.mp hitem
    exact .string input
  have hsome {value : Json} (h : value.Plain) : ∀ v ∈ some value, v.Plain := fun _ hv => Option.some.inj hv ▸ h
  simp only [slots, List.forall_mem_cons]
  refine ⟨hsome (.number (Json.isNumeral_nat _)), hsome (.string _), fun _ => Json.plain_of_mem_map, ?_,
    fun _ => Json.plain_of_mem_map, ?_, hsome (.string _), List.forall_mem_nil _⟩
  · intro v hv
    rw [Json.eq_of_mem_slot hv]
    exact hinputs
  · intro v hv
    rw [Json.eq_of_mem_slot hv]
    exact hargs

/-- What a text tells about a chunk: everything but the keys of arguments that have no value. -/
structure Agrees (a b : Chunk) : Prop where
  index : a.index = b.index
  type : a.type = b.type
  name : a.name = b.name
  inputs : a.inputs = b.inputs
  renderer : a.renderer = b.renderer
  arguments : a.renderArgs.valued = b.renderArgs.valued
  bare : a.renderArgs.isEmpty = b.renderArgs.isEmpty
  content : a.content = b.content

private theorem slots_eq_iff {a b : Chunk} : a.slots = b.slots ↔ a.Agrees b := by
  have hstring : Function.Injective Json.string := fun _ _ => Json.string.inj
  constructor
  · intro h
    simp only [slots, List.cons.injEq, Prod.mk.injEq, Json.slot_inj, true_and, and_true, Option.some.injEq,
      Json.number.injEq, Json.string.injEq] at h
    obtain ⟨hindex, htype, hname, ⟨hempty, hinputs⟩, hrenderer, ⟨hbare, hargs⟩, hcontent⟩ := h
    refine ⟨Nat.repr_injective hindex, htype, Option.map_injective hstring hname, ?_,
      Option.map_injective hstring hrenderer, ?_, hbare, hcontent⟩
    · cases hnone : a.inputs.isEmpty with
      | true => rw [List.isEmpty_iff.mp hnone, List.isEmpty_iff.mp (hempty.symm.trans hnone)]
      | false => exact List.map_injective_iff.mpr hstring (Json.array.inj (hinputs hnone))
    · cases hnone : a.renderArgs.isEmpty with
      | true => rw [RenderArgs.valued_of_isEmpty hnone, RenderArgs.valued_of_isEmpty (hbare.symm.trans hnone)]
      | false => exact RenderArgs.toJson_inj.mp (hargs hnone)
  · intro h
    simp only [slots, h.index, h.type, h.name, h.inputs, h.renderer, h.bare, h.content,
      RenderArgs.toJson_inj.mpr h.arguments]

private theorem toJson_eq_iff {a b : Chunk} : a.toJson = b.toJson ↔ a.Agrees b := by
  have hdistinct : (a.slots.map Prod.fst).Nodup := by
    change ["index", "type", "name", "inputs", "renderer", "render_args", "content"].Nodup
    decide
  have hkeys : a.slots.map Prod.fst = b.slots.map Prod.fst := rfl
  rw [toJson_eq_ofSlots, toJson_eq_ofSlots, Json.ofSlots_inj hkeys hdistinct, slots_eq_iff]

private theorem map_toJson_eq_iff {as bs : List Chunk} : as.map toJson = bs.map toJson ↔ List.Forall₂ Agrees as bs := by
  rw [← List.forall₂_eq_eq_eq, List.forall₂_map_left_iff, List.forall₂_map_right_iff]
  simp only [toJson_eq_iff]

private theorem plain_array (chunks : List Chunk) : (Json.array (chunks.map toJson)).Plain := by
  apply Json.Plain.array
  intro item hitem
  obtain ⟨chunk, -, rfl⟩ := List.mem_map.mp hitem
  exact chunk.plain_toJson

end Chunk

namespace Content

def config (content : Content) : Except KeyFault Json :=
  (Yaml.Value.mapping content.frontmatter).toJson

def listed (content : Content) (config : Json) : Json :=
  .object [("config", config), ("chunks", .array (content.chunks.map Chunk.toJson))]

private theorem pretty_eq_ok_iff {content : Content} {text : String} : content.toJson.map Json.pretty = .ok text ↔
    ∃ config, content.config = .ok config ∧ (content.listed config).pretty = text := by
  unfold toJson config
  cases (Yaml.Value.mapping content.frontmatter).toJson with
  | error e =>
    constructor
    · intro h
      cases h
    · rintro ⟨config, h, -⟩
      cases h
  | ok config =>
    constructor
    · intro h
      exact ⟨config, rfl, Except.ok.inj h⟩
    · rintro ⟨config', h, rfl⟩
      cases h
      rfl

private theorem plain_listed {content : Content} {config : Json}
    (h : content.config = .ok config) : (content.listed config).Plain := by
  apply Json.Plain.object
  simp only [List.forall_mem_cons]
  exact ⟨Yaml.Value.plain_toJson h, Chunk.plain_array content.chunks, List.forall_mem_nil _⟩

/-- Two listings are equal if and only if their configurations are and their chunks agree. -/
theorem listings_eq_iff {x y : Content} :
    (∃ text, x.toJson.map Json.pretty = .ok text ∧ y.toJson.map Json.pretty = .ok text) ↔
      (∃ config, x.config = .ok config ∧ y.config = .ok config) ∧
        List.Forall₂ Chunk.Agrees x.chunks y.chunks := by
  constructor
  · rintro ⟨text, hx, hy⟩
    obtain ⟨config, hconfig, htext⟩ := pretty_eq_ok_iff.mp hx
    obtain ⟨config', hconfig', htext'⟩ := pretty_eq_ok_iff.mp hy
    have heq := (Json.pretty_inj (plain_listed hconfig) (plain_listed hconfig')).mp (htext.trans htext'.symm)
    simp only [listed, Json.object.injEq, List.cons.injEq, Prod.mk.injEq, true_and, and_true, Json.array.injEq] at heq
    exact ⟨⟨config, hconfig, heq.1 ▸ hconfig'⟩, Chunk.map_toJson_eq_iff.mp heq.2⟩
  · rintro ⟨⟨config, hx, hy⟩, hchunks⟩
    refine ⟨_, pretty_eq_ok_iff.mpr ⟨config, hx, rfl⟩, pretty_eq_ok_iff.mpr ⟨config, hy, ?_⟩⟩
    rw [listed, listed, Chunk.map_toJson_eq_iff.mpr hchunks]

end Content

/-- Texts of chunks, of lists of chunks and of whole listings are equal exactly if the chunks agree in all
but the keys of arguments that have no value. -/
theorem chunk_texts_eq_iff_agrees :
    (∀ a b : Chunk, a.toJson.compact = b.toJson.compact ↔ a.Agrees b) ∧
    (∀ as bs : List Chunk,
      (Json.array (as.map Chunk.toJson)).compact = (Json.array (bs.map Chunk.toJson)).compact ↔
        List.Forall₂ Chunk.Agrees as bs) ∧
    ∀ x y : Content, (∃ text, x.toJson.map Json.pretty = .ok text ∧ y.toJson.map Json.pretty = .ok text) ↔
      (∃ config, x.config = .ok config ∧ y.config = .ok config) ∧
        List.Forall₂ Chunk.Agrees x.chunks y.chunks := by
  refine ⟨?_, ?_, fun _ _ => Content.listings_eq_iff⟩
  · intro a b
    rw [Json.compact_inj a.plain_toJson b.plain_toJson, Chunk.toJson_eq_iff]
  · intro as bs
    rw [Json.compact_inj (Chunk.plain_array as) (Chunk.plain_array bs), Json.array.injEq, Chunk.map_toJson_eq_iff]

end Notebook
