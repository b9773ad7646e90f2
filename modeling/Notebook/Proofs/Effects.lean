import Mathlib

/-! Computations that may fail, with or without a state that they change. An error keeps the state in
which it arises. -/
namespace Notebook
variable {ε ε' σ α β : Type}

theorem bind_eq_ok_iff {x : Except ε α} {f : α → Except ε β} {b : β} :
    (x >>= f) = .ok b ↔ ∃ a, x = .ok a ∧ f a = .ok b := by
  cases x with
  | error e => exact ⟨nofun, fun ⟨_, h, _⟩ => nomatch h⟩
  | ok a => exact ⟨fun h => ⟨a, rfl, h⟩, fun ⟨_, ha, h⟩ => Except.ok.inj ha ▸ h⟩

theorem mapError_eq_ok_iff {x : Except ε α} {f : ε → ε'} {a : α} : x.mapError f = .ok a ↔ x = .ok a := by
  cases x with
  | error e => exact ⟨nofun, nofun⟩
  | ok b => exact ⟨fun h => congrArg _ (Except.ok.inj h), fun h => congrArg _ (Except.ok.inj h)⟩

section Stateful
variable {x : ExceptT ε (StateM σ) α} {f : α → ExceptT ε (StateM σ) β} {s t u : σ} {e : ε}

theorem run_pure_eq_ok_iff {a b : α} :
    (pure a : ExceptT ε (StateM σ) α).run.run s = (.ok b, t) ↔ a = b ∧ s = t := by
  change ((Except.ok a, s) : Except ε α × σ) = (.ok b, t) ↔ _
  simp

theorem run_throw_ne_ok {a : α} : (throw e : ExceptT ε (StateM σ) α).run.run s ≠ (.ok a, t) := by
  intro h
  change ((Except.error e, s) : Except ε α × σ) = (.ok a, t) at h
  simp at h

/-- The second part of a computation goes on from the state that the first one leaves, unless the
first one fails. -/
theorem run_bind (x : ExceptT ε (StateM σ) α) (f : α → ExceptT ε (StateM σ) β) (s : σ) :
    (x >>= f).run.run s = match x.run.run s with
      | (.ok a, t) => (f a).run.run t
      | (.error e, t) => (.error e, t) := by
  change (ExceptT.bindCont f (x.run.run s).1).run (x.run.run s).2 = _
  rcases x.run.run s with ⟨_ | a, t⟩ <;> rfl

theorem run_bind_ok {a : α} (h : x.run.run s = (.ok a, t)) :
    (x >>= f).run.run s = (f a).run.run t := by
  rw [run_bind, h]

theorem run_bind_error (h : x.run.run s = (.error e, t)) : (x >>= f).run.run s = (.error e, t) := by
  rw [run_bind, h]

/-- A computation in two parts succeeds if both parts do. -/
theorem run_bind_eq_ok_iff {b : β} : (x >>= f).run.run s = (.ok b, u) ↔
    ∃ a t, x.run.run s = (.ok a, t) ∧ (f a).run.run t = (.ok b, u) := by
  rw [run_bind]
  rcases x.run.run s with ⟨e | a, t⟩
  · constructor
    · intro h
      cases h
    · rintro ⟨_, _, h, _⟩
      cases h
  · constructor
    · exact fun h => ⟨a, t, rfl, h⟩
    · rintro ⟨_, _, he, h⟩
      cases he
      exact h

end Stateful

end Notebook
