import Mathlib.Logic.Basic

/-!
# Fallible computations

When a computation in `Except` succeeds: its parts did, one after the other.
-/

namespace Results

variable {ε α β : Type}

theorem bind_eq_ok {x : Except ε α} {f : α → Except ε β} {b : β} :
    (x >>= f) = .ok b ↔ ∃ a, x = .ok a ∧ f a = .ok b := by
  cases x with
  | error e => exact ⟨nofun, nofun⟩
  | ok a => exact ⟨fun h => ⟨a, rfl, h⟩, fun ⟨_, ha, h⟩ => by cases ha; exact h⟩

theorem mapError_eq_ok {ε' : Type} {x : Except ε α} {f : ε → ε'} {a : α} :
    x.mapError f = .ok a ↔ x = .ok a := by
  cases x with
  | error e =>
    constructor <;>
    · intro h
      cases h
  | ok b =>
    constructor
    · intro h
      have hok : (.ok b : Except ε' α) = .ok a := h
      cases hok
      rfl
    · intro h
      cases h
      rfl

/-- What every step of a fold keeps. -/
theorem foldlM_ok {I : β → Prop} {f : β → α → Except ε β}
    (step : ∀ b a b', I b → f b a = .ok b' → I b') {as : List α} {b b' : β} (hb : I b)
    (h : as.foldlM f b = .ok b') : I b' := by
  induction as generalizing b with
  | nil =>
    cases h
    exact hb
  | cons a as ih =>
    obtain ⟨b₁, h₁, h⟩ := bind_eq_ok.mp h
    exact ih (step _ _ _ hb h₁) h

end Results
