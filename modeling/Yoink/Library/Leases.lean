import Mathlib.Logic.Function.Basic

/-!
# Leases

A table leases each key to at most one client. Taking a key back does not end the
client at once: it is told to stop, and goes on until it notices. `Exact` is the law
such a table should keep: a running client holds its key exactly as long as nobody has
told it to stop and nobody is about to. The rules below preserve it, one for each
thing that may happen to a table.
-/

universe u v

/-- A table of keys and the clients it leases them to. -/
structure Leases (K : Type u) (T : Type v) where
  /-- Whom a key is leased to. -/
  holder : K → Option T
  /-- The key a running client was given. -/
  key : T → Option K
  /-- The client was told to stop, or is about to be told. -/
  stopped : T → Prop

namespace Leases

variable {K : Type u} {T : Type v} {L L' : Leases K T}

/-- The running clients that nobody stopped are exactly the holders of their keys. -/
def Exact (L : Leases K T) : Prop :=
  ∀ k t, L.holder k = some t ↔ L.key t = some k ∧ ¬ L.stopped t

theorem Exact.key_of_holder (h : L.Exact) {k : K} {t : T} (hk : L.holder k = some t) :
    L.key t = some k :=
  ((h k t).mp hk).1

theorem Exact.not_stopped (h : L.Exact) {k : K} {t : T} (hk : L.holder k = some t) :
    ¬ L.stopped t :=
  ((h k t).mp hk).2

/-- A running client without its key has been stopped. -/
theorem Exact.stopped (h : L.Exact) {k : K} {t : T} (hk : L.key t = some k)
    (hn : L.holder k ≠ some t) : L.stopped t := by
  by_contra hs
  exact hn ((h k t).mpr ⟨hk, hs⟩)

theorem Exact.congr (h : L.Exact) (hh : ∀ k, L'.holder k = L.holder k)
    (hk : ∀ t, L'.key t = L.key t)
    (hs : ∀ t, L.key t ≠ none → (L'.stopped t ↔ L.stopped t)) : L'.Exact := by
  intro k t
  rw [hh, hk, h k t]
  refine and_congr_right fun hkt => ?_
  rw [hs t (by simp [hkt])]

/-- Taking keys back stops their holders. -/
theorem Exact.revoke (h : L.Exact) (P : K → Prop) [DecidablePred P]
    (hh : ∀ k, L'.holder k = if P k then none else L.holder k) (hk : ∀ t, L'.key t = L.key t)
    (hs : ∀ t, L.key t ≠ none →
      (L'.stopped t ↔ L.stopped t ∨ ∃ k, P k ∧ L.holder k = some t)) : L'.Exact := by
  intro k t
  rw [hh, hk]
  by_cases hkt : L.key t = some k
  · rw [hs t (by simp [hkt])]
    have hP : (∃ k', P k' ∧ L.holder k' = some t) ↔ P k ∧ L.holder k = some t := by
      constructor
      · rintro ⟨k', hp, hk'⟩
        obtain rfl := Option.some.inj (hkt.symm.trans (h.key_of_holder hk'))
        exact ⟨hp, hk'⟩
      · exact fun hp => ⟨k, hp⟩
    rw [hP]
    by_cases hp : P k <;> simp [hp, hkt, h k t]
  · have hn : L.holder k ≠ some t := fun hk' => hkt (h.key_of_holder hk')
    by_cases hp : P k <;> simp [hp, hkt, hn]

/-- Leasing a key to a new client stops the client that held it. -/
theorem Exact.grant [DecidableEq K] [DecidableEq T] (h : L.Exact) {k : K} {t : T}
    (hn : L.key t = none) (hh : ∀ k', L'.holder k' = if k' = k then some t else L.holder k')
    (hk : ∀ t', L'.key t' = if t' = t then some k else L.key t') (hst : ¬ L'.stopped t)
    (hs : ∀ t', t' ≠ t → L.key t' ≠ none →
      (L'.stopped t' ↔ L.stopped t' ∨ L.holder k = some t')) : L'.Exact := by
  intro k' t'
  rw [hh, hk]
  by_cases ht : t' = t
  · subst ht
    have hne : L.holder k' ≠ some t' := fun hk' => by simp [h.key_of_holder hk'] at hn
    by_cases hkk : k' = k
    · simp [hkk, hst]
    · simp [hkk, Ne.symm hkk, hne]
  · by_cases hkt : L.key t' = some k'
    · rw [if_neg ht, hs t' ht (by simp [hkt])]
      by_cases hkk : k' = k
      · subst hkk
        have := h k' t'
        simp only [hkt, true_and] at this
        simp [Ne.symm ht, hkt, this]
      · have hne : L.holder k ≠ some t' := fun hk' => by
          simp [h.key_of_holder hk', Ne.symm hkk] at hkt
        simp [hkk, hkt, hne, h k' t']
    · have hne : L.holder k' ≠ some t' := fun hk' => hkt (h.key_of_holder hk')
      by_cases hkk : k' = k
      · subst hkk; simp [ht, Ne.symm ht, hkt]
      · simp [hkk, ht, hkt, hne]

/-- A client that ends gives its key back, if it still holds it. -/
theorem Exact.retire [DecidableEq T] (h : L.Exact) {t : T}
    (hown : ∀ k, L.holder k = some t → L'.holder k = none)
    (hh : ∀ k, L.holder k ≠ some t → L'.holder k = L.holder k)
    (hk : ∀ t', L'.key t' = if t' = t then none else L.key t')
    (hs : ∀ t', t' ≠ t → L.key t' ≠ none → (L'.stopped t' ↔ L.stopped t')) : L'.Exact := by
  intro k t'
  rw [hk]
  by_cases ht : t' = t
  · subst ht
    have hn : L'.holder k ≠ some t' := by
      by_cases hkt : L.holder k = some t'
      · simp [hown k hkt]
      · rwa [hh k hkt]
    simp [hn]
  · rw [if_neg ht]
    have hiff : L'.holder k = some t' ↔ L.holder k = some t' := by
      by_cases hkt : L.holder k = some t
      · simp [hown k hkt, hkt, Ne.symm ht]
      · rw [hh k hkt]
    rw [hiff, h k t']
    refine and_congr_right fun hkt => ?_
    rw [hs t' ht (by simp [hkt])]

end Leases
