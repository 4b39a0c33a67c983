import Mathlib.Logic.Basic
import Mathlib.Data.List.Basic

/-!
# Transition systems and their runs

A `System` has initial states and labelled steps. A run records every transition it
took, so a property of histories (an earlier step, the order of two steps, the number of
steps of a kind) is a property of a list. `Run.invariant` and `Run.history` are the two
induction rules; `restrict` keeps the runs whose steps all meet a condition.
-/

universe u v w

/-- A labelled transition system. -/
structure System (σ : Type u) (α : Type v) where
  init : σ → Prop
  step : σ → α → σ → Prop

/-- One step as a run records it. -/
structure Transition (σ : Type u) (α : Type v) where
  pre : σ
  act : α
  post : σ

namespace System

variable {σ : Type u} {α : Type v} {S : System σ α}

/-- `S.Run τ s`: from an initial state, the transitions `τ` lead to `s`. -/
inductive Run (S : System σ α) : List (Transition σ α) → σ → Prop where
  | start {s : σ} : S.init s → Run S [] s
  | next {τ : List (Transition σ α)} {s s' : σ} {a : α} :
      Run S τ s → S.step s a s' → Run S (τ ++ [⟨s, a, s'⟩]) s'

def Reachable (S : System σ α) (s : σ) : Prop := ∃ τ, S.Run τ s

theorem Run.reachable {τ : List (Transition σ α)} {s : σ} (h : S.Run τ s) : S.Reachable s :=
  ⟨τ, h⟩

theorem Reachable.next {s s' : σ} {a : α} (h : S.Reachable s) (hs : S.step s a s') :
    S.Reachable s' := by
  obtain ⟨τ, hτ⟩ := h
  exact ⟨_, hτ.next hs⟩

/-- The invariant rule. The step case may use that the state before is reachable. -/
theorem Reachable.invariant {I : σ → Prop} (init : ∀ s, S.init s → I s)
    (step : ∀ s a s', S.Reachable s → I s → S.step s a s' → I s') {s : σ}
    (h : S.Reachable s) : I s := by
  obtain ⟨τ, hτ⟩ := h
  induction hτ with
  | start hs => exact init _ hs
  | next hr hs ih => exact step _ _ _ hr.reachable ih hs

/-- The invariant rule for a relation between the history and the state. -/
theorem Run.history {I : List (Transition σ α) → σ → Prop} (init : ∀ s, S.init s → I [] s)
    (step : ∀ τ s a s', S.Run τ s → I τ s → S.step s a s' → I (τ ++ [⟨s, a, s'⟩]) s')
    {τ : List (Transition σ α)} {s : σ} (h : S.Run τ s) : I τ s := by
  induction h with
  | start hs => exact init _ hs
  | next hr hs ih => exact step _ _ _ _ hr ih hs

/-- Cutting a list at an element cuts off its last element, or cuts earlier. -/
theorem concat_eq_append_cons {β : Type w} {xs ys zs : List β} {x y : β}
    (h : xs ++ [x] = ys ++ y :: zs) :
    (ys = xs ∧ y = x ∧ zs = []) ∨ ∃ zs', zs = zs' ++ [x] ∧ xs = ys ++ y :: zs' := by
  rcases List.eq_nil_or_concat zs with rfl | ⟨zs', z, rfl⟩
  · obtain ⟨h1, h2⟩ := List.append_inj' h rfl
    exact .inl ⟨h1.symm, (List.cons.inj h2).1.symm, rfl⟩
  · have h' : xs ++ [x] = (ys ++ y :: zs') ++ [z] := by simpa using h
    obtain ⟨h1, h2⟩ := List.append_inj' h' rfl
    obtain rfl := (List.cons.inj h2).1
    exact .inr ⟨zs', by simp, h1⟩

/-- A run cut before one of its transitions is a run up to it, and the transition is a step. -/
theorem Run.split {τ τ₁ τ₂ : List (Transition σ α)} {t : Transition σ α} {s : σ}
    (h : S.Run τ s) (heq : τ = τ₁ ++ t :: τ₂) :
    S.Run τ₁ t.pre ∧ S.step t.pre t.act t.post := by
  induction h generalizing τ₂ with
  | start => simp at heq
  | next hr hs ih =>
    obtain ⟨rfl, rfl, -⟩ | ⟨τ₃, -, h⟩ := concat_eq_append_cons heq
    · exact ⟨hr, hs⟩
    · exact ih h

/-- Every prefix of a run is a run to the state its last transition reached. -/
theorem Run.upTo {τ₁ τ₂ : List (Transition σ α)} {t : Transition σ α} {s : σ}
    (h : S.Run (τ₁ ++ t :: τ₂) s) : S.Run (τ₁ ++ [t]) t.post := by
  obtain ⟨h1, h2⟩ := h.split rfl
  exact h1.next h2

/-- A run ends where its last transition leads. -/
theorem Run.final {τ τ₁ τ₂ : List (Transition σ α)} {t : Transition σ α} {s : σ} (h : S.Run τ s)
    (heq : τ = τ₁ ++ t :: τ₂) {q : σ → Prop} (hq : ∀ u ∈ t :: τ₂, q u.post) : q s := by
  cases h with
  | start => simp at heq
  | next hr hs =>
    obtain ⟨-, rfl, -⟩ | ⟨τ₃, rfl, -⟩ := concat_eq_append_cons heq
    · exact hq _ List.mem_cons_self
    · exact hq _ (List.mem_cons_of_mem _ (List.mem_append_right _ List.mem_cons_self))

/-- What every step keeps holds from the first point on at which it holds. -/
theorem Run.stable {q : σ → Prop} (hq : ∀ s a s', S.step s a s' → q s → q s')
    {τ τ₁ τ₂ : List (Transition σ α)} {t : Transition σ α} {s : σ} (h : S.Run τ s)
    (heq : τ = τ₁ ++ t :: τ₂) (ht : q t.pre) : (∀ u ∈ t :: τ₂, q u.pre) ∧ q s := by
  induction h generalizing τ₂ with
  | start => simp at heq
  | next hr hs ih =>
    obtain ⟨rfl, rfl, rfl⟩ | ⟨τ₃, rfl, h⟩ := concat_eq_append_cons heq
    · exact ⟨by simpa using ht, hq _ _ _ hs ht⟩
    · obtain ⟨hall, hlast⟩ := ih h
      refine ⟨fun u hu => ?_, hq _ _ _ hs hlast⟩
      rw [← List.cons_append, List.mem_append, List.mem_singleton] at hu
      obtain hu | rfl := hu
      · exact hall u hu
      · exact hlast

/-- In the history, a transition meets `p` at a point where `A` holds of what came before. -/
def After (A : List (Transition σ α) → Prop) (p : Transition σ α → Prop)
    (τ : List (Transition σ α)) : Prop :=
  ∃ τ₁ t τ₂, τ = τ₁ ++ t :: τ₂ ∧ A τ₁ ∧ p t

section After

variable {A : List (Transition σ α) → Prop} {p : Transition σ α → Prop}
  {τ : List (Transition σ α)}

theorem After.append (h : After A p τ) (τ' : List (Transition σ α)) : After A p (τ ++ τ') := by
  obtain ⟨τ₁, t, τ₂, rfl, hA, hp⟩ := h
  exact ⟨τ₁, t, τ₂ ++ τ', by simp, hA, hp⟩

theorem After.last {t : Transition σ α} (hA : A τ) (hp : p t) : After A p (τ ++ [t]) :=
  ⟨τ, t, [], rfl, hA, hp⟩

/-- What held before an ordered event still holds of the whole history, if histories only
gain. -/
theorem After.before (h : After A p τ) (hA : ∀ τ τ', A τ → A (τ ++ τ')) : A τ := by
  obtain ⟨τ₁, t, τ₂, rfl, h1, -⟩ := h
  exact hA _ _ h1

end After

/-- Keep the steps that meet `C`. -/
def restrict (S : System σ α) (C : σ → α → σ → Prop) : System σ α where
  init := S.init
  step s a s' := S.step s a s' ∧ C s a s'

theorem Run.of_restrict {C : σ → α → σ → Prop} {τ : List (Transition σ α)} {s : σ}
    (h : (S.restrict C).Run τ s) : S.Run τ s := by
  induction h with
  | start hs => exact .start hs
  | next _ hs ih => exact ih.next hs.1

theorem Reachable.of_restrict {C : σ → α → σ → Prop} {s : σ}
    (h : (S.restrict C).Reachable s) : S.Reachable s := by
  obtain ⟨τ, hτ⟩ := h
  exact hτ.of_restrict.reachable

/-- Every transition of a restricted run meets the condition. -/
theorem Run.restricted {C : σ → α → σ → Prop} {τ : List (Transition σ α)} {s : σ}
    (h : (S.restrict C).Run τ s) : ∀ t ∈ τ, C t.pre t.act t.post := by
  induction h with
  | start => simp
  | next _ hs ih =>
    intro t ht
    obtain ht | ht := List.mem_append.mp ht
    · exact ih t ht
    · obtain rfl := List.mem_singleton.mp ht
      exact hs.2

/-- A run of `S` all of whose transitions meet `C` is a run of the restriction. -/
theorem Run.to_restrict {C : σ → α → σ → Prop} {τ : List (Transition σ α)} {s : σ}
    (h : S.Run τ s) (hC : ∀ t ∈ τ, C t.pre t.act t.post) : (S.restrict C).Run τ s := by
  induction h with
  | start hs => exact .start hs
  | next _ hs ih =>
    refine .next (ih fun t ht => hC t (by simp [ht])) ⟨hs, ?_⟩
    exact hC ⟨_, _, _⟩ (by simp)

/-- The runs that go on from `s`. -/
def startingAt (S : System σ α) (s : σ) : System σ α := { S with init := (· = s) }

/-- Reachability is carried along a map that sends steps to runs of steps. -/
theorem Reachable.map {σ' : Type w} {α' : Type v} {S' : System σ' α'} (f : σ → σ')
    (init : ∀ s, S.init s → S'.Reachable (f s))
    (step : ∀ s a s', S.Reachable s → S'.Reachable (f s) → S.step s a s' → S'.Reachable (f s'))
    {s : σ} (h : S.Reachable s) : S'.Reachable (f s) :=
  h.invariant (I := fun s => S'.Reachable (f s)) init step

/-- Run a list of labels through an executable step. -/
def exec (step : σ → α → Option σ) : σ → List α → Option σ
  | s, [] => some s
  | s, a :: as => (step s a).bind fun s' => exec step s' as

theorem exec_append (step : σ → α → Option σ) (s : σ) (as bs : List α) :
    exec step s (as ++ bs) = (exec step s as).bind fun s' => exec step s' bs := by
  induction as generalizing s with
  | nil => rfl
  | cons a as ih => simp [exec, ih, Option.bind_assoc]

/-- An execution that ends where `p` holds. -/
theorem exists_of_exec {step : σ → α → Option σ} {s : σ} {as : List α} {p : σ → Bool}
    (h : (exec step s as).any p = true) : ∃ s', exec step s as = some s' ∧ p s' = true := by
  cases he : exec step s as with
  | none => simp [he] at h
  | some s' => exact ⟨s', rfl, by simpa [he] using h⟩

/-- The transitions an execution takes. -/
def trace (step : σ → α → Option σ) : σ → List α → List (Transition σ α)
  | _, [] => []
  | s, a :: as =>
    match step s a with
    | none => []
    | some s' => ⟨s, a, s'⟩ :: trace step s' as

theorem act_mem_of_mem_trace {step : σ → α → Option σ} {s : σ} {as : List α}
    {t : Transition σ α} (h : t ∈ trace step s as) : t.act ∈ as := by
  induction as generalizing s with
  | nil => cases h
  | cons a as ih =>
    simp only [trace] at h
    split at h
    · cases h
    · obtain rfl | h := List.mem_cons.mp h
      · exact List.mem_cons_self
      · exact List.mem_cons_of_mem _ (ih h)

/-- A successful execution takes every step. -/
theorem map_act_trace {step : σ → α → Option σ} {s s' : σ} {as : List α}
    (h : exec step s as = some s') : (trace step s as).map (·.act) = as := by
  induction as generalizing s with
  | nil => rfl
  | cons a as ih =>
    obtain ⟨u, hu, h⟩ := Option.bind_eq_some_iff.mp h
    simp [trace, hu, ih h]

/-- A successful execution extends a run. -/
theorem Run.exec {step : σ → α → Option σ}
    (hstep : ∀ s a s', step s a = some s' → S.step s a s') {τ : List (Transition σ α)} {s s' : σ}
    {as : List α} (h : S.Run τ s) (he : System.exec step s as = some s') :
    S.Run (τ ++ trace step s as) s' := by
  induction as generalizing τ s with
  | nil =>
    simp only [System.exec, Option.some.injEq] at he
    subst he
    simpa [trace] using h
  | cons a as ih =>
    obtain ⟨u, hu, hr⟩ := Option.bind_eq_some_iff.mp he
    simpa [trace, hu] using ih (h.next (hstep _ _ _ hu)) hr

end System
