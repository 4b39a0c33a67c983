import Mathlib.Data.List.Basic
import Mathlib.Data.List.Induction

/-!
# Machines and what an observer sees of them

A `Machine` takes inputs and makes outputs. An observer sees some of the outputs and has no
business with some of the inputs. `purge` takes these out of an input, and `Purges` is the
unwinding condition: an input and what is left of it take states the observer cannot tell
apart to such states, and show him the same. Then two input sequences with one purge look
the same.
-/

universe u v w x

/-- A property that holds of nothing and of each further input exactly unless the input is bad
holds of every prefix if and only if no input is bad when it comes. -/
theorem forall_prefix_iff {ι : Type v} {I : List ι → Prop} {Bad : List ι → ι → Prop} (nil : I [])
    (step : ∀ is i, I is → (I (is ++ [i]) ↔ ¬ Bad is i)) (is : List ι) :
    (∀ pre, pre <+: is → I pre) ↔ ∀ pre i post, is = pre ++ i :: post → ¬ Bad pre i := by
  constructor
  · rintro h pre i post rfl
    refine (step pre i (h pre (List.prefix_append _ _))).mp (h _ ?_)
    exact ⟨post, by simp⟩
  · rintro h pre ⟨post, rfl⟩
    induction pre using List.reverseRecOn generalizing post with
    | nil => exact nil
    | append_singleton pre i ih =>
      have hpre := ih (i :: post) fun pre' j post' heq => h pre' j post' (by simpa using heq)
      exact (step pre i hpre).mpr (h pre i post (by simp))

/-- A machine with inputs `ι` and outputs `ο`. -/
structure Machine (σ : Type u) (ι : Type v) (ο : Type w) where
  next : σ → ι → σ
  out : σ → ι → List ο

namespace Machine

variable {σ : Type u} {ι : Type v} {ο : Type w} {β : Type x} (M : Machine σ ι ο)

/-- The state after a sequence of inputs. -/
def after (s : σ) (is : List ι) : σ := is.foldl M.next s

/-- All outputs, in order. -/
def outputs : σ → List ι → List ο
  | _, [] => []
  | s, i :: is => M.out s i ++ outputs (M.next s i) is

@[simp] theorem after_nil (s : σ) : M.after s [] = s := rfl

@[simp] theorem after_cons (s : σ) (i : ι) (is : List ι) :
    M.after s (i :: is) = M.after (M.next s i) is := rfl

@[simp] theorem after_append (s : σ) (is js : List ι) :
    M.after s (is ++ js) = M.after (M.after s is) js :=
  List.foldl_append

@[simp] theorem outputs_nil (s : σ) : M.outputs s [] = [] := rfl

@[simp] theorem outputs_cons (s : σ) (i : ι) (is : List ι) :
    M.outputs s (i :: is) = M.out s i ++ M.outputs (M.next s i) is := rfl

@[simp] theorem outputs_append (s : σ) (is js : List ι) :
    M.outputs s (is ++ js) = M.outputs s is ++ M.outputs (M.after s is) js := by
  induction is generalizing s with
  | nil => rfl
  | cons i is ih => simp [ih]

/-- The induction rule for what relates the inputs, the state they lead to and the outputs. -/
theorem history {I : List ι → σ → List ο → Prop} {s : σ} (init : I [] s [])
    (step : ∀ is i, I is (M.after s is) (M.outputs s is) →
      I (is ++ [i]) (M.next (M.after s is) i) (M.outputs s is ++ M.out (M.after s is) i))
    (is : List ι) : I is (M.after s is) (M.outputs s is) := by
  induction is using List.reverseRecOn with
  | nil => exact init
  | append_singleton is i ih => simpa using step is i ih

/-- The unwinding condition, for inputs that meet `p`: `R` relates the states the observer
cannot tell apart and `sees` is what he sees of an output. -/
structure Purges (purge : ι → List ι) (p : ι → Prop) (sees : ο → Option β) (R : σ → σ → Prop) :
    Prop where
  next {s s' : σ} {i : ι} : p i → R s s' → R (M.next s i) (M.after s' (purge i))
  out {s s' : σ} {i : ι} : p i → R s s' →
    (M.out s i).filterMap sees = (M.outputs s' (purge i)).filterMap sees

namespace Purges

variable {M} {purge : ι → List ι} {p : ι → Prop} {sees : ο → Option β} {R : σ → σ → Prop}

/-- The observer does not notice a purge. -/
theorem outputs_eq (h : M.Purges purge p sees R) {s s' : σ} {is : List ι} (hs : R s s')
    (hp : ∀ i ∈ is, p i) :
    (M.outputs s is).filterMap sees = (M.outputs s' (is.flatMap purge)).filterMap sees := by
  induction is generalizing s s' with
  | nil => rfl
  | cons i is ih =>
    have hi := hp i List.mem_cons_self
    have hrest := ih (h.next hi hs) fun j hj => hp j (List.mem_cons_of_mem _ hj)
    rw [outputs_cons, List.flatMap_cons, outputs_append, List.filterMap_append,
      List.filterMap_append, h.out hi hs, hrest]

/-- Input sequences that differ only in what is purged look the same. -/
theorem indistinguishable (h : M.Purges purge p sees R) (refl : ∀ s, R s s) {s₁ s₂ : σ}
    {is₁ is₂ : List ι} (hs : R s₁ s₂) (h₁ : ∀ i ∈ is₁, p i) (h₂ : ∀ i ∈ is₂, p i)
    (heq : is₁.flatMap purge = is₂.flatMap purge) :
    (M.outputs s₁ is₁).filterMap sees = (M.outputs s₂ is₂).filterMap sees := by
  rw [h.outputs_eq hs h₁, heq, h.outputs_eq (refl s₂) h₂]

end Purges

end Machine
