import Yoink.Library.FinMap
import Yoink.Library.SortedList
import Mathlib.Data.Finset.Sort

/-!
# Tallies

Counting into a finite map, one occurrence at a time, and listing a finite map by its keys, which
hides the order of its entries. A set has an iteration for every order of its elements.
-/

universe u v

/-- An order in which a set may be iterated. -/
structure Iteration {α : Type u} (s : Finset α) where
  list : List α
  nodup : list.Nodup
  mem : ∀ a, a ∈ list ↔ a ∈ s

namespace Iteration

variable {α : Type u} {s : Finset α}

theorem perm (o o' : Iteration s) : o.list.Perm o'.list :=
  (List.perm_ext_iff_of_nodup o.nodup o'.nodup).mpr fun a => by rw [o.mem, o'.mem]

/-- The iteration of a set that is kept sorted. -/
def sorted (r : α → α → Prop) [DecidableRel r] [IsTrans α r] [Std.Antisymm r] [Std.Total r]
    (s : Finset α) : Iteration s :=
  ⟨s.sort r, s.sort_nodup r, fun _ => s.mem_sort r⟩

end Iteration

namespace FinMap

variable {K : Type u} {V : Type v}

section Bump

variable [DecidableEq K]

/-- Count one more of `k`, from zero. -/
def bump (m : FinMap K Nat) (k : K) : FinMap K Nat :=
  AList.insert k ((AList.lookup k m).getD 0 + 1) m

theorem lookup_foldl_bump (ks : List K) (m : FinMap K Nat) (k : K) :
    AList.lookup k (ks.foldl bump m) =
      if k ∈ ks then some ((AList.lookup k m).getD 0 + ks.count k) else AList.lookup k m := by
  induction ks generalizing m with
  | nil => simp
  | cons k' ks ih =>
    rw [List.foldl_cons, ih, bump, lookup_insert_ite, List.count_cons]
    by_cases hk : k = k'
    · subst hk
      by_cases hks : k ∈ ks
      · simp [hks]
        omega
      · simp [hks, List.count_eq_zero_of_not_mem hks]
    · simp [hk, Ne.symm hk]

end Bump

section Listing

variable [LinearOrder K]

/-- The entries in the order of their keys. -/
def sortedPairs (m : FinMap K V) : List (K × V) := SortedList.sortOn Prod.fst m.toPairs

theorem sortedLT_sortedPairs (m : FinMap K V) : (m.sortedPairs.map Prod.fst).SortedLT :=
  SortedList.sortedLT_sortOn (keys_eq_toPairs m ▸ m.keys_nodup)

theorem mem_sortedPairs {m : FinMap K V} {k : K} {v : V} :
    (k, v) ∈ m.sortedPairs ↔ AList.lookup k m = some v := by
  rw [sortedPairs, (SortedList.sortOn_perm _ _).mem_iff, mem_toPairs]

theorem sortedPairs_congr {m m' : FinMap K V} (h : ∀ k, AList.lookup k m = AList.lookup k m') :
    m.sortedPairs = m'.sortedPairs := by
  have hnodup (m : FinMap K V) : (m.toPairs.map Prod.fst).Nodup :=
    keys_eq_toPairs m ▸ m.keys_nodup
  refine SortedList.sortOn_congr ?_ (hnodup m)
  refine (List.perm_ext_iff_of_nodup (.of_map _ (hnodup m)) (.of_map _ (hnodup m'))).mpr ?_
  rintro ⟨k, v⟩
  rw [mem_toPairs, mem_toPairs, h k]

end Listing

end FinMap
