import Mathlib.Data.Finset.Sort

/-!
# Replicated arrays

A replicated array is a set of elements of a total order: an element is integrated once and
for good, and removing it leaves a tombstone. Replicas merge by union, so the visible array
is what was integrated and not removed, in the order of the elements.

`Retains k` says that nothing is removed before `k` younger elements are there: what a replica
that only removes from the front of a long array keeps, whatever it merges.
-/

universe u

/-- The elements a replica integrated, and its tombstones. -/
@[ext]
structure TombSet (E : Type u) where
  added : Finset E
  removed : Finset E
  deriving DecidableEq

namespace TombSet

variable {E : Type u}

section Merge

variable [DecidableEq E]

instance : EmptyCollection (TombSet E) := ⟨⟨∅, ∅⟩⟩

/-- Merging two replicas. -/
def merge (d u : TombSet E) : TombSet E := ⟨d.added ∪ u.added, d.removed ∪ u.removed⟩

/-- Everything of `u` is part of `d`. -/
def Covers (d u : TombSet E) : Prop := u.added ⊆ d.added ∧ u.removed ⊆ d.removed

instance (d u : TombSet E) : Decidable (d.Covers u) := inferInstanceAs (Decidable (_ ∧ _))

def visible (d : TombSet E) : Finset E := d.added \ d.removed

omit [DecidableEq E] in
@[simp] theorem added_empty : (∅ : TombSet E).added = ∅ := rfl
omit [DecidableEq E] in
@[simp] theorem removed_empty : (∅ : TombSet E).removed = ∅ := rfl
@[simp] theorem added_merge (d u : TombSet E) : (d.merge u).added = d.added ∪ u.added := rfl
@[simp] theorem removed_merge (d u : TombSet E) : (d.merge u).removed = d.removed ∪ u.removed := rfl

@[simp] theorem mem_visible {d : TombSet E} {x : E} :
    x ∈ d.visible ↔ x ∈ d.added ∧ x ∉ d.removed := Finset.mem_sdiff

/-- What is covered already may be merged again. -/
theorem Covers.merge_merge {d n : TombSet E} (h : d.Covers n) (u : TombSet E) :
    d.merge (n.merge u) = d.merge u := by
  ext x
  · have := @h.1 x
    simp only [added_merge, Finset.mem_union]
    tauto
  · have := @h.2 x
    simp only [removed_merge, Finset.mem_union]
    tauto

/-- What a merge shows: the survivors of the one side and the newcomers of the other. -/
theorem card_visible_merge (d u : TombSet E) :
    (d.merge u).visible.card =
      (d.visible \ u.removed).card + (u.visible \ (d.added ∪ d.removed)).card := by
  rw [← Finset.card_union_of_disjoint]
  · congr 1
    ext x
    simp only [mem_visible, added_merge, removed_merge, Finset.mem_union, Finset.mem_sdiff]
    tauto
  · refine Finset.disjoint_left.mpr fun x hx hx' => ?_
    simp only [Finset.mem_sdiff, mem_visible, Finset.mem_union] at hx hx'
    exact hx'.2 (.inl hx.1.1)

end Merge

section Order

variable [LinearOrder E]

/-- The visible array. -/
def toList (d : TombSet E) : List E := d.visible.sort

/-- All elements ever integrated, in the order of the array. -/
def integrated (d : TombSet E) : List E := d.added.sort

/-- Integrate one more element. -/
def push (d : TombSet E) (e : E) : TombSet E := ⟨insert e d.added, d.removed⟩

/-- `remove_range`: tombstones for the visible elements from `index` on. -/
def removeRange (d : TombSet E) (index len : Nat) : TombSet E :=
  ⟨d.added, d.removed ∪ ((d.toList.drop index).take len).toFinset⟩

/-- Every tombstone is followed by at least `k` integrated elements. -/
def Retains (k : Nat) (d : TombSet E) : Prop :=
  ∀ x ∈ d.removed, x ∈ d.added ∧ k ≤ (d.added.filter (x < ·)).card

@[simp] theorem mem_toList {d : TombSet E} {x : E} :
    x ∈ d.toList ↔ x ∈ d.added ∧ x ∉ d.removed := by
  simp [toList]

@[simp] theorem length_toList (d : TombSet E) : d.toList.length = d.visible.card := by
  simp [toList]

theorem sorted_toList (d : TombSet E) : d.toList.Pairwise (· < ·) :=
  (Finset.sortedLT_sort d.visible).pairwise

/-- A strictly increasing list of the visible elements is the visible array. -/
theorem toList_eq {d : TombSet E} {l : List E} (hl : l.Pairwise (· < ·))
    (hm : ∀ x, x ∈ l ↔ x ∈ d.added ∧ x ∉ d.removed) : d.toList = l := by
  have hs : l.toFinset = d.visible := by
    ext x
    simp [hm]
  rw [toList, ← hs]
  exact (List.toFinset_sort (· ≤ ·) (hl.imp ne_of_lt)).mpr (hl.imp le_of_lt)

/-- A new element after all the visible ones is the last of the array. -/
theorem toList_push {d : TombSet E} {e : E} (hr : e ∉ d.removed)
    (hlast : ∀ x ∈ d.toList, x < e) : (d.push e).toList = d.toList ++ [e] := by
  refine toList_eq ?_ fun x => ?_
  · exact List.pairwise_append.mpr
      ⟨d.sorted_toList, List.pairwise_singleton _ _, by simpa using hlast⟩
  · simp only [List.mem_append, mem_toList, List.mem_singleton, push, Finset.mem_insert]
    by_cases hx : x = e
    · simp [hx, hr]
    · simp [hx]

/-- Removing the front leaves the rest. -/
theorem toList_removeRange_zero (d : TombSet E) (n : Nat) :
    (d.removeRange 0 n).toList = d.toList.drop n := by
  have hs := d.sorted_toList
  have hsplit := List.take_append_drop n d.toList
  refine toList_eq (hs.drop) fun x => ?_
  have hnd : (d.toList.take n ++ d.toList.drop n).Nodup := by
    rw [hsplit]
    exact hs.imp ne_of_lt
  have hdisj := List.disjoint_of_nodup_append hnd
  have hmem : x ∈ d.toList ↔ x ∈ d.toList.take n ∨ x ∈ d.toList.drop n := by
    rw [← List.mem_append, hsplit]
  have hx := @hdisj x
  simp only [mem_toList] at hmem
  simp only [removeRange, List.drop_zero, Finset.mem_union, List.mem_toFinset]
  tauto

theorem retains_empty (k : Nat) : (∅ : TombSet E).Retains k := fun x hx => by cases hx

theorem Retains.merge {k : Nat} {d u : TombSet E} (hd : d.Retains k) (hu : u.Retains k) :
    (d.merge u).Retains k := by
  have more {v : TombSet E} (hv : v.Retains k) (hsub : v.added ⊆ (d.merge u).added) {x : E}
      (hx : x ∈ v.removed) :
      x ∈ (d.merge u).added ∧ k ≤ ((d.merge u).added.filter (x < ·)).card := by
    obtain ⟨ha, hk⟩ := hv x hx
    exact ⟨hsub ha, hk.trans (Finset.card_le_card (Finset.filter_subset_filter _ hsub))⟩
  intro x hx
  obtain hx | hx := Finset.mem_union.mp hx
  · exact more hd Finset.subset_union_left hx
  · exact more hu Finset.subset_union_right hx

theorem Retains.push {k : Nat} {d : TombSet E} (h : d.Retains k) (e : E) :
    (d.push e).Retains k := by
  intro x hx
  obtain ⟨ha, hk⟩ := h x hx
  refine ⟨Finset.mem_insert_of_mem ha, hk.trans (Finset.card_le_card ?_)⟩
  exact Finset.filter_subset_filter _ (Finset.subset_insert e d.added)

/-- The front may be removed as long as `k` visible elements are left. -/
theorem Retains.removeRange_zero {k n : Nat} {d : TombSet E} (h : d.Retains k)
    (hn : n + k ≤ d.toList.length) : (d.removeRange 0 n).Retains k := by
  intro x hx
  simp only [removeRange, List.drop_zero, Finset.mem_union, List.mem_toFinset] at hx
  obtain hx | hx := hx
  · exact h x hx
  have hs := d.sorted_toList
  rw [← List.take_append_drop n d.toList, List.pairwise_append] at hs
  have hadded {y : E} (hy : y ∈ d.toList) : y ∈ d.added := (mem_toList.mp hy).1
  refine ⟨hadded (List.mem_of_mem_take hx), ?_⟩
  -- The visible elements that are left come after what is removed.
  have hrest : (d.toList.drop n).toFinset ⊆ d.added.filter (x < ·) := by
    intro y hy
    have hy := List.mem_toFinset.mp hy
    exact Finset.mem_filter.mpr ⟨hadded (List.mem_of_mem_drop hy), hs.2.2 x hx y hy⟩
  have hcard : (d.toList.drop n).toFinset.card = d.toList.length - n := by
    rw [List.toFinset_card_of_nodup (hs.2.1.imp ne_of_lt), List.length_drop]
  calc k ≤ d.toList.length - n := by omega
    _ = (d.toList.drop n).toFinset.card := hcard.symm
    _ ≤ _ := Finset.card_le_card hrest

/-- The last `k` elements ever integrated are still visible. -/
theorem Retains.last_visible {k : Nat} {d : TombSet E} (h : d.Retains k) {x : E}
    (hx : x ∈ d.integrated.drop (d.integrated.length - k)) : x ∈ d.toList := by
  have hmem {y : E} : y ∈ d.integrated ↔ y ∈ d.added := Finset.mem_sort _
  refine mem_toList.mpr ⟨hmem.mp (List.mem_of_mem_drop hx), fun hr => ?_⟩
  have hs : d.integrated.Pairwise (· < ·) := (Finset.sortedLT_sort d.added).pairwise
  rw [← List.take_append_drop (d.integrated.length - k) d.integrated, List.pairwise_append] at hs
  -- Whatever comes after `x` is among the last `k`, and so is `x`.
  have hlate : d.added.filter (x < ·) ⊆
      (d.integrated.drop (d.integrated.length - k)).toFinset.erase x := by
    intro y hy
    obtain ⟨hy, hxy⟩ := Finset.mem_filter.mp hy
    refine Finset.mem_erase.mpr ⟨ne_of_gt hxy, List.mem_toFinset.mpr ?_⟩
    rw [← hmem, ← List.take_append_drop (d.integrated.length - k) d.integrated] at hy
    obtain hy | hy := List.mem_append.mp hy
    · exact absurd hxy (lt_asymm (hs.2.2 y hy x hx))
    · exact hy
  refine absurd (h x hr).2 (Nat.not_le.mpr ?_)
  calc (d.added.filter (x < ·)).card
      ≤ ((d.integrated.drop (d.integrated.length - k)).toFinset.erase x).card :=
        Finset.card_le_card hlate
    _ < (d.integrated.drop (d.integrated.length - k)).toFinset.card :=
        Finset.card_erase_lt_of_mem (List.mem_toFinset.mpr hx)
    _ ≤ (d.integrated.drop (d.integrated.length - k)).length := List.toFinset_card_le _
    _ ≤ k := by
        rw [List.length_drop]
        omega

/-- The last visible element comes after everything ever integrated. -/
theorem Retains.le_last {k : Nat} {d : TombSet E} (h : d.Retains k) (hk : 0 < k) {y : E}
    (hy : d.toList.getLast? = some y) {x : E} (hx : x ∈ d.added) : x ≤ y := by
  have hne : d.added.Nonempty := ⟨x, hx⟩
  have hmax : d.added.max' hne ∈ d.toList := by
    refine mem_toList.mpr ⟨d.added.max'_mem hne, fun hr => ?_⟩
    -- A tombstone would be followed by a younger element.
    obtain ⟨z, hz⟩ := Finset.card_pos.mp (hk.trans_le (h _ hr).2)
    obtain ⟨hz, hlt⟩ := Finset.mem_filter.mp hz
    exact absurd (d.added.le_max' z hz) (not_le.mpr hlt)
  obtain ⟨l, hl⟩ := List.getLast?_eq_some_iff.mp hy
  have hs := d.sorted_toList
  rw [hl] at hmax hs
  refine (d.added.le_max' x hx).trans ?_
  obtain hmem | hmem := List.mem_append.mp hmax
  · exact ((List.pairwise_append.mp hs).2.2 _ hmem y (List.mem_singleton_self y)).le
  · exact (List.mem_singleton.mp hmem).le

end Order

end TombSet
