import Mathlib.Data.List.Destutter
import Mathlib.Data.List.Sort

/-!
# Sorted lists without duplicates

A set kept as a strictly sorted list: a binary search that either finds an element or says
where to insert it, and the sort that turns any list into such a set. The search halves
its window until one element is left and compares only that one for equality.
-/

universe u v

namespace SortedList

variable {α : Type u} [LinearOrder α]

/-- The loop of the search: halve the window of `size` elements from `base` on. `fuel` bounds
the number of halvings. -/
def searchLoop (xs : List α) (x : α) : Nat → Nat → Nat → Nat
  | 0, base, _ => base
  | fuel + 1, base, size =>
    if 1 < size then
      let half := size / 2
      let mid := base + half
      searchLoop xs x fuel (if xs[mid]?.any (x < ·) then base else mid) (size - half)
    else base

/-- The index of `x`, or the index at which to insert it. -/
def binarySearch (xs : List α) (x : α) : Except Nat Nat :=
  let base := searchLoop xs x xs.length 0 xs.length
  match xs[base]? with
  | none => .error 0
  | some y => if y = x then .ok base else if y < x then .error (base + 1) else .error base

/-- Sort, then drop the adjacent duplicates. -/
def sortDedup (xs : List α) : List α :=
  (xs.insertionSort (· ≤ ·)).destutter (· ≠ ·)

theorem sortedLT_sortDedup (xs : List α) : (sortDedup xs).SortedLT := by
  rw [sortDedup, List.sortedLE_insertionSort.pairwise.destutter_eq_dedup]
  have hle : ((xs.insertionSort (· ≤ ·)).dedup).Pairwise (· ≤ ·) :=
    List.sortedLE_insertionSort.pairwise.sublist (List.dedup_sublist _)
  refine List.sortedLT_iff_pairwise.mpr ?_
  exact (hle.and (List.nodup_dedup _)).imp fun h => lt_of_le_of_ne h.1 h.2

theorem mem_sortDedup {xs : List α} {x : α} : x ∈ sortDedup xs ↔ x ∈ xs := by
  rw [sortDedup, List.sortedLE_insertionSort.pairwise.destutter_eq_dedup, List.mem_dedup,
    List.mem_insertionSort]

/-- Only the elements matter, not their order or how often they occur. -/
theorem sortDedup_congr {xs ys : List α} (h : ∀ x, x ∈ xs ↔ x ∈ ys) :
    sortDedup xs = sortDedup ys :=
  (sortedLT_sortDedup xs).eq_of_mem_iff (sortedLT_sortDedup ys) fun x => by
    rw [mem_sortDedup, mem_sortDedup, h x]

/-- A list that is strictly sorted already stays as it is. -/
theorem sortDedup_of_sortedLT {xs : List α} (h : xs.SortedLT) : sortDedup xs = xs :=
  (sortedLT_sortDedup xs).eq_of_mem_iff h fun _ => mem_sortDedup

section SortOn

variable {β : Type v} (key : β → α)

/-- A stable sort by a key. -/
def sortOn (xs : List β) : List β := xs.insertionSort fun a b => key a ≤ key b

theorem sortOn_perm (xs : List β) : (sortOn key xs).Perm xs := List.perm_insertionSort _ xs

theorem pairwise_sortOn (xs : List β) : (sortOn key xs).Pairwise fun a b => key a ≤ key b := by
  have : Std.Total fun a b : β => key a ≤ key b := ⟨fun a b => le_total (key a) (key b)⟩
  have : IsTrans β fun a b => key a ≤ key b := ⟨fun _ _ _ => le_trans⟩
  exact List.pairwise_insertionSort _ xs

variable {key}

theorem sortedLT_sortOn {xs : List β} (h : (xs.map key).Nodup) :
    ((sortOn key xs).map key).SortedLT := by
  have hn : ((sortOn key xs).map key).Nodup := ((sortOn_perm key xs).map key).nodup_iff.mpr h
  have hle : ((sortOn key xs).map key).Pairwise (· ≤ ·) :=
    List.pairwise_map.mpr (pairwise_sortOn key xs)
  exact List.sortedLT_iff_pairwise.mpr ((hle.and hn).imp fun h => lt_of_le_of_ne h.1 h.2)

/-- With distinct keys, the order the elements came in is lost. -/
theorem sortOn_congr {xs ys : List β} (hp : xs.Perm ys) (h : (xs.map key).Nodup) :
    sortOn key xs = sortOn key ys := by
  have hperm : (sortOn key xs).Perm (sortOn key ys) :=
    (sortOn_perm key xs).trans (hp.trans (sortOn_perm key ys).symm)
  refine hperm.eq_of_pairwise (fun a b ha hb hab hba => ?_) (pairwise_sortOn key xs)
    (pairwise_sortOn key ys)
  have ha := (sortOn_perm key xs).mem_iff.mp ha
  have hb := hp.mem_iff.mpr ((sortOn_perm key ys).mem_iff.mp hb)
  exact List.inj_on_of_nodup_map h ha hb (le_antisymm hab hba)

end SortOn

section Search

variable {xs : List α} {x : α}

theorem getElem_lt (h : xs.SortedLT) {i j : Nat} {y z : α} (hij : i < j)
    (hi : xs[i]? = some y) (hj : xs[j]? = some z) : y < z := by
  obtain ⟨_, rfl⟩ := List.getElem?_eq_some_iff.mp hi
  obtain ⟨_, rfl⟩ := List.getElem?_eq_some_iff.mp hj
  exact h.getElem_lt_getElem_of_lt hij

/-- What lies before the window is smaller than `x`, what lies behind it is larger. -/
structure Window (xs : List α) (x : α) (base size : Nat) : Prop where
  below : ∀ i y, i < base → xs[i]? = some y → y < x
  above : ∀ i y, base + size ≤ i → xs[i]? = some y → x < y

theorem searchLoop_window (hs : xs.SortedLT) {fuel base size : Nat} (hw : Window xs x base size)
    (hlen : base + size ≤ xs.length) (hpos : 0 < size) (hfuel : size ≤ fuel + 1) :
    Window xs x (searchLoop xs x fuel base size) 1 ∧
      searchLoop xs x fuel base size < xs.length := by
  induction fuel generalizing base size with
  | zero =>
    obtain rfl : size = 1 := by omega
    exact ⟨hw, hlen⟩
  | succ fuel ih =>
    rw [searchLoop]
    split
    · have hmid : base + size / 2 < xs.length := by omega
      have hy : xs[base + size / 2]? = some xs[base + size / 2] := List.getElem?_eq_getElem hmid
      simp only [hy, Option.any_some, decide_eq_true_eq]
      split
      · -- The middle is too large, and so is all that follows it.
        rename_i hlt
        refine ih ⟨hw.below, fun i z hi hz => ?_⟩ (by omega) (by omega) (by omega)
        obtain rfl | hi := Nat.eq_or_lt_of_le (show base + size / 2 ≤ i by omega)
        · obtain rfl := Option.some.inj (hy.symm.trans hz)
          exact hlt
        · exact hlt.trans (getElem_lt hs hi hy hz)
      · rename_i hle
        refine ih ⟨fun i z hi hz => ?_, fun i z hi hz => hw.above i z (by omega) hz⟩
          (by omega) (by omega) (by omega)
        exact (getElem_lt hs hi hz hy).trans_le (not_lt.mp hle)
    · obtain rfl : size = 1 := by omega
      exact ⟨hw, by omega⟩

/-- An `ok` is the index of `x`. -/
theorem binarySearch_ok {i : Nat} (h : binarySearch xs x = .ok i) : xs[i]? = some x := by
  simp only [binarySearch] at h
  split at h
  · cases h
  · split at h
    · cases h
      simp_all
    · split at h <;> cases h

theorem window_full (xs : List α) (x : α) : Window xs x 0 xs.length where
  below i y hi := absurd hi (Nat.not_lt_zero i)
  above i y hi hy := by simp [List.getElem?_eq_none (Nat.zero_add xs.length ▸ hi)] at hy

/-- On a sorted list, an `error` splits it into what is smaller and what is larger than `x`. -/
theorem binarySearch_error (hs : xs.SortedLT) {i : Nat} (h : binarySearch xs x = .error i) :
    Window xs x i 0 ∧ i ≤ xs.length := by
  obtain rfl | hpos := xs.length.eq_zero_or_pos.imp_left List.eq_nil_of_length_eq_zero
  · cases h
    exact ⟨⟨by simp, by simp⟩, by simp⟩
  obtain ⟨hw, hlt⟩ := searchLoop_window hs (window_full xs x) (by simp) hpos (Nat.le_succ _)
  simp only [binarySearch] at h
  generalize searchLoop xs x xs.length 0 xs.length = base at h hw hlt
  have hy : xs[base]? = some xs[base] := List.getElem?_eq_getElem hlt
  simp only [hy] at h
  split at h
  · cases h
  rename_i hne
  split at h
  · rename_i hlt'
    cases h
    refine ⟨⟨fun j z hj hz => ?_, hw.above⟩, hlt⟩
    obtain rfl | hj := Nat.eq_or_lt_of_le (Nat.le_of_lt_succ hj)
    · obtain rfl := Option.some.inj (hy.symm.trans hz)
      exact hlt'
    · exact (getElem_lt hs hj hz hy).trans hlt'
  · rename_i hle
    have hgt : x < xs[base] := lt_of_le_of_ne (not_lt.mp hle) (Ne.symm hne)
    cases h
    refine ⟨⟨hw.below, fun j z hj hz => ?_⟩, hlt.le⟩
    obtain rfl | hj := Nat.eq_or_lt_of_le hj
    · obtain rfl := Option.some.inj (hy.symm.trans hz)
      exact hgt
    · exact hgt.trans (getElem_lt hs hj hy hz)

theorem mem_of_binarySearch_ok {i : Nat} (h : binarySearch xs x = .ok i) : x ∈ xs :=
  List.mem_of_getElem? (binarySearch_ok h)

theorem not_mem_of_binarySearch_error (hs : xs.SortedLT) {i : Nat}
    (h : binarySearch xs x = .error i) : x ∉ xs := by
  obtain ⟨hw, -⟩ := binarySearch_error hs h
  intro hx
  obtain ⟨j, hj⟩ := List.mem_iff_getElem?.mp hx
  obtain hlt | hle := Nat.lt_or_ge j i
  · exact lt_irrefl x (hw.below j x hlt hj)
  · exact lt_irrefl x (hw.above j x hle hj)

/-- Inserting where an `error` says keeps the list sorted. -/
theorem sortedLT_insertIdx (hs : xs.SortedLT) {i : Nat} (h : binarySearch xs x = .error i) :
    (xs.insertIdx i x).SortedLT := by
  obtain ⟨hw, hi⟩ := binarySearch_error hs h
  obtain ⟨ys, zs, rfl, rfl, heq⟩ := List.exists_of_modifyTailIdx (List.cons x) hi
  have hlt (y) (hy : y ∈ ys) : y < x := by
    obtain ⟨j, hj⟩ := List.mem_iff_getElem?.mp hy
    have hlen := (List.getElem?_eq_some_iff.mp hj).1
    exact hw.below j y hlen (by rw [List.getElem?_append_left hlen, hj])
  have hgt (z) (hz : z ∈ zs) : x < z := by
    obtain ⟨j, hj⟩ := List.mem_iff_getElem?.mp hz
    refine hw.above (ys.length + j) z (Nat.le_add_right _ _) ?_
    rw [List.getElem?_append_right (Nat.le_add_right _ _), Nat.add_sub_cancel_left, hj]
  rw [List.insertIdx, heq]
  obtain ⟨hys, hzs, hcross⟩ := List.pairwise_append.mp hs.pairwise
  refine List.sortedLT_iff_pairwise.mpr (List.pairwise_append.mpr ⟨hys, ?_, fun y hy z hz => ?_⟩)
  · exact List.pairwise_cons.mpr ⟨hgt, hzs⟩
  · obtain rfl | hz := List.mem_cons.mp hz
    · exact hlt y hy
    · exact hcross y hy z hz

theorem mem_insertIdx (hs : xs.SortedLT) {i : Nat} (h : binarySearch xs x = .error i) {y : α} :
    y ∈ xs.insertIdx i x ↔ y = x ∨ y ∈ xs :=
  List.mem_insertIdx (binarySearch_error hs h).2

end Search

end SortedList
