import Mathlib.Data.List.AList

/-!
# Finite maps with a filter

Association lists with distinct keys stand for the finite maps of a program. The
lookup of every operation is given as a conditional, so that a case split on one key
settles a goal about several updates. Entry order is kept only so that a map can be
iterated; `SameLookups` is equality up to that order.
-/

universe u v w

/-- A finite map from `K` to `V`. -/
abbrev FinMap (K : Type u) (V : Type v) := AList fun _ : K => V

namespace FinMap

variable {K : Type u} {V : Type v} [DecidableEq K]

theorem lookup_insert_ite (m : FinMap K V) (k k' : K) (v : V) :
    AList.lookup k' (AList.insert k v m) = if k' = k then some v else AList.lookup k' m := by
  split_ifs with h
  · subst h; exact AList.lookup_insert m
  · exact AList.lookup_insert_ne h

theorem lookup_erase_ite (m : FinMap K V) (k k' : K) :
    AList.lookup k' (AList.erase k m) = if k' = k then none else AList.lookup k' m := by
  split_ifs with h
  · subst h; exact AList.lookup_erase k' m
  · exact AList.lookup_erase_ne h

/-- The entries whose key satisfies `p`, in the order of `m`. -/
def filter (p : K → Bool) (m : FinMap K V) : FinMap K V :=
  ⟨m.entries.filter fun e => p e.1, m.nodupKeys.sublist List.filter_sublist⟩

/-- The entries as pairs, in iteration order. -/
def toPairs (m : FinMap K V) : List (K × V) :=
  m.entries.map fun e => (e.1, e.2)

theorem mem_toPairs {m : FinMap K V} {k : K} {v : V} :
    (k, v) ∈ m.toPairs ↔ AList.lookup k m = some v := by
  have h : (k, v) ∈ m.toPairs ↔ (⟨k, v⟩ : Sigma fun _ : K => V) ∈ m.entries := by
    unfold toPairs
    constructor
    · intro h
      obtain ⟨⟨k', v'⟩, he, heq⟩ := List.mem_map.mp h
      cases heq
      exact he
    · exact fun h => List.mem_map.mpr ⟨_, h, rfl⟩
  rw [h, ← AList.mem_lookup_iff, Option.mem_def]

theorem lookup_filter (p : K → Bool) (m : FinMap K V) (k : K) :
    AList.lookup k (m.filter p) = if p k then AList.lookup k m else none := by
  have key (v : V) : AList.lookup k (m.filter p) = some v ↔
      p k = true ∧ AList.lookup k m = some v := by
    rw [← Option.mem_def, ← Option.mem_def, AList.mem_lookup_iff, AList.mem_lookup_iff]
    simp [filter, List.mem_filter, and_comm]
  split_ifs with h
  · ext v; simpa [h] using key v
  · rw [Option.eq_none_iff_forall_ne_some]
    intro v hv
    exact h (by simpa using ((key v).mp hv).1)

omit [DecidableEq K] in
theorem keys_eq_toPairs (m : FinMap K V) : m.keys = m.toPairs.map Prod.fst := by
  simp [AList.keys, List.keys, toPairs]

/-- The values, in iteration order. -/
def values (m : FinMap K V) : List V := m.entries.map Sigma.snd

omit [DecidableEq K] in
theorem values_eq_toPairs (m : FinMap K V) : m.values = m.toPairs.map Prod.snd := by
  simp [values, toPairs]

theorem mem_values {m : FinMap K V} {v : V} : v ∈ m.values ↔ ∃ k, AList.lookup k m = some v := by
  rw [values_eq_toPairs]
  constructor
  · intro h
    obtain ⟨⟨k, v⟩, hk, rfl⟩ := List.mem_map.mp h
    exact ⟨k, mem_toPairs.mp hk⟩
  · rintro ⟨k, hk⟩
    exact List.mem_map.mpr ⟨(k, v), mem_toPairs.mpr hk, rfl⟩

/-- Occurrences of `a` in a list made entry by entry, when only the entry of `k` makes any. -/
theorem count_flatMap_toPairs {C : Type w} [DecidableEq C] (m : FinMap K V) (f : K × V → List C)
    {a : C} {k : K} (hf : ∀ c, c.1 ≠ k → (f c).count a = 0) :
    (m.toPairs.flatMap f).count a =
      match AList.lookup k m with
      | some v => (f (k, v)).count a
      | none => 0 := by
  have hnd : (m.toPairs.map Prod.fst).Nodup := keys_eq_toPairs m ▸ m.keys_nodup
  have hmem : ∀ v, (k, v) ∈ m.toPairs ↔ AList.lookup k m = some v := fun v => mem_toPairs
  generalize m.toPairs = l at hnd hmem
  generalize AList.lookup k m = o at hmem
  induction l generalizing o with
  | nil =>
    cases o with
    | none => rfl
    | some v => simpa using hmem v
  | cons c l ih =>
    rw [List.flatMap_cons, List.count_append]
    simp only [List.map_cons, List.nodup_cons] at hnd
    by_cases hc : c.1 = k
    · -- The one entry of `k`: the rest of the list has none.
      have ho : o = some c.2 := ((hmem c.2).mp (by simp [← hc])).symm ▸ rfl
      have hrest : ∀ v, (k, v) ∉ l := fun v hv =>
        hnd.1 (List.mem_map.mpr ⟨(k, v), hv, hc.symm⟩)
      have h0 := ih hnd.2 none (fun v => by simp [hrest v])
      simp only at h0
      rw [h0, ho, ← hc, Nat.add_zero]
    · rw [hf c hc, Nat.zero_add]
      refine ih hnd.2 o fun v => ?_
      rw [← hmem v, List.mem_cons]
      exact ⟨.inr, fun h => h.resolve_left fun h => hc (by rw [← h])⟩

/-- Two maps with the same entries in possibly different orders. -/
def SameLookups (m m' : FinMap K V) : Prop :=
  m.entries.Perm m'.entries

instance [DecidableEq V] (m m' : FinMap K V) : Decidable (SameLookups m m') :=
  inferInstanceAs (Decidable (List.Perm _ _))

theorem SameLookups.lookup {m m' : FinMap K V} (h : SameLookups m m') (k : K) :
    AList.lookup k m = AList.lookup k m' :=
  AList.perm_lookup h

end FinMap
