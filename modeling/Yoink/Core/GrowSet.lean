import Yoink.Core.Doc
import Mathlib.Data.Finset.Basic

/-!
# Grow-only sets as documents

The smallest document that behaves as `MergeSets` asks: a set of numbers, where an update and a
state vector are sets as well. Runs of the model are evaluated over it. An `EntryLog` keeps the
entries themselves, in the order they were integrated.
-/

namespace Yoink

/-- A document that only ever grows; an entry adds its timestamp. -/
abbrev GrowSet := Finset Nat

instance : Yrs GrowSet GrowSet where
  new := ∅
  stateVector d := d
  diff d sv := some (d \ sv)
  applyUpdate d u := some (d ∪ u, if u ⊆ d then none else some (u \ d))
  snapshot d := d
  addEntry d entry := (insert entry.createdAtMs d, {entry.createdAtMs})

instance : MergeSets GrowSet Nat where
  holds d := ↑d
  carried u := ↑u
  known sv := ↑sv
  holds_new := Finset.coe_empty
  known_stateVector _ := rfl
  carried_snapshot _ := rfl
  carried_diff h := by
    cases h
    exact Finset.coe_sdiff _ _
  holds_apply h := by
    cases h
    exact Finset.coe_union _ _
  event_apply {d d' u ev} h := by
    cases h
    split
    · exact ⟨nofun, fun _ => Finset.coe_subset.mpr ‹_›⟩
    · refine ⟨fun v hv => ?_, nofun⟩
      cases hv
      exact Finset.coe_sdiff _ _
  holds_addEntry d e := by
    show (↑(insert e.createdAtMs d) : Set Nat) = ↑d ∪ ↑({e.createdAtMs} : Finset Nat)
    rw [Finset.coe_insert, Finset.coe_singleton, Set.union_singleton]

/-- A history nothing is ever pruned from. -/
abbrev EntryLog := List ClipEntry

instance : Yrs EntryLog EntryLog where
  new := []
  stateVector d := d
  diff d sv := some (d.filter (· ∉ sv))
  applyUpdate d u :=
    some (d ++ u.filter (· ∉ d), if u ⊆ d then none else some (u.filter (· ∉ d)))
  snapshot d := d
  addEntry d entry := (d ++ [entry], [entry])

instance : MergeSets EntryLog ClipEntry where
  holds d := {x | x ∈ d}
  carried u := {x | x ∈ u}
  known sv := {x | x ∈ sv}
  holds_new := by simp [Yrs.new]
  known_stateVector _ := rfl
  carried_snapshot _ := rfl
  carried_diff h := by
    cases h
    ext x
    simp
  holds_apply {d d' u ev} h := by
    cases h
    ext x
    by_cases hx : x ∈ d <;> simp [hx]
  event_apply {d d' u ev} h := by
    cases h
    split
    · exact ⟨nofun, fun _ => ‹u ⊆ d›⟩
    · refine ⟨fun v hv => ?_, nofun⟩
      cases hv
      ext x
      simp
  holds_addEntry d e := by
    ext x
    simp [Yrs.addEntry, or_comm]

instance : ClipEntries EntryLog where
  entries d := d
  entryOf := some
  entries_held h := ⟨_, h, rfl⟩
  entry_added hx he := by
    cases he
    exact List.mem_singleton.mp hx

end Yoink
