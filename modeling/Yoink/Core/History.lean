import Yoink.Core.Entry
import Yoink.Library.TombSet

/-!
# The history array

The entries of a `ClipDoc` are one yrs array, which is taken as a replicated array: an item is an
element of the total order `E`, and `content` is the value it was created with. `addEntry`
pushes an item back and prunes the front, `applyUpdate` only merges.
-/

namespace Yoink

/-- Maximum number of clipboard entries kept in the shared history. -/
def maxHistory : Nat := 200

namespace History

variable {E : Type} [LinearOrder E] (content : E → Any)

/-- The transaction of `add_entry`, for an item that is new. -/
def addEntry (d : TombSet E) (e : E) : TombSet E :=
  let d := d.push e
  let len := d.toList.length
  if maxHistory < len then d.removeRange 0 (len - maxHistory) else d

def applyUpdate (d u : TombSet E) : TombSet E := d.merge u

/-- All entries, oldest first. -/
def entries (d : TombSet E) : List ClipEntry :=
  d.toList.filterMap fun x => ClipEntry.fromAny (content x)

def latest (d : TombSet E) : Option ClipEntry := (entries content d).getLast?

section Document

variable {content} {d : TombSet E} {e : E}

/-- The array after `add_entry`: the new item last, and no more than `maxHistory` of them. -/
theorem toList_addEntry (hr : e ∉ d.removed) (hlast : ∀ x ∈ d.toList, x < e) :
    (addEntry d e).toList =
      (d.toList ++ [e]).drop ((d.toList ++ [e]).length - maxHistory) := by
  unfold addEntry
  simp only [TombSet.toList_push hr hlast]
  split
  · rw [TombSet.toList_removeRange_zero, TombSet.toList_push hr hlast]
  · rw [TombSet.toList_push hr hlast, Nat.sub_eq_zero_of_le (Nat.not_lt.mp ‹_›), List.drop_zero]

/-- Right after `add_entry`, the new entry is the latest and the others that are left keep their
order. -/
theorem entries_addEntry {entry : ClipEntry} (hr : e ∉ d.removed) (hlast : ∀ x ∈ d.toList, x < e)
    (hc : ClipEntry.fromAny (content e) = some entry) :
    latest content (addEntry d e) = some entry ∧
      entries content (addEntry d e) <:+ entries content d ++ [entry] := by
  have hall : (d.toList ++ [e]).filterMap (fun x => ClipEntry.fromAny (content x)) =
      entries content d ++ [entry] := by
    simp [entries, hc]
  refine ⟨?_, ?_⟩
  · -- The last item is never pruned.
    have hk : (d.toList ++ [e]).length - maxHistory ≤ d.toList.length := by
      simp only [List.length_append, List.length_singleton, maxHistory]
      omega
    rw [latest, entries, toList_addEntry hr hlast, List.drop_append_of_le_length hk,
      List.filterMap_append]
    simp [hc]
  · rw [← hall, entries, toList_addEntry hr hlast]
    exact (List.drop_suffix _ _).filterMap _

/-- `add_entry` restores the cap, whatever was merged before. -/
theorem length_addEntry_le (hr : e ∉ d.removed) (hlast : ∀ x ∈ d.toList, x < e) :
    (addEntry d e).toList.length ≤ maxHistory := by
  rw [toList_addEntry hr hlast, List.length_drop]
  omega

theorem addEntry_retains (h : d.Retains maxHistory) : (addEntry d e).Retains maxHistory := by
  simp only [addEntry]
  split
  · exact (h.push e).removeRange_zero (by omega)
  · exact h.push e

theorem added_addEntry : (addEntry d e).added = insert e d.added := by
  simp only [addEntry]
  split <;> rfl

/-- What is stored as an entry is read as one. -/
theorem length_entries (h : ∀ x ∈ d.added, (ClipEntry.fromAny (content x)).isSome) :
    (entries content d).length = d.visible.card := by
  rw [entries, ← TombSet.length_toList]
  exact List.filterMap_length_eq_length.mpr fun x hx => h x (TombSet.mem_toList.mp hx).1

/-- The latest entry is what the last visible item holds. -/
theorem latest_eq_some (h : ∀ x ∈ d.added, (ClipEntry.fromAny (content x)).isSome)
    {entry : ClipEntry} (he : latest content d = some entry) :
    ∃ y, d.toList.getLast? = some y ∧ ClipEntry.fromAny (content y) = some entry := by
  cases hy : d.toList.getLast? with
  | none =>
    rw [List.getLast?_eq_none_iff] at hy
    simp [latest, entries, hy] at he
  | some y =>
    obtain ⟨l, hl⟩ := List.getLast?_eq_some_iff.mp hy
    have hmem : y ∈ d.toList := by simp [hl]
    obtain ⟨entry', hentry⟩ := Option.isSome_iff_exists.mp (h y (TombSet.mem_toList.mp hmem).1)
    have hlast : latest content d = some entry' := by
      simp [latest, entries, hl, hentry]
    exact ⟨y, rfl, hentry.trans (hlast.symm.trans he)⟩

end Document

end History

end Yoink
