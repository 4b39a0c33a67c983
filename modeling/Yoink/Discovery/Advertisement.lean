import Yoink.Core.RoomName
import Yoink.Discovery.Browse

/-!
# Room advertisements

The rooms an instance is in go into one TXT value: sorted, comma-joined, cut before the first
name that does not fit the budget. The receiver splits the value again. Canonical names
contain no comma and are not empty, so it finds exactly the names that were written.
-/

namespace Yoink.Discovery

open SortedList

/-- Budget for the TXT `rooms` value, in bytes. -/
def roomsTxtBudget : Nat := 200

/-- The loop over the sorted names; `break` at the first one past the budget. -/
def encodeLoop : List String → String → String
  | [], encoded => encoded
  | name :: names, encoded =>
    let extra := name.utf8ByteSize + if encoded.isEmpty then 0 else 1
    if roomsTxtBudget < encoded.utf8ByteSize + extra then encoded
    else encodeLoop names ((if encoded.isEmpty then encoded else encoded ++ ",") ++ name)

/-- Comma-join room names, dropping those past the budget. -/
def encodeRooms (rooms : List String) : String := encodeLoop (sortDedup rooms) ""

/-- All names in one value. -/
def joined (names : List String) : String := ",".intercalate names

/-- What may stand between commas. -/
def Segment (name : String) : Prop := name ≠ "" ∧ ',' ∉ name.toList

section Join

variable {names : List String} {name : String}

theorem joined_eq_empty (h : ∀ n ∈ names, Segment n) : joined names = "" ↔ names = [] := by
  refine ⟨fun he => ?_, fun he => by simp [joined, he]⟩
  cases names with
  | nil => rfl
  | cons n ns =>
    refine absurd ?_ (h n List.mem_cons_self).1
    cases ns with
    | nil => simpa [joined] using he
    | cons m ms =>
      have hsize := congrArg String.utf8ByteSize he
      simp only [joined, String.intercalate_cons_cons, String.utf8ByteSize_append,
        String.utf8ByteSize_empty] at hsize
      exact String.utf8ByteSize_eq_zero_iff.mp (by omega)

theorem joined_concat (hne : names ≠ []) :
    joined (names ++ [name]) = joined names ++ "," ++ name := by
  rw [joined, String.intercalate_append_of_ne_nil hne (List.cons_ne_nil _ _),
    String.intercalate_singleton]
  rfl

/-- More names make a longer value. -/
theorem size_joined_le (names more : List String) :
    (joined names).utf8ByteSize ≤ (joined (names ++ more)).utf8ByteSize := by
  by_cases hn : names = []
  · simp [hn, joined]
  by_cases hm : more = []
  · simp [hm]
  simp only [joined, String.intercalate_append_of_ne_nil hn hm, String.utf8ByteSize_append]
  omega

theorem splitCommas_joined (h : ∀ n ∈ names, Segment n) (hne : names ≠ []) :
    splitCommas (joined names) = names := by
  have hsep : ",".toList = [','] := rfl
  have hno : ∀ l ∈ names.map String.toList, ',' ∉ l := by
    intro l hl
    obtain ⟨n, hn, rfl⟩ := List.mem_map.mp hl
    exact (h n hn).2
  rw [splitCommas, joined, String.toList_intercalate, hsep,
    List.splitOn_intercalate ',' hno (by simpa using hne), List.map_map]
  exact List.map_id'' (fun n => String.ofList_toList) names

/-- The receiver finds the names again. -/
theorem decodeRooms_joined (h : ∀ n ∈ names, Segment n) (hs : names.SortedLT) :
    decodeRooms (joined names) = names := by
  have hfilter : (splitCommas (joined names)).filter (· ≠ "") = names := by
    by_cases hne : names = []
    · subst hne
      decide
    · rw [splitCommas_joined h hne]
      exact List.filter_eq_self.mpr fun n hn => by simpa using (h n hn).1
  rw [decodeRooms, hfilter]
  exact (sortedLT_sortDedup names).eq_of_mem_iff hs fun _ => mem_sortDedup

end Join

/-- A canonical name can be told from its neighbours. -/
theorem segment_of_canonical {name : String} (h : Canonical name) : Segment name := by
  have hroom := roomName_of_sanitize h
  constructor
  · rintro rfl
    exact hroom.nonempty rfl
  · intro hcomma
    obtain hc | hc := hroom.chars ',' hcomma
    · exact absurd hc (by decide)
    · exact absurd hc.1 (by decide)

section Encode

/-- From the names written so far the loop goes on to the last one that fits. -/
theorem encodeLoop_spec {names done : List String} (h : ∀ n ∈ done ++ names, Segment n)
    (hfits : (joined done).utf8ByteSize ≤ roomsTxtBudget) :
    ∃ k ≤ names.length, encodeLoop names (joined done) = joined (done ++ names.take k) ∧
      (joined (done ++ names.take k)).utf8ByteSize ≤ roomsTxtBudget ∧
      (k < names.length →
        roomsTxtBudget < (joined (done ++ names.take (k + 1))).utf8ByteSize) := by
  induction names generalizing done with
  | nil => exact ⟨0, le_rfl, by simp [encodeLoop], by simpa using hfits, by simp⟩
  | cons name names ih =>
    have hdone (n) (hn : n ∈ done) : Segment n := h n (List.mem_append_left _ hn)
    have hempty : (joined done).isEmpty = true ↔ done = [] := by
      rw [String.isEmpty_iff, joined_eq_empty hdone]
    -- Both branches of the separator append the name to the joined list.
    have hnext : (if (joined done).isEmpty then joined done else joined done ++ ",") ++ name =
        joined (done ++ [name]) := by
      by_cases hd : done = []
      · rw [if_pos (hempty.mpr hd), hd]
        simp [joined]
      · rw [if_neg fun he => hd (hempty.mp he), joined_concat hd]
    have hsize : (joined done).utf8ByteSize +
        (name.utf8ByteSize + if (joined done).isEmpty then 0 else 1) =
          (joined (done ++ [name])).utf8ByteSize := by
      have hcomma : ",".utf8ByteSize = 1 := rfl
      rw [← hnext]
      split <;> simp only [String.utf8ByteSize_append, hcomma] <;> omega
    rw [encodeLoop]
    simp only [hsize, hnext]
    split
    · rename_i hpast
      exact ⟨0, Nat.zero_le _, by simp, by simpa using hfits, fun _ => by simpa using hpast⟩
    · rename_i hle
      obtain ⟨k, hk, heq, hle', hmax⟩ := ih (by simpa using h) (not_lt.mp hle)
      refine ⟨k + 1, Nat.succ_le_succ hk, ?_, ?_, fun hlt => ?_⟩
      · simpa using heq
      · simpa using hle'
      · simpa using hmax (Nat.lt_of_succ_lt_succ hlt)

/-- The value holds the longest part of the sorted names that fits. -/
theorem encodeRooms_spec {rooms : List String} (h : ∀ n ∈ rooms, Segment n) :
    ∃ k ≤ (sortDedup rooms).length, encodeRooms rooms = joined ((sortDedup rooms).take k) ∧
      (joined ((sortDedup rooms).take k)).utf8ByteSize ≤ roomsTxtBudget ∧
      ∀ j ≤ (sortDedup rooms).length,
        (joined ((sortDedup rooms).take j)).utf8ByteSize ≤ roomsTxtBudget → j ≤ k := by
  have hseg : ∀ n ∈ [] ++ sortDedup rooms, Segment n := fun n hn => h n (mem_sortDedup.mp hn)
  obtain ⟨k, hk, heq, hle, hmax⟩ := encodeLoop_spec hseg (by simp [joined])
  refine ⟨k, hk, heq, hle, fun j hj hfits => ?_⟩
  by_contra hlt
  have hpast := hmax (by omega)
  have hkj : k + 1 ≤ j := by omega
  obtain ⟨more, hmore⟩ := List.take_prefix_take_left (l := sortDedup rooms) hkj
  have := size_joined_le ((sortDedup rooms).take (k + 1)) more
  rw [hmore] at this
  simp only [List.nil_append] at hpast
  omega

/-- What is advertised comes back: the longest part of the sorted names that fits the budget,
all of them if they fit, depending on nothing but the set of names. -/
theorem advertisement_roundTrip (rooms : List String) (h : ∀ name ∈ rooms, Canonical name) :
    (encodeRooms rooms).utf8ByteSize ≤ roomsTxtBudget ∧
    (∃ k ≤ (sortDedup rooms).length,
      decodeRooms (encodeRooms rooms) = (sortDedup rooms).take k ∧
      (joined ((sortDedup rooms).take k)).utf8ByteSize ≤ roomsTxtBudget ∧
      ∀ j ≤ (sortDedup rooms).length,
        (joined ((sortDedup rooms).take j)).utf8ByteSize ≤ roomsTxtBudget → j ≤ k) ∧
    ((joined (sortDedup rooms)).utf8ByteSize ≤ roomsTxtBudget →
      decodeRooms (encodeRooms rooms) = sortDedup rooms) ∧
    (∀ rooms', (∀ name, name ∈ rooms' ↔ name ∈ rooms) → encodeRooms rooms' = encodeRooms rooms) ∧
    ∀ name ∈ decodeRooms (encodeRooms rooms), name ∈ rooms := by
  have hseg (n) (hn : n ∈ rooms) : Segment n := segment_of_canonical (h n hn)
  obtain ⟨k, hk, heq, hle, hmax⟩ := encodeRooms_spec hseg
  have hsub := List.take_sublist k (sortDedup rooms)
  have hdec : decodeRooms (encodeRooms rooms) = (sortDedup rooms).take k := by
    rw [heq]
    refine decodeRooms_joined (fun n hn => hseg n (mem_sortDedup.mp (hsub.subset hn))) ?_
    exact ((sortedLT_sortDedup rooms).pairwise.sublist hsub).sortedLT
  refine ⟨heq ▸ hle, ⟨k, hk, hdec, hle, hmax⟩, fun hall => ?_, fun rooms' hsame => ?_, ?_⟩
  · have := hmax _ le_rfl (by rwa [List.take_length])
    rw [hdec, List.take_of_length_le this]
  · rw [encodeRooms, encodeRooms, sortDedup_congr hsame]
  · intro name hname
    rw [hdec] at hname
    exact mem_sortDedup.mp (hsub.subset hname)

theorem advertisement_roundTrip_two :
    (∀ name ∈ ["ops", "attic", "ops"], Canonical name) ∧
      decodeRooms (encodeRooms ["ops", "attic", "ops"]) = sortDedup ["ops", "attic", "ops"] := by
  have h : ∀ name ∈ ["ops", "attic", "ops"], Canonical name := by decide
  exact ⟨h, (advertisement_roundTrip _ h).2.2.1 (by decide +kernel)⟩

end Encode

end Yoink.Discovery
