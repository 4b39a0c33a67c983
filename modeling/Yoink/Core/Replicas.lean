import Yoink.Core.History
import Yoink.Library.System
import Mathlib.Data.Set.Insert

/-!
# Replicas of a history

`Replicas` are any number of documents of one scope and the updates they have sent. An update is
what a replica holds beyond what the receiver is known to have (`needs`): a transaction's own, a
diff against a state vector, or a snapshot. In `exchange` updates arrive in any order, in `causal`
only where their `needs` are.
-/

namespace Yoink

namespace History

variable {R E : Type} [LinearOrder E] (content : E → Any)

/-- An update: what the receiver is known to have, and what is sent. -/
structure Update (E : Type) where
  needs : TombSet E
  brings : TombSet E

/-- The documents of a scope at all replicas, and the updates under way. -/
structure Replicas (R E : Type) where
  doc : R → TombSet E
  sent : Set (Update E)

/-- What happens to a document. -/
inductive Op (R E : Type) where
  /-- `add_entry`, which stores `entry` in the new item `e`. -/
  | add (r : R) (e : E) (entry : ClipEntry)
  /-- The replica sends an update: of a transaction, a diff, or a snapshot. -/
  | share (r : R) (u : Update E)
  /-- `apply_update` of an update that was sent. -/
  | apply (r : R) (u : Update E)

variable [DecidableEq R]

/-- The steps of the replicas. -/
inductive Replicas.Step (s : Replicas R E) : Op R E → Replicas R E → Prop where
  /-- The item is new everywhere, and goes after all those the replica sees. -/
  | add {r : R} {e : E} {entry : ClipEntry} (hms : entry.createdAtMs < 2 ^ 64)
      (hc : content e = entry.toAny)
      (hnew : ∀ r', e ∉ (s.doc r').added ∧ e ∉ (s.doc r').removed)
      (hlast : ∀ x ∈ (s.doc r).toList, x < e) :
      Step s (.add r e entry)
        { s with doc := Function.update s.doc r (addEntry (s.doc r) e) }
  | share {r : R} {u : Update E} (h : s.doc r = u.needs.merge u.brings) :
      Step s (.share r u) { s with sent := insert u s.sent }
  | apply {r : R} {u : Update E} (h : u ∈ s.sent) :
      Step s (.apply r u)
        { s with doc := Function.update s.doc r (applyUpdate (s.doc r) u.brings) }

/-- Replicas that exchange their updates in any order. -/
def exchange : System (Replicas R E) (Op R E) where
  init s := s = ⟨fun _ => ∅, ∅⟩
  step := Replicas.Step content

/-- An update is applied where everything it depends on has been integrated. -/
def Replicas.Causal (s : Replicas R E) : Op R E → Prop
  | .apply r u => (s.doc r).Covers u.needs
  | _ => True

/-- Replicas that exchange their updates in causal order. -/
def causal : System (Replicas R E) (Op R E) :=
  (exchange content).restrict fun s a _ => s.Causal a

/-- The items of an update that are news to a replica: it has neither integrated nor removed
them. -/
def Update.fresh (u : Update E) (d : TombSet E) : Finset E :=
  u.brings.visible \ (d.added ∪ d.removed)

/-- The items a replica shows and the update removes. -/
def Update.cleared (u : Update E) (d : TombSet E) : Finset E := d.visible ∩ u.brings.removed

/-- There is room for the update: it brings no more items than the replica has free places in its
history and places that the update clears. -/
def Replicas.Fits (s : Replicas R E) : Op R E → Prop
  | .apply r u => (u.fresh (s.doc r)).card ≤
      maxHistory - (s.doc r).toList.length + (u.cleared (s.doc r)).card
  | _ => True

section Runs

variable {content} {s s' : Replicas R E} {a : Op R E}
  {τ : List (Transition (Replicas R E) (Op R E))}

/-- All items, at replicas and under way, hold entries. -/
structure Replicas.Readable (content : E → Any) (s : Replicas R E) : Prop where
  doc : ∀ r, ∀ x ∈ (s.doc r).added, (ClipEntry.fromAny (content x)).isSome
  sent : ∀ u ∈ s.sent, ∀ x ∈ u.brings.added, (ClipEntry.fromAny (content x)).isSome

theorem Replicas.Readable.step (h : s.Readable content) (hs : s.Step content a s') :
    s'.Readable content := by
  cases hs with
  | @add r e entry _ hc =>
    refine ⟨fun r' x hx => ?_, h.sent⟩
    simp only [Function.update_apply] at hx
    split at hx
    · rw [added_addEntry, Finset.mem_insert] at hx
      obtain rfl | hx := hx
      · rw [hc, ClipEntry.fromAny_toAny_eq]
        rfl
      · exact h.doc r x hx
    · exact h.doc r' x hx
  | @share r u hu =>
    refine ⟨h.doc, fun v hv x hx => ?_⟩
    obtain rfl | hv := hv
    · exact h.doc r x (by simp [hu, hx])
    · exact h.sent v hv x hx
  | @apply r u hu =>
    refine ⟨fun r' x hx => ?_, h.sent⟩
    simp only [Function.update_apply] at hx
    split at hx
    · obtain hx | hx := Finset.mem_union.mp hx
      · exact h.doc r x hx
      · exact h.sent u hu x hx
    · exact h.doc r' x hx

/-- A replica never loses an item it has integrated. -/
theorem Replicas.Step.added_subset (hs : s.Step content a s') (r : R) :
    (s.doc r).added ⊆ (s'.doc r).added := by
  cases hs with
  | @add r' e =>
    simp only [Function.update_apply]
    split
    · subst r
      rw [added_addEntry]
      exact Finset.subset_insert e _
    · exact subset_rfl
  | share => exact subset_rfl
  | @apply r' u =>
    simp only [Function.update_apply]
    split
    · subst r
      exact Finset.subset_union_left
    · exact subset_rfl

/-- No replica shows more than `maxHistory` entries. -/
def Replicas.Capped (content : E → Any) (s : Replicas R E) : Prop :=
  ∀ r, (entries content (s.doc r)).length ≤ maxHistory

omit [DecidableEq R] in
theorem Replicas.Readable.length_le (h : s.Readable content) (hc : s.Capped content) (r : R) :
    (s.doc r).visible.card ≤ maxHistory := by
  rw [← length_entries (h.doc r)]
  exact hc r

omit [DecidableEq R] in
/-- As long as the cap holds, an update keeps it exactly if there is room for it. -/
theorem Replicas.Readable.fits_iff (h : s.Readable content) (hc : s.Capped content) {r : R}
    {u : Update E} (hu : u ∈ s.sent) :
    (entries content (applyUpdate (s.doc r) u.brings)).length ≤ maxHistory ↔
      s.Fits (.apply r u) := by
  have hread : ∀ x ∈ ((s.doc r).merge u.brings).added,
      (ClipEntry.fromAny (content x)).isSome := by
    intro x hx
    obtain hx | hx := Finset.mem_union.mp hx
    · exact h.doc r x hx
    · exact h.sent u hu x hx
  have hfull := h.length_le hc r
  have hleft := Finset.card_sdiff_add_card_inter (s.doc r).visible u.brings.removed
  rw [applyUpdate, length_entries hread, TombSet.card_visible_merge]
  simp only [Replicas.Fits, Update.fresh, Update.cleared, TombSet.length_toList]
  omega

theorem Replicas.Readable.fits (h : s.Readable content) (hs : s.Step content a s')
    (hc : s.Capped content) (hc' : s'.Capped content) : s.Fits a := by
  cases hs with
  | add | share => trivial
  | @apply r u hu =>
    refine (h.fits_iff hc hu).mp ?_
    simpa using hc' r

theorem Replicas.Readable.capped (h : s.Readable content) (hs : s.Step content a s')
    (hc : s.Capped content) (hf : s.Fits a) : s'.Capped content := by
  cases hs with
  | share => exact hc
  | @add r e entry _ _ hnew hlast =>
    intro r'
    simp only [Function.update_apply]
    split
    · exact (List.length_filterMap_le _ _).trans (length_addEntry_le (hnew r).2 hlast)
    · exact hc r'
  | @apply r u hu =>
    intro r'
    simp only [Function.update_apply]
    split
    · exact (h.fits_iff hc hu).mpr hf
    · exact hc r'

theorem Run.readable (h : (exchange content).Run τ s) : s.Readable content := by
  refine h.reachable.invariant (I := Replicas.Readable content) ?_ fun s a s' _ hI hs => hI.step hs
  rintro s rfl
  exact ⟨fun r x hx => by simp at hx, fun u hu => by simp at hu⟩

/-- A run whose operations all leave capped histories ends with capped histories. -/
theorem Run.capped (h : (exchange content).Run τ s) (hc : ∀ t ∈ τ, t.post.Capped content) :
    s.Capped content := by
  cases h with
  | start hs =>
    subst hs
    exact fun r => by simp [entries, TombSet.toList, TombSet.visible]
  | next _ _ => exact hc _ (List.mem_append_right _ (List.mem_singleton_self _))

/-- The history is capped after every operation exactly if there was room for every update that
was applied: `apply_update` does not prune. -/
theorem history_capped_iff (h : (exchange content).Run τ s) :
    (∀ t ∈ τ, t.post.Capped content) ↔ ∀ t ∈ τ, t.pre.Fits t.act := by
  constructor
  · intro hc t ht
    obtain ⟨τ₁, τ₂, rfl⟩ := List.append_of_mem ht
    obtain ⟨hr, hs⟩ := h.split rfl
    have hpre := Run.capped hr fun t' ht' => hc t' (List.mem_append_left _ ht')
    exact (Run.readable hr).fits hs hpre (hc t ht)
  · refine h.history (I := fun τ s => (∀ t ∈ τ, t.pre.Fits t.act) →
      ∀ t ∈ τ, t.post.Capped content) (fun _ _ => nofun) fun τ s a s' hr hI hs hf => ?_
    have hcap := hI fun t ht => hf t (List.mem_append_left _ ht)
    intro t ht
    obtain ht | ht := List.mem_append.mp ht
    · exact hcap t ht
    · obtain rfl := List.mem_singleton.mp ht
      exact (Run.readable hr).capped hs (Run.capped hr hcap) (hf ⟨s, a, s'⟩ (by simp))

section Overflow

/-- The empty text. -/
def blank : ClipEntry := ⟨"", "", "", "", 0⟩

/-- The same text, copied over and over. -/
def copies (_ : Nat) : Any := blank.toAny

/-- One replica has the first `k` copies, the other nothing. -/
def filled (k : Nat) : Replicas Bool Nat := ⟨fun r => if r then ∅ else ⟨Finset.range k, ∅⟩, ∅⟩

theorem addEntry_of_lt {d : TombSet Nat} {e : Nat} (hr : d.removed = ∅)
    (hd : d.added.card < maxHistory) : addEntry d e = d.push e := by
  have hlen : (d.push e).toList.length ≤ maxHistory := by
    rw [TombSet.length_toList, TombSet.visible, TombSet.push, hr, Finset.sdiff_empty]
    exact (Finset.card_insert_le _ _).trans hd
  simp only [addEntry, if_neg (Nat.not_lt.mpr hlen)]

/-- Either replica may copy the text once more. -/
theorem filled_add (k : Nat) (r : Bool) :
    (filled k).Step copies (.add r k blank) ⟨Function.update (filled k).doc r
      (addEntry ((filled k).doc r) k), ∅⟩ := by
  refine .add (by decide) rfl (fun r' => ?_) fun x hx => ?_
  · cases r' <;> simp [filled]
  · cases r with
    | false => simpa [filled] using hx
    | true => simp [filled] at hx

theorem filled_step {k : Nat} (hk : k < maxHistory) :
    (filled k).Step copies (.add false k blank) (filled (k + 1)) := by
  have hdoc : addEntry ((filled k).doc false) k = ⟨Finset.range (k + 1), ∅⟩ := by
    rw [addEntry_of_lt rfl (by simpa [filled] using hk)]
    simp [filled, TombSet.push, Finset.range_add_one]
  have heq : filled (k + 1) = ⟨Function.update (filled k).doc false
      (addEntry ((filled k).doc false) k), ∅⟩ := by
    rw [hdoc, filled, Replicas.mk.injEq]
    refine ⟨funext fun r => ?_, rfl⟩
    cases r <;> simp [filled]
  rw [heq]
  exact filled_add k false

/-- A replica fills its history by copying. -/
theorem exists_filled {k : Nat} (hk : k ≤ maxHistory) :
    ∃ τ, (exchange copies).Run τ (filled k) ∧ ∀ t ∈ τ, ∃ r e entry, t.act = .add r e entry := by
  induction k with
  | zero =>
    have hinit : filled 0 = ⟨fun _ => ∅, ∅⟩ := by
      rw [filled, Replicas.mk.injEq]
      exact ⟨funext fun r => by cases r <;> rfl, rfl⟩
    exact ⟨[], .start hinit, nofun⟩
  | succ k ih =>
    obtain ⟨τ, hr, hadd⟩ := ih (Nat.le_of_succ_le hk)
    refine ⟨_, hr.next (filled_step hk), fun t ht => ?_⟩
    obtain ht | ht := List.mem_append.mp ht
    · exact hadd t ht
    · obtain rfl := List.mem_singleton.mp ht
      exact ⟨_, _, _, rfl⟩

/-- Two devices that copied while they were apart hold more than `maxHistory` entries once they
meet: here one with a full history and one with a single entry. -/
theorem history_overflows : ∃ (τ : List (Transition (Replicas Bool Nat) (Op Bool Nat)))
    (s : Replicas Bool Nat), (exchange copies).Run τ s ∧
      ∃ t ∈ τ, (entries copies (t.post.doc false)).length = maxHistory + 1 := by
  obtain ⟨τ, hr, -⟩ := exists_filled le_rfl
  let u : Update Nat := ⟨∅, ⟨{maxHistory}, ∅⟩⟩
  have hadd := hr.next (filled_add maxHistory true)
  have hnew : addEntry ((filled maxHistory).doc true) maxHistory = u.needs.merge u.brings :=
    addEntry_of_lt rfl (by simp [filled, maxHistory])
  have hshare := hadd.next (.share (r := true) (u := u) (by simpa using hnew))
  have happly := hshare.next (.apply (r := false) (u := u) (Set.mem_insert _ _))
  refine ⟨_, _, happly, _, List.mem_append_right _ (List.mem_singleton_self _), ?_⟩
  rw [length_entries fun x _ => by simp [copies, ClipEntry.fromAny_toAny_eq]]
  simp [applyUpdate, TombSet.visible, filled, u]

/-- A full history, as a snapshot. -/
def full : Update Nat := ⟨∅, ⟨Finset.range maxHistory, ∅⟩⟩

/-- One more copy, and the tombstone it leaves at the front of a full history. -/
def pruning : Update Nat := ⟨full.brings, ⟨{maxHistory}, {0}⟩⟩

theorem toList_range (k : Nat) : (⟨Finset.range k, ∅⟩ : TombSet Nat).toList = List.range k :=
  TombSet.toList_eq List.pairwise_lt_range (by simp)

/-- A copy into a full history removes the oldest one. -/
theorem addEntry_full : addEntry full.brings maxHistory = full.brings.merge pruning.brings := by
  have hpush : full.brings.push maxHistory = ⟨Finset.range (maxHistory + 1), ∅⟩ := by
    simp [full, TombSet.push, Finset.range_add_one]
  have htake : (List.range (maxHistory + 1)).take 1 = [0] := rfl
  simp only [addEntry, hpush, toList_range, List.length_range, TombSet.removeRange]
  rw [if_pos (Nat.lt_succ_self _), Nat.add_sub_cancel_left, List.drop_zero, htake]
  ext x <;> simp [full, pruning]
  omega

/-- There is room for a full history where there is nothing yet. -/
theorem full_fits {s : Replicas Bool Nat} (h : s.doc true = ∅) : s.Fits (.apply true full) := by
  have hfresh : full.fresh ∅ = Finset.range maxHistory := by
    simp [Update.fresh, full, TombSet.visible]
  simp only [Replicas.Fits, h, hfresh, Finset.card_range]
  simp [TombSet.visible]

/-- The one item that is news clears the place it needs. -/
theorem pruning_fits {s : Replicas Bool Nat} (h : s.doc false = full.brings) :
    s.Fits (.apply false pruning) := by
  have hfresh : (pruning.fresh full.brings).card ≤ 1 :=
    Finset.card_le_card (t := {maxHistory}) fun x hx => by
      simp only [Update.fresh, Finset.mem_sdiff, TombSet.mem_visible] at hx
      exact hx.1.1
  have hcleared : pruning.cleared full.brings = {0} := by
    ext x
    simp [Update.cleared, full, pruning, maxHistory]
  simp only [Replicas.Fits, h, hcleared, Finset.card_singleton]
  omega

/-- A device with a full history sends it to another one, which copies the text once more and
sends what that has changed back. There is room for both updates, and they come in order. -/
theorem exists_relayed : ∃ (τ : List (Transition (Replicas Bool Nat) (Op Bool Nat)))
    (s : Replicas Bool Nat), (exchange copies).Run τ s ∧
      s.doc false = ⟨Finset.range (maxHistory + 1), {0}⟩ ∧
      (.add true maxHistory blank ∈ τ.map (·.act) ∧ .apply false pruning ∈ τ.map (·.act)) ∧
      ∀ t ∈ τ, t.pre.Fits t.act ∧ t.pre.Causal t.act := by
  obtain ⟨τ, hr, hadd⟩ := exists_filled le_rfl
  have hshare := hr.next (.share (r := false) (u := full) (by simp [filled, full, TombSet.merge]))
  have hfull := hshare.next (.apply (r := true) (u := full) (Set.mem_insert _ _))
  have hcopy := hfull.next (@Replicas.Step.add _ _ _ _ _ _ true maxHistory blank (by decide) rfl
    (fun r => by cases r <;> simp [filled, full, applyUpdate])
    (fun x hx => by simpa [filled, full, applyUpdate] using hx))
  have hback := hcopy.next (.share (r := true) (u := pruning) (by
    simpa [filled, applyUpdate, TombSet.merge, full, pruning] using addEntry_full))
  have hprune := hback.next (.apply (r := false) (u := pruning) (Set.mem_insert _ _))
  refine ⟨_, _, hprune, ?_, by simp, fun t ht => ?_⟩
  · simp [filled, applyUpdate, TombSet.merge, pruning, Finset.range_add_one]
  · simp only [List.append_assoc, List.mem_append, List.mem_singleton] at ht
    rcases ht with ht | rfl | rfl | rfl | rfl | rfl
    · obtain ⟨r, e, entry, ha⟩ := hadd t ht
      rw [ha]
      exact ⟨trivial, trivial⟩
    · exact ⟨trivial, trivial⟩
    · exact ⟨full_fits (by simp [filled]), by simp [Replicas.Causal, TombSet.Covers, full]⟩
    · exact ⟨trivial, trivial⟩
    · exact ⟨trivial, trivial⟩
    · exact ⟨pruning_fits (by simp [filled, full]),
        by simp [Replicas.Causal, TombSet.Covers, filled, full, pruning]⟩

/-- The tombstone makes room for the copy it comes with. -/
theorem history_capped_iff_relayed : ∃ τ s, (exchange copies).Run τ s ∧
    .apply false pruning ∈ τ.map (·.act) ∧ ∀ t ∈ τ, t.post.Capped copies := by
  obtain ⟨τ, s, hr, -, hact, ht⟩ := exists_relayed
  exact ⟨τ, s, hr, hact.2, (history_capped_iff hr).mpr fun t h => (ht t h).1⟩

end Overflow

/-- Every tombstone, at a replica or under way with what it depends on, is followed by
`maxHistory` items. -/
structure Replicas.Retains (s : Replicas R E) : Prop where
  doc : ∀ r, (s.doc r).Retains maxHistory
  sent : ∀ u ∈ s.sent, (u.needs.merge u.brings).Retains maxHistory

theorem Replicas.Retains.step (h : s.Retains) (hs : s.Step content a s') (hc : s.Causal a) :
    s'.Retains := by
  cases hs with
  | @add r e entry =>
    refine ⟨fun r' => ?_, h.sent⟩
    simp only [Function.update_apply]
    split
    · exact addEntry_retains (h.doc r)
    · exact h.doc r'
  | @share r u hu =>
    refine ⟨h.doc, fun v hv => ?_⟩
    obtain rfl | hv := hv
    · exact hu ▸ h.doc r
    · exact h.sent v hv
  | @apply r u hu =>
    refine ⟨fun r' => ?_, h.sent⟩
    simp only [Function.update_apply]
    split
    · -- What the update needs is there, so the two are merged as wholes.
      rw [applyUpdate, ← TombSet.Covers.merge_merge hc]
      exact (h.doc r).merge (h.sent u hu)
    · exact h.doc r'

theorem Run.retains (h : (causal content).Run τ s) : s.Retains := by
  refine System.Reachable.invariant (S := causal content) (I := Replicas.Retains) ?_
    (fun s a s' _ hI hs => hI.step hs.1 hs.2) h.reachable
  rintro s rfl
  exact ⟨fun _ => TombSet.retains_empty _, fun u hu => by simp at hu⟩

/-- Pruning never loses recent history: at every replica, the last `maxHistory` items among all
it has integrated are visible, and right after `add_entry` its entry is the latest, and the
entries that are left keep their order. -/
theorem recent_history_kept (h : (causal content).Run τ s) :
    (∀ r, ∀ x ∈ (s.doc r).integrated.drop ((s.doc r).integrated.length - maxHistory),
      x ∈ (s.doc r).toList) ∧
    ∀ t ∈ τ, ∀ r e entry, t.act = .add r e entry →
      latest content (t.post.doc r) = some entry ∧
        entries content (t.post.doc r) <:+ entries content (t.pre.doc r) ++ [entry] := by
  refine ⟨fun r x hx => ((Run.retains h).doc r).last_visible hx, fun t ht r e entry ha => ?_⟩
  obtain ⟨τ₁, τ₂, rfl⟩ := List.append_of_mem ht
  obtain ⟨hs, -⟩ := (h.split rfl).2
  rw [ha] at hs
  generalize t.post = s' at hs
  cases hs with
  | add hms hc hnew hlast =>
    simp only [Function.update_self]
    exact entries_addEntry (hnew r).2 hlast (by rw [hc, ClipEntry.fromAny_toAny hms])

/-- Where a copy and the tombstone it left have been delivered, only the oldest copy is gone. -/
theorem recent_history_kept_relayed : ∃ τ s, (causal copies).Run τ s ∧
    .apply false pruning ∈ τ.map (·.act) ∧
      s.doc false = ⟨Finset.range (maxHistory + 1), {0}⟩ ∧ 1 ∈ (s.doc false).toList ∧
      ∃ t ∈ τ, t.act = .add true maxHistory blank ∧
        latest copies (t.post.doc true) = some blank := by
  obtain ⟨τ, s, hr, hdoc, ⟨hadd, hact⟩, ht⟩ := exists_relayed
  have hcausal : (causal copies).Run τ s := hr.to_restrict fun t h => (ht t h).2
  obtain ⟨hlast, hnew⟩ := recent_history_kept hcausal
  obtain ⟨t, htτ, hta⟩ := List.mem_map.mp hadd
  refine ⟨τ, s, hcausal, hact, hdoc, hlast false 1 ?_, t, htτ, hta, (hnew t htτ _ _ _ hta).1⟩
  have hint : (s.doc false).integrated = List.range (maxHistory + 1) := by
    rw [hdoc]
    exact toList_range (maxHistory + 1)
  simp [hint, maxHistory]

end Runs

end History

end Yoink
