import Yoink.Sync.Rooms
import Yoink.Core.GrowSet

/-!
# What documents hold and frames bring

With yrs as a merge of sets of changes, `contents` is what a document of an instance has
integrated and `brings` what a frame would add to the document that applies it. Documents
only grow, and whatever a fan-out hands out its document holds.
-/

namespace Yoink

variable {D P X : Type}

section Sets

variable [Yrs D P] [MergeSets D X]

/-- The changes a frame brings. -/
def Frame.brings (D : Type) [Yrs D P] [MergeSets D X] (f : Frame P) : Set X :=
  {x | ∃ u : P, f.content = some u ∧ x ∈ MergeSets.carried D u}

/-- The changes document `d` has integrated. -/
def Manager.contents (m : Manager D P) (d : DocId) : Set X := MergeSets.holds P (m.docs.heap d)

theorem Frame.brings_of_content {f : Frame P} {u : P} (h : f.content = some u) :
    f.brings D = MergeSets.carried D u := by
  ext x
  simp [brings, h]

theorem Frame.brings_of_not_content {f : Frame P} (h : f.content = none) :
    f.brings D = (∅ : Set X) := by
  ext x
  simp [brings, h]

end Sets

namespace Manager

section Growth

variable [Yrs D P] [MergeSets D X] {m m' : Manager D P} {a : Action P}

/-- A transaction merges its update into its document, and reports all that is new. -/
structure Commit.Sound (m : Manager D P) (c : Commit D P) : Prop where
  grows : m.contents c.doc ⊆ MergeSets.holds P c.result
  reported : ∀ x : X, x ∈ MergeSets.holds P c.result → x ∈ m.contents c.doc ∨
    ∃ u : P, c.update = some u ∧ x ∈ MergeSets.carried D u
  merged : ∀ u : P, c.update = some u → MergeSets.carried D u ⊆ MergeSets.holds P c.result

theorem commits_sound {c : Commit D P} (h : m.commits a = some c) : c.Sound m := by
  obtain ⟨t, s, entry, cs, doc, -, -, -, rfl⟩ | ⟨e, t, r, b, f, u, d, ev, -, -, -, -, hap, rfl⟩ :=
    commits_cases h
  · have hadd := MergeSets.holds_addEntry (P := P) (m.docs.heap doc) entry
    refine ⟨?_, fun x hx => ?_, fun u hu => ?_⟩
    · exact hadd ▸ Set.subset_union_left
    · rw [hadd] at hx
      exact hx.imp id fun hx => ⟨_, rfl, hx⟩
    · cases hu
      exact hadd ▸ Set.subset_union_right
  · have hd := MergeSets.holds_apply hap
    obtain ⟨hsome, hnone⟩ := MergeSets.event_apply hap
    refine ⟨?_, fun x hx => ?_, fun v hv => ?_⟩
    · exact hd ▸ Set.subset_union_left
    · by_cases hold : x ∈ MergeSets.holds P (m.docs.heap r.doc)
      · exact .inl hold
      · have hu : x ∈ MergeSets.carried D u := by
          rw [hd] at hx
          exact hx.resolve_left hold
        cases hev : ev with
        | none => exact absurd (hnone hev hu) hold
        | some v => exact .inr ⟨v, rfl, hsome v hev ▸ ⟨hu, hold⟩⟩
    · rw [hsome v hv, hd]
      exact fun x hx => .inr hx.1

variable [DecidableEq P]

/-- Documents only grow. -/
theorem Step.contents_mono (h : m.Step a m') {d : DocId} (hd : d < m.docs.next) :
    m.contents d ⊆ m'.contents d := by
  have hc := h.commits_eq
  cases hcom : m.commits a with
  | none =>
    rw [hcom] at hc
    rw [contents, contents, hc d hd]
  | some c =>
    rw [hcom] at hc
    rw [contents, contents, hc.1, Docs.heap_write]
    split
    · subst d
      exact (commits_sound hcom).grows
    · exact subset_rfl

end Growth

section Fans

variable [Yrs D P] [MergeSets D X] {m m' : Manager D P} {a : Action P}

/-- What a fan-out holds to hand out, its document holds. -/
structure Backs (m : Manager D P) (f : FanOut P) : Prop where
  backlog : ∀ u ∈ f.backlog, MergeSets.carried D u.update ⊆ m.contents f.doc
  frame : ∀ frame, f.phase.frame = some frame → frame.brings D ⊆ m.contents f.doc

/-- That holds of every fan-out. -/
def FansBacked (m : Manager D P) : Prop := ∀ i f, m.fans i = some f → m.Backs f

omit [Yrs D P] [MergeSets D X] in
theorem mem_publish {f : FanOut P} {u u' : DocUpdate P}
    (h : u' ∈ (f.publish u).backlog) : u' ∈ f.backlog ∨ u' = u := by
  unfold FanOut.publish at h
  split at h
  · simpa using h
  · obtain h | h := List.mem_append.mp h
    · exact .inl (List.mem_of_mem_tail h)
    · exact .inr (List.mem_singleton.mp h)

variable [DecidableEq P]

theorem Backs.mono {f : FanOut P} (h : m.Backs f) (hs : m.Step a m')
    (hd : f.doc < m.docs.next) : m'.Backs f where
  backlog u hu := (h.backlog u hu).trans (hs.contents_mono hd)
  frame fr hfr := (h.frame fr hfr).trans (hs.contents_mono hd)

theorem FansBacked.step {σ : DocId → Scope} (h : m.FansBacked) (hn : m.Named σ)
    (hs : m.Step a m') : m'.FansBacked := by
  intro i f' hf'
  have hstep := hs.fanStep i
  rw [hf'] at hstep
  generalize hf : m.fans i = o at hstep
  have kept {f : FanOut P} (hf : m.fans i = some f) : m'.Backs f :=
    (h i f hf).mono hs (hn.fan i f hf).1
  cases hstep with
  | idle => exact kept hf
  | @cancelled t f cs hc => exact ⟨(kept hf).backlog, (kept hf).frame⟩
  | spawned => exact ⟨nofun, nofun⟩
  | @published _ f c hc =>
    have hcom := hs.commits_eq
    rw [hc] at hcom
    refine ⟨fun u hu => ?_, fun frame hfr => ?_⟩
    · rw [(c.publishTo_doc f).2]
      unfold Commit.publishTo at hu
      split at hu
      · rename_i v hv
        split at hu
        · rename_i hdoc
          obtain hu | rfl := mem_publish hu
          · exact (kept hf).backlog u hu
          · rw [hdoc, contents, hcom.1, Docs.heap_write, if_pos rfl]
            exact (commits_sound hc).merged v hv
        · exact (kept hf).backlog u hu
      · exact (kept hf).backlog u hu
    · rw [(c.publishTo_doc f).2]
      exact (kept hf).frame frame (by simpa using hfr)
  | @moved _ f _ hl =>
    have hk := kept hf
    cases hl with
    | cancelled => exact ⟨hk.backlog, nofun⟩
    | lagged hp hl =>
      refine ⟨hk.backlog, fun fr hfr => ?_⟩
      cases hfr
      rw [Frame.brings_of_content rfl, MergeSets.carried_snapshot]
      exact hs.contents_mono (hn.fan i f hf).1
    | @update u rest hp hl hb =>
      have hback := hk.backlog
      rw [hb] at hback
      refine ⟨fun v hv => hback v (List.mem_cons_of_mem _ hv), fun fr hfr => ?_⟩
      cases hfr
      rw [Frame.brings_of_content rfl]
      exact hback u List.mem_cons_self
    | targets hp =>
      refine ⟨hk.backlog, fun fr hfr => hk.frame fr ?_⟩
      simpa [hp, FanPhase.frame] using hfr
    | pushed =>
      refine ⟨hk.backlog, fun fr hfr => ?_⟩
      split at hfr <;> cases hfr
    | step1 =>
      refine ⟨hk.backlog, fun fr hfr => ?_⟩
      cases hfr
      rw [Frame.brings_of_not_content rfl]
      exact Set.empty_subset _
  | @pushed f frame target rest lag hp =>
    have hk := kept hf
    refine ⟨hk.backlog, fun fr hfr => hk.frame fr ?_⟩
    simpa [hp, FanPhase.frame] using hfr

theorem Reachable.fansBacked {device : DeviceInfo} (h : (system D P device).Reachable m) :
    m.FansBacked := by
  refine h.invariant (I := FansBacked) ?_ fun m a m' hr hI hs => ?_
  · rintro m ⟨trust, rooms, rfl⟩ i f hf
    obtain ⟨s, d, rfl⟩ := (new_fans device trust rooms).spawned i f hf
    exact ⟨nofun, nofun⟩
  · obtain ⟨σ, hσ⟩ := Reachable.named hr
    exact hI.step hσ (step_cases hs)

end Fans

end Manager

end Yoink
