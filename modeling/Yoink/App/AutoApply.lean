import Yoink.App.Handlers
import Yoink.Core.Replicas

/-!
# Auto-apply

In mirror mode a peer's update makes the loop write the latest entry of the devices document to
the OS clipboard, unless it is the one it wrote last. One id is enough to remember: as the last
visible item comes after all others that were ever integrated, the latest entry never steps back,
and the items the loop applies come in the order of the array.
-/

namespace Yoink

open History

/-- The loop of one replica, among all replicas of the devices document. -/
structure AutoApply (R E : Type) where
  replicas : Replicas R E
  app : App
  /-- The entries the last handler has still to add. -/
  adds : List ClipEntry

namespace AutoApply

/-- What happens to the loop and to the documents. -/
inductive Act (R E P : Type) where
  /-- The loop takes an event; `rooms` and `sync` are what else its handler reads. -/
  | handle (rooms : String → Option (List ClipEntry)) (sync : SyncView) (env : Env)
      (event : Event P)
  /-- The handler adds its entry, which is stored in the item `e`. -/
  | addEntry (e : E)
  /-- Another replica adds an entry, or any replica sends or applies an update. -/
  | replica (op : Op R E)

/-- The entries a handler adds to the devices document. -/
def devicesAdds : Option Command → List ClipEntry
  | some (.addEntry .devices entry) => [entry]
  | _ => []

variable {R E P : Type} [LinearOrder E] (me : R) (content : E → Any)

/-- The histories the loop of the replica `me` reads. -/
def docs (i : AutoApply R E) (rooms : String → Option (List ClipEntry)) : DocsView :=
  ⟨entries content (i.replicas.doc me), rooms⟩

def react (i : AutoApply R E) (rooms : String → Option (List ClipEntry)) (sync : SyncView)
    (env : Env) (event : Event P) : Reaction :=
  i.app.handle (i.docs me content rooms) sync env event

/-- The entry that a turn of the loop writes to the OS clipboard on a document's update. -/
def applied (t : Transition (AutoApply R E) (Act R E P)) : Option ClipEntry :=
  match t.act with
  | .handle rooms _ env (.docUpdate scope update) =>
    if (t.pre.app.onDocUpdate (t.pre.docs me content rooms) env scope update).setText.isSome then
      latest content (t.pre.replicas.doc me)
    else none
  | _ => none

section Runs

variable [DecidableEq R]

/-- The steps of the loop and of the replicas. -/
inductive Step (i : AutoApply R E) : Act R E P → AutoApply R E → Prop where
  | handle {rooms : String → Option (List ClipEntry)} {sync : SyncView} {env : Env}
      {event : Event P} (hidle : i.adds = []) :
      Step i (.handle rooms sync env event)
        { i with
          app := (i.react me content rooms sync env event).app
          adds := devicesAdds (i.react me content rooms sync env event).command }
  | addEntry {e : E} {entry : ClipEntry} {adds : List ClipEntry} {s : Replicas R E}
      (ha : i.adds = entry :: adds) (hs : (causal content).step i.replicas (.add me e entry) s) :
      Step i (.addEntry e) { i with replicas := s, adds }
  | replica {op : Op R E} {s : Replicas R E} (hop : ∀ e entry, op ≠ .add me e entry)
      (hs : (causal content).step i.replicas op s) :
      Step i (.replica op) { i with replicas := s }

/-- The runs of the loop of `me`: updates arrive in causal order, and nothing has been applied
yet. -/
def system : System (AutoApply R E) (Act R E P) where
  init i := (causal content).init i.replicas ∧ i.app.lastAppliedEntryId = none ∧ i.adds = []
  step := Step me content

/-- No two of the items hold entries with one id. -/
def UniqueIds (content : E → Any) (items : Finset E) : Prop :=
  ∀ x ∈ items, ∀ y ∈ items, ∀ a b, ClipEntry.fromAny (content x) = some a →
    ClipEntry.fromAny (content y) = some b → a.id = b.id → x = y

variable {me content} {i i' : AutoApply R E} {a : Act R E P}

/-- What happens to the documents is a run of the replicas. -/
theorem Reachable.replicas (h : (system me content (P := P)).Reachable i) :
    (causal content).Reachable i.replicas := by
  refine h.map (·.replicas) ?_ fun i a i' _ hr hs => ?_
  · rintro i ⟨hinit, -⟩
    exact ⟨[], .start hinit⟩
  · cases hs with
    | handle => exact hr
    | addEntry _ hs | replica _ hs => exact hr.next hs

theorem Step.added_subset (hs : Step me content i a i') :
    (i.replicas.doc me).added ⊆ (i'.replicas.doc me).added := by
  cases hs with
  | handle => exact subset_rfl
  | addEntry _ hs | replica _ hs => exact hs.1.added_subset me

/-- A step that writes nothing remembers nothing; one that writes, writes the latest entry, which
is not the one that was written last, and remembers it. -/
theorem Step.applied_cases (hs : Step me content i a i') :
    (applied me content ⟨i, a, i'⟩ = none ∧
      i'.app.lastAppliedEntryId = i.app.lastAppliedEntryId) ∨
    ∃ entry, applied me content ⟨i, a, i'⟩ = some entry ∧
      latest content (i.replicas.doc me) = some entry ∧
      i.app.lastAppliedEntryId ≠ some entry.id ∧
      i'.app.lastAppliedEntryId = some entry.id ∧ i'.replicas = i.replicas := by
  cases hs with
  | addEntry | replica => exact .inl ⟨rfl, rfl⟩
  | @handle rooms sync env event hidle =>
    by_cases he : ∃ scope update, event = .docUpdate scope update
    · obtain ⟨scope, update, rfl⟩ := he
      obtain ⟨hlast, htext⟩ | ⟨entry, hlatest, hne, hlast, htext⟩ :=
        i.app.onDocUpdate_cases (i.docs me content rooms) env scope update
      · exact .inl ⟨by simp [applied, htext], hlast⟩
      · refine .inr ⟨entry, ?_, hlatest, hne, hlast, rfl⟩
        simp only [applied, htext]
        exact hlatest
    · have hne (scope) (update) : event ≠ .docUpdate scope update := fun h => he ⟨_, _, h⟩
      refine .inl ⟨?_, i.app.handle_lastApplied _ sync env event hne⟩
      cases event with
      | docUpdate scope update => exact absurd rfl (hne scope update)
      | _ => rfl

/-- The entries applied so far were read off items in the order of the array, and the last of them
is remembered. -/
structure InOrder (me : R) (content : E → Any)
    (τ : List (Transition (AutoApply R E) (Act R E P))) (i : AutoApply R E)
    (items : List (E × ClipEntry)) : Prop where
  applied : items.map Prod.snd = τ.filterMap (applied me content)
  read : ∀ p ∈ items, p.1 ∈ (i.replicas.doc me).added ∧
    ClipEntry.fromAny (content p.1) = some p.2
  sorted : items.Pairwise fun p q => p.1 < q.1
  last : i.app.lastAppliedEntryId = items.getLast?.map (·.2.id)

theorem InOrder.step {τ : List (Transition (AutoApply R E) (Act R E P))}
    {items : List (E × ClipEntry)} (h : InOrder me content τ i items)
    (hs : Step me content i a i') (hread : i.replicas.Readable content)
    (hretains : i.replicas.Retains) :
    ∃ items', InOrder me content (τ ++ [⟨i, a, i'⟩]) i' items' := by
  have hkeep (p) (hp : p ∈ items) : p.1 ∈ (i'.replicas.doc me).added ∧
      ClipEntry.fromAny (content p.1) = some p.2 :=
    ⟨hs.added_subset (h.read p hp).1, (h.read p hp).2⟩
  obtain ⟨hnone, hlast⟩ | ⟨entry, hsome, hlatest, hne, hlast, hsame⟩ := hs.applied_cases
  · refine ⟨items, ?_, hkeep, h.sorted, hlast.trans h.last⟩
    rw [h.applied, List.filterMap_append]
    simp [hnone]
  · obtain ⟨y, hy, hentry⟩ := latest_eq_some (hread.doc me) hlatest
    have hmem : y ∈ (i.replicas.doc me).added := by
      obtain ⟨l, hl⟩ := List.getLast?_eq_some_iff.mp hy
      exact (TombSet.mem_toList.mp (by simp [hl])).1
    -- The items before it are at most as late as the one applied last, which is another one.
    have hlt : ∀ p ∈ items, p.1 < y := by
      intro p hp
      obtain ⟨l, q, rfl⟩ := (List.eq_nil_or_concat' items).resolve_left (List.ne_nil_of_mem hp)
      have hq := h.read q (by simp)
      have hqy : q.1 < y := by
        refine lt_of_le_of_ne ((hretains.doc me).le_last (by decide) hy hq.1) fun heq => ?_
        have hqe : q.2 = entry := Option.some.inj (hq.2.symm.trans (heq ▸ hentry))
        exact hne (by simp [h.last, hqe])
      obtain hp | hp := List.mem_append.mp hp
      · exact ((List.pairwise_append.mp h.sorted).2.2 p hp q (by simp)).trans hqy
      · exact (List.mem_singleton.mp hp) ▸ hqy
    refine ⟨items ++ [(y, entry)], ?_, fun p hp => ?_, ?_, ?_⟩
    · rw [List.map_append, h.applied, List.filterMap_append]
      simp [hsome]
    · obtain hp | hp := List.mem_append.mp hp
      · exact hkeep p hp
      · obtain rfl := List.mem_singleton.mp hp
        exact ⟨hs.added_subset hmem, hentry⟩
    · refine List.pairwise_append.mpr ⟨h.sorted, List.pairwise_singleton _ _, fun p hp q hq => ?_⟩
      exact (List.mem_singleton.mp hq) ▸ hlt p hp
    · simp [hlast]

/-- No entry is written to the OS clipboard twice. -/
theorem applied_once {τ : List (Transition (AutoApply R E) (Act R E P))}
    (h : (system me content).Run τ i) (hids : UniqueIds content (i.replicas.doc me).added) :
    ((τ.filterMap (applied me content)).map (·.id)).Nodup := by
  obtain ⟨items, hitems⟩ : ∃ items, InOrder me content τ i items := by
    refine h.history (I := fun τ i => ∃ items, InOrder me content τ i items) ?_
      fun τ i a i' hr hI hs => ?_
    · rintro i ⟨-, hlast, -⟩
      exact ⟨[], rfl, nofun, .nil, hlast⟩
    · obtain ⟨items, hitems⟩ := hI
      obtain ⟨σ, hσ⟩ := Reachable.replicas hr.reachable
      exact hitems.step hs (Run.readable hσ.of_restrict) (Run.retains hσ)
  rw [← hitems.applied, List.map_map]
  refine List.pairwise_map.mpr (hitems.sorted.imp_of_mem fun {p q} hp hq hlt heq => ?_)
  obtain ⟨hpmem, hpread⟩ := hitems.read p hp
  obtain ⟨hqmem, hqread⟩ := hitems.read q hq
  exact hlt.ne (hids p.1 hpmem q.1 hqmem p.2 q.2 hpread hqread heq)

end Runs

section Replay

/-- What a peer copied. -/
def note : ClipEntry := ⟨"e", "b", "B", "hello", 0⟩

/-- The update that brings it, in the first item. -/
def noted : Update Nat := ⟨∅, ⟨{0}, ∅⟩⟩

/-- The loop of a device in mirror mode. -/
def mirroring (replicas : Replicas Bool Nat) (lastAppliedEntryId : Option String) :
    AutoApply Bool Nat where
  replicas
  app := {
    device := ⟨"a", "A"⟩
    autoCapture := ShareMode.mirror.capturesClipboard
    autoApply := ShareMode.mirror.autoApplies
    advertiseRooms := true
    peers := ∅
    joinedRooms := ∅
    config := ⟨"a", none, [], [], []⟩
    lastAppliedEntryId
    configDirty := false
    forwarders := {.devices}
    advertised := [] }
  adds := []

/-- The event of the peer's update. -/
def updated : Act Bool Nat Unit :=
  .handle (fun _ => none) ⟨false, fun _ => false, ∅⟩ ⟨0, "", true⟩
    (.docUpdate .devices ⟨(), some "b"⟩)

def notes (_ : Nat) : Any := note.toAny

theorem latest_noted : latest notes ⟨{0}, ∅⟩ = some note := by
  have hlist : (⟨{0}, ∅⟩ : TombSet Nat).toList = [0] := by simp [TombSet.toList, TombSet.visible]
  have hread : ClipEntry.fromAny (notes 0) = some note := ClipEntry.fromAny_toAny (by decide)
  simp [latest, entries, hlist, hread]

/-- The update reaches the loop's replica. -/
theorem exists_delivered : ∃ τ s, (system true notes (P := Unit)).Run τ (mirroring s none) ∧
    s.doc true = ⟨{0}, ∅⟩ ∧ τ.filterMap (applied true notes) = [] := by
  let s₀ : Replicas Bool Nat := ⟨fun _ => ∅, ∅⟩
  let s₁ : Replicas Bool Nat := { s₀ with doc := Function.update s₀.doc false (addEntry ∅ 0) }
  let s₂ : Replicas Bool Nat := { s₁ with sent := insert noted s₁.sent }
  let s₃ : Replicas Bool Nat :=
    { s₂ with doc := Function.update s₂.doc true (applyUpdate ∅ noted.brings) }
  have hnoted : addEntry (∅ : TombSet Nat) 0 = noted.needs.merge noted.brings :=
    addEntry_of_lt rfl (by decide)
  have hadd : (causal notes).step s₀ (.add false 0 note) s₁ :=
    ⟨.add (by decide) rfl (fun _ => by simp [s₀]) (by simp [s₀]), trivial⟩
  have hshare : (causal notes).step s₁ (.share false noted) s₂ :=
    ⟨.share (by simpa [s₁] using hnoted), trivial⟩
  have happly : (causal notes).step s₂ (.apply true noted) s₃ :=
    ⟨.apply (Set.mem_insert _ _), by simp [Replicas.Causal, TombSet.Covers, noted]⟩
  have hrun : (system true notes (P := Unit)).Run [] (mirroring s₀ none) := .start ⟨rfl, rfl, rfl⟩
  refine ⟨_, s₃, ((hrun.next (.replica (by simp) hadd)).next
    (.replica (by simp) hshare)).next (.replica (by simp) happly), ?_, rfl⟩
  simp [s₃, applyUpdate, noted, TombSet.merge]

/-- The loop takes the event, whether it has applied the entry before or not. -/
theorem updated_step {s : Replicas Bool Nat} (hs : s.doc true = ⟨{0}, ∅⟩) {last : Option String}
    (hlast : last = none ∨ last = some "e") :
    Step true notes (mirroring s last) updated (mirroring s (some "e")) ∧
      applied true notes ⟨mirroring s last, updated, mirroring s (some "e")⟩ =
        if last = none then some note else none := by
  have hlatest : ((mirroring s last).docs true notes fun _ => none).devices.getLast? = some note :=
    (congrArg (latest notes) hs).trans latest_noted
  have hreact : (mirroring s last).app.onDocUpdate
      ((mirroring s last).docs true notes fun _ => none) ⟨0, "", true⟩ .devices
      (⟨(), some "b"⟩ : DocUpdate Unit) =
      { app := (mirroring s (some "e")).app
        setText := if last = none then some "hello" else none } := by
    simp only [App.onDocUpdate, hlatest]
    obtain rfl | rfl := hlast <;> rfl
  refine ⟨?_, ?_⟩
  · have h : Step true notes (mirroring s last) updated _ := .handle rfl
    simp only [react, App.handle, hreact] at h
    exact h
  · simp only [applied, updated, hreact]
    obtain rfl | rfl := hlast
    · exact hlatest
    · rfl

/-- The peer's update arrives, and the loop takes its event twice. -/
theorem applied_once_replayed : ∃ (τ : List (Transition (AutoApply Bool Nat) (Act Bool Nat Unit)))
    (i : AutoApply Bool Nat), (system true notes).Run τ i ∧
      τ.filterMap (applied true notes) = [note] ∧
      ((τ.filterMap (applied true notes)).map (·.id)).Nodup := by
  obtain ⟨τ, s, hrun, hs, hnone⟩ := exists_delivered
  obtain ⟨hstep, hfirst⟩ := updated_step hs (.inl rfl)
  obtain ⟨hstep', hsecond⟩ := updated_step hs (.inr rfl)
  have hruns := (hrun.next hstep).next hstep'
  refine ⟨_, _, hruns, ?_, applied_once hruns fun x hx y hy _ _ _ _ _ => ?_⟩
  · simp [List.filterMap_append, hnone, hfirst, hsecond]
  · have hadded : ((mirroring s (some "e")).replicas.doc true).added = {0} :=
      congrArg TombSet.added hs
    rw [hadded, Finset.mem_singleton] at hx hy
    exact hx.trans hy.symm

end Replay

end AutoApply

end Yoink
