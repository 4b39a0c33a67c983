import Yoink.Sync.Contents
import Yoink.Sync.Documents

/-!
# Fan-outs and their targets

The fan-out of a synced scope runs until the scope is left (`FansHeld`). The targets it
collects are connections that are registered for good (`Targeted`), and those of a fan-out that
still has its handle work on its own document (`Served`).
-/

namespace Yoink

variable {D P : Type}

/-- The targets a fan-out has not handed its frame to yet. -/
def FanPhase.targets : FanPhase P → List (ConnKey × ConnectionHandle)
  | .push _ targets _ => targets
  | _ => []

/-- Only leaving a room drops a fan-out. -/
theorem State.dropFanOut_mem_leaveRoom {s : State} {name : String} {i : TaskId}
    (h : .dropFanOut i ∈ (s.leaveRoom name).2) :
    name ∈ s.joined ∧ s.fanOuts.lookup (.room name) = some i := by
  unfold leaveRoom at h
  split at h
  · refine ⟨‹_›, ?_⟩
    simp only [List.mem_append, List.mem_map, List.mem_flatMap, Option.mem_toList, reduceCtorEq,
      and_false, exists_false, or_false] at h
    obtain ⟨j, hj, hij⟩ | ⟨c, -, hc⟩ := h
    · cases hij
      exact hj
    · obtain h | h := mem_dropConnection hc <;> cases h
  · cases h

namespace Manager

/-- A fan-out with a handle runs for its scope, and nobody is about to stop it. -/
structure FansHeld (m : Manager D P) : Prop where
  task : ∀ s i, m.state.fanOuts.lookup s = some i → ∃ f, m.fans i = some f ∧ f.scope = s ∧
    f.cancelled = false ∧ f.phase ≠ .returned
  owed : ∀ s i t, m.state.fanOuts.lookup s = some i → .dropFanOut i ∉ m.calls t
  bound : ∀ s i, m.state.fanOuts.lookup s = some i → i < m.spawned
  dropped : ∀ i t, .dropFanOut i ∈ m.calls t → i < m.spawned

section Held

variable [Yrs D P] {m m' : Manager D P} {a : Action P}

theorem dropFanOut_mem_perform {c : Call} {i : TaskId} (h : .dropFanOut i ∈ (m.perform c).2) :
    ∃ name, c = .leaveRoom name ∧ name ∈ m.state.joined ∧
      m.state.fanOuts.lookup (.room name) = some i := by
  cases c with
  | leaveRoom name => exact ⟨name, rfl, State.dropFanOut_mem_leaveRoom h⟩
  | setTrusted d b =>
    simp only [perform, State.setTrusted] at h
    split at h
    · simp at h
    · simp only [List.mem_append, List.mem_map, List.mem_flatMap, reduceCtorEq, and_false,
        exists_false, false_or] at h
      obtain ⟨c, -, hc⟩ := h
      obtain h | h := State.mem_dropConnection hc <;> cases h
  | forceClose key g =>
    simp only [perform, State.forceClose] at h
    split at h <;> try split at h
    · obtain h | h := State.mem_dropConnection h <;> cases h
    all_goals cases h
  | peerDiscovered peer =>
    simp only [perform, State.peerDiscovered] at h
    split at h <;> simp at h
  | peerLost d => simp [perform, State.peerLost] at h
  | joinRoom name =>
    obtain heq | ⟨-, -, -, hd⟩ := m.joinRoom_cases name
    · simp [perform, heq] at h
    · obtain ⟨d, h⟩ := hd _ h
      cases h
  | addEntry scope entry =>
    simp only [perform] at h
    split at h <;> cases h
  | _ => cases h

theorem new_fansHeld (device : DeviceInfo) (trust : TrustSettings) (rooms : List String) :
    (Manager.new device trust rooms : Manager D P).FansHeld := by
  have hnew := new_fans (D := D) (P := P) device trust rooms
  have hcalls := (new_bare (D := D) (P := P) device trust rooms).calls
  refine ⟨fun s i hi => ?_, fun s i t hi => ?_, fun s i hi => (hnew.held s i hi).1, fun i t h => ?_⟩
  · obtain ⟨-, d, hd⟩ := hnew.held s i hi
    exact ⟨_, hd, rfl, rfl, nofun⟩
  · simp [hcalls]
  · simp [hcalls] at h

variable [DecidableEq P]

/-- Where a drop that is owed comes from. -/
theorem Step.drops (h : m.Step a m') {i : TaskId} {t : ThreadId}
    (hd : .dropFanOut i ∈ m'.calls t) :
    .dropFanOut i ∈ m.calls t ∨ ∃ name cs, a = .call t ∧ m.calls t = .leaveRoom name :: cs ∧
      name ∈ m.state.joined ∧ m.state.fanOuts.lookup (.room name) = some i := by
  have hs := h.callStep t
  generalize hcs : m.calls t = cs at hs ⊢
  generalize m'.calls t = cs' at hs hd
  cases hs with
  | idle => exact .inl hd
  | @invoked _ command =>
    have := command.calls_isEffect _ hd
    cases this
  | @made c cs =>
    obtain hd | hd := List.mem_append.mp hd
    · obtain ⟨name, rfl, hj, hl⟩ := dropFanOut_mem_perform hd
      exact .inr ⟨name, cs, rfl, rfl, hj, hl⟩
    · exact .inl (List.mem_cons_of_mem _ hd)
  | given _ _ _ _ hn => exact absurd hd (hn i)

/-- Where a handle comes from. -/
theorem Step.fanOut (h : m.Step a m') {s : Scope} {i : TaskId}
    (hl : m'.state.fanOuts.lookup s = some i) :
    (m.state.fanOuts.lookup s = some i ∧ ∀ t name cs, a = .call t →
        m.calls t = .leaveRoom name :: cs → name ∈ m.state.joined → s ≠ .room name) ∨
      (i = m.spawned ∧ m'.spawned = m.spawned + 1 ∧
        ∃ name d, s = .room name ∧ name ∉ m.state.joined ∧ name ∈ m'.state.joined ∧
          m'.fans i = some (.spawn s d)) := by
  have other {t : ThreadId} {c : Call} {cs : List Call} (hc : m.calls t = c :: cs)
      (hn : ∀ name, c ≠ .leaveRoom name) (t' : ThreadId) (name : String) (cs' : List Call)
      (ha : Action.call (P := P) t = .call t') : m.calls t' ≠ .leaveRoom name :: cs' := by
    cases ha
    rw [hc]
    exact fun h => hn name (List.cons.inj h).1
  cases h.roomStep with
  | quiet _ _ _ hf hc =>
    refine .inl ⟨by rwa [← hf], fun t name cs ha hcs => absurd hcs (hc t name cs ha).1⟩
  | created hc =>
    exact .inl ⟨hl, fun t name cs ha hcs => absurd hcs (other hc (by simp) t name cs ha)⟩
  | removed hc =>
    exact .inl ⟨hl, fun t name cs ha hcs => absurd hcs (other hc (by simp) t name cs ha)⟩
  | @joined t name cs _ hc hn _ hj hf hfs hsp =>
    rw [hf, FinMap.lookup_insert_ite] at hl
    split at hl
    · cases hl
      subst s
      refine .inr ⟨rfl, hsp, name, _, rfl, hn, ?_, by rw [hfs, Function.update_self]⟩
      rw [hj]
      exact Finset.mem_insert_self _ _
    · exact .inl ⟨hl, fun t name cs ha hcs => absurd hcs (other hc (by simp) t name cs ha)⟩
  | @left t name cs _ hc _ _ hf =>
    rw [hf] at hl
    split at hl
    · cases hl
    · rename_i hne
      refine .inl ⟨hl, fun t' name' cs' ha hcs hj hs => hne ?_⟩
      cases ha
      rw [hc] at hcs
      cases hcs
      exact ⟨hj, hs⟩

theorem FansHeld.step (h : m.FansHeld) (hs : m.Step a m') : m'.FansHeld where
  task s i hl := by
    obtain ⟨hl, -⟩ | ⟨rfl, -, name, d, rfl, -, -, hf⟩ := hs.fanOut hl
    · obtain ⟨f, hf, hsc, hc, hp⟩ := h.task s i hl
      have hstep := hs.fanStep i
      rw [hf] at hstep
      generalize m'.fans i = o at hstep
      cases hstep with
      | idle => exact ⟨f, rfl, hsc, hc, hp⟩
      | @cancelled t _ _ hcalls => exact absurd (by simp [hcalls]) (h.owed s i t hl)
      | spawned hi => exact absurd hi (Nat.ne_of_lt (h.bound s i hl))
      | @published _ _ c =>
        exact ⟨_, rfl, (c.publishTo_doc f).1.trans hsc, (c.publishTo_cancelled f).trans hc,
          by simpa using hp⟩
      | moved hm =>
        cases hm with
        | cancelled hcan => simp [hc] at hcan
        | pushed =>
          refine ⟨_, rfl, hsc, hc, ?_⟩
          simp only
          split <;> simp
        | _ => exact ⟨_, rfl, hsc, hc, nofun⟩
      | pushed => exact ⟨_, rfl, hsc, hc, nofun⟩
    · exact ⟨_, hf, rfl, rfl, nofun⟩
  owed s i t hl hd := by
    obtain ⟨hl, hne⟩ | ⟨rfl, -, -⟩ := hs.fanOut hl
    · obtain hd | ⟨name, cs, rfl, hc, hj, hl'⟩ := hs.drops hd
      · exact h.owed s i t hl hd
      · refine hne t name cs rfl hc hj ?_
        obtain ⟨f, hf, rfl, -⟩ := h.task s i hl
        obtain ⟨f', hf', hsc, -⟩ := h.task _ i hl'
        rw [← hsc, Option.some.inj (hf.symm.trans hf')]
    · obtain hd | ⟨name, cs, rfl, hc, hj, hl'⟩ := hs.drops hd
      · exact absurd (h.dropped _ t hd) (Nat.lt_irrefl _)
      · exact absurd (h.bound _ _ hl') (Nat.lt_irrefl _)
  bound s i hl := by
    obtain ⟨hl, -⟩ | ⟨rfl, hsp, -⟩ := hs.fanOut hl
    · exact lt_of_lt_of_le (h.bound s i hl) hs.spawned_le
    · rw [hsp]
      exact Nat.lt_succ_self _
  dropped i t hd := by
    refine lt_of_lt_of_le ?_ hs.spawned_le
    obtain hd | ⟨name, cs, -, -, -, hl⟩ := hs.drops hd
    · exact h.dropped i t hd
    · exact h.bound _ i hl

theorem Reachable.fansHeld {device : DeviceInfo} (h : (system D P device).Reachable m) :
    m.FansHeld := by
  refine h.invariant (I := FansHeld) ?_ fun m a m' _ hI hs => hI.step (step_cases hs)
  rintro m ⟨trust, rooms, rfl⟩
  exact new_fansHeld device trust rooms

/-- Fan-outs have ids that were handed out. -/
theorem Reachable.fans_lt {device : DeviceInfo} (h : (system D P device).Reachable m) :
    ∀ i f, m.fans i = some f → i < m.spawned := by
  refine h.invariant (I := fun m => ∀ i f, m.fans i = some f → i < m.spawned) ?_
    fun m a m' _ hI hs i f' hf' => ?_
  · rintro m ⟨trust, rooms, rfl⟩
    refine new_induction (I := fun m : Manager D P => ∀ i f, m.fans i = some f → i < m.spawned)
      (fun i f hf => ?_) fun m name hI => ?_
    · simp only [spawnFanOut, setFan, initial, Function.update_apply] at hf
      split at hf <;> cases hf
      subst i
      exact Nat.zero_lt_one
    · obtain heq | ⟨-, -, heq, -⟩ := m.joinRoom_cases name
      · rwa [heq]
      · rw [heq]
        intro i f hf
        simp only [Function.update_apply] at hf
        split at hf
        · subst i
          exact Nat.lt_succ_self _
        · exact Nat.lt_succ_of_lt (hI i f hf)
  · have hs := step_cases hs
    obtain ⟨f, hf, -⟩ | ⟨t, name, cs, rfl, rfl, hc, hn, -⟩ := (hs.fanStep i).doc hf'
    · exact lt_of_lt_of_le (hI i f hf) hs.spawned_le
    · cases hs.roomStep with
      | quiet _ _ _ _ hq => exact absurd hn ((hq t name cs rfl).2 hc)
      | joined _ _ _ _ _ _ hsp =>
        rw [hsp]
        exact Nat.lt_succ_self _
      | created hc' | removed hc' | left hc' =>
        rw [hc] at hc'
        cases hc'

end Held

/-- What a target found in the registry names: a connection that was registered under its key,
with its generation. -/
structure Aimed (m : Manager D P) (target : ConnKey × ConnectionHandle) : Prop where
  entered : m.pending target.2.task = false
  same : ∀ r, m.registered target.2.task = some r →
    r.key = target.1 ∧ r.generation = target.2.generation

/-- All targets of fan-outs are of that kind. -/
def Targeted (m : Manager D P) : Prop :=
  ∀ i f target, m.fans i = some f → target ∈ f.phase.targets → m.Aimed target

/-- The targets of a fan-out that has its handle work on the document it is subscribed to. -/
def Served (m : Manager D P) : Prop :=
  ∀ s i f target r, m.state.fanOuts.lookup s = some i → m.fans i = some f →
    target ∈ f.phase.targets → m.registered target.2.task = some r → r.doc = f.doc

section Targets

variable [Yrs D P] [DecidableEq P] {m m' : Manager D P} {a : Action P}

omit [Yrs D P] [DecidableEq P] in
theorem ConnsOwned.aimed (h : m.ConnsOwned) {k : ConnKey} {c : ConnectionHandle}
    (hl : m.state.connections.lookup k = some c) : m.Aimed (k, c) := by
  have hkey := h.exact.key_of_holder (holder_eq_some.mpr ⟨c, hl, rfl⟩)
  obtain ⟨r, hr, rfl⟩ := Option.map_eq_some_iff.mp hkey
  refine ⟨?_, fun r' hr' => ?_⟩
  · by_contra hp
    rw [pending_registered (by simpa using hp)] at hr
    cases hr
  · obtain rfl : r = r' := Option.some.inj (hr.symm.trans hr')
    exact ⟨rfl, h.matched _ _ _ hl hr⟩

/-- A task that was registered is never registered again. -/
theorem Step.registered_of_entered (h : m.Step a m') {e : EndId} (he : m.pending e = false)
    {r : Registered} (hr : m'.registered e = some r) : m.registered e = some r := by
  obtain hr | ⟨-, -, t, ht, hp⟩ := (h.connStep e).entering hr
  · exact hr
  · simp [pending, ht, hp, Phase.pending] at he

theorem Aimed.step {target : ConnKey × ConnectionHandle} (h : m.Aimed target)
    (hs : m.Step a m') : m'.Aimed target where
  entered := by
    by_contra hp
    have hp : m'.pending target.2.task = true := by simpa using hp
    have hold : m.pending target.2.task = true := (hs.connStep _).pending hp
    rw [h.entered] at hold
    cases hold
  same r hr := h.same r (hs.registered_of_entered h.entered hr)

omit [DecidableEq P] in
/-- Where the targets of a fan-out come from. -/
theorem FanStep.target {i : TaskId} {o : Option (FanOut P)} {f' : FanOut P}
    (h : m.FanStep i a o (some f')) {target : ConnKey × ConnectionHandle}
    (ht : target ∈ f'.phase.targets) :
    ∃ f, o = some f ∧ f'.scope = f.scope ∧ f'.doc = f.doc ∧ (target ∈ f.phase.targets ∨
      m.state.connections.lookup target.1 = some target.2 ∧ target.1.2 = f.scope) := by
  cases h with
  | idle | cancelled => exact ⟨_, rfl, rfl, rfl, .inl ht⟩
  | spawned => cases ht
  | published =>
    rename_i f c hc
    exact ⟨f, rfl, (c.publishTo_doc f).1, (c.publishTo_doc f).2, .inl (by simpa using ht)⟩
  | pushed hp =>
    refine ⟨_, rfl, rfl, rfl, .inl ?_⟩
    rw [hp]
    exact List.mem_cons_of_mem _ ht
  | moved hs =>
    cases hs with
    | targets hp =>
      refine ⟨_, rfl, rfl, rfl, .inr ?_⟩
      obtain ⟨hm, hsc⟩ := List.mem_filter.mp ht
      simp only [Bool.and_eq_true, decide_eq_true_eq] at hsc
      exact ⟨FinMap.mem_toPairs.mp hm, hsc.1⟩
    | pushed =>
      simp only at ht
      split at ht <;> cases ht
    | _ => cases ht

theorem Targeted.step (h : m.Targeted) (ho : m.ConnsOwned) (hs : m.Step a m') :
    m'.Targeted := by
  intro i f' target hf' ht
  have hstep := hs.fanStep i
  rw [hf'] at hstep
  obtain ⟨f, hf, -, -, hold | ⟨hl, -⟩⟩ := hstep.target ht
  · exact (h i f target hf hold).step hs
  · exact (ho.aimed hl).step hs

theorem Served.step (h : m.Served) (ht : m.Targeted) (ho : m.Owned) (hheld : m.FansHeld)
    (hsub : m.Subscribed) (hcur : m.EntriesCurrent) (hs : m.Step a m') : m'.Served := by
  intro s i f' target r hl hf' htar hr
  have hstep := hs.fanStep i
  rw [hf'] at hstep
  obtain ⟨f, hf, hsc, hdoc, hmem⟩ := hstep.target htar
  obtain ⟨hl, -⟩ | ⟨rfl, -, name, d, rfl, -, -, hnew⟩ := hs.fanOut hl
  · rw [hdoc]
    obtain hmem | ⟨hlook, hscope⟩ := hmem
    · exact h s i f target r hl hf hmem
        (hs.registered_of_entered (ht i f target hf hmem).entered hr)
    · -- The entry's document is the one its scope's fan-out is subscribed to.
      have hr := hs.registered_of_entered (ho.conns.aimed hlook).entered hr
      obtain ⟨f₀, hf₀, rfl, -⟩ := hheld.task s i hl
      obtain rfl : f = f₀ := Option.some.inj (hf.symm.trans hf₀)
      have hsync := State.synced_of_accepts
        (ho.admitted.connections target.1 (by simp [hlook]))
      obtain ⟨d, i', f', hd, hl', hf', rfl⟩ := hsub.current _ hsync
      rw [hscope, hl] at hl'
      cases hl'
      obtain rfl : f = f' := Option.some.inj (hf.symm.trans hf')
      exact Option.some.inj ((hcur _ _ r hlook hr).symm.trans hd)
  · rw [hf'] at hnew
    cases hnew
    cases htar

theorem Reachable.targeted {device : DeviceInfo} (h : (system D P device).Reachable m) :
    m.Targeted := by
  refine h.invariant (I := Targeted) ?_
    fun m a m' hr hI hs => hI.step (Reachable.owned hr).conns (step_cases hs)
  rintro m ⟨trust, rooms, rfl⟩ i f target hf ht
  obtain ⟨s, d, rfl⟩ := (new_fans device trust rooms).spawned i f hf
  cases ht

theorem Reachable.served {device : DeviceInfo} (h : (currentSystem D P device).Reachable m) :
    m.Served := by
  refine System.Reachable.invariant (S := currentSystem D P device) (I := Served) ?_
    (fun m a m' hr hI hs => ?_) h
  · rintro m ⟨trust, rooms, rfl⟩ s i f target r hl hf ht
    obtain ⟨s, d, rfl⟩ := (new_fans device trust rooms).spawned i f hf
    cases ht
  · have happ : (appSystem D P device).Reachable m := hr.of_restrict
    have hsys : (system D P device).Reachable m := happ.of_restrict
    exact hI.step (Reachable.targeted hsys) (Reachable.owned hsys) (Reachable.fansHeld hsys)
      (Reachable.roomsOwned happ).2 (Reachable.entriesCurrent hr) (step_cases hs.1.1)

/-- A target is past its handshake, so nothing is queued for a connection before that. -/
theorem Reachable.unqueued {device : DeviceInfo} (h : (system D P device).Reachable m)
    {e : EndId} {t : ConnTask P} (ht : m.conns e = some t) (hp : t.phase.pending = true) :
    t.outbound = [] := by
  refine h.invariant (I := fun m => ∀ t, m.conns e = some t → t.phase.pending = true →
    t.outbound = []) ?_ (fun m a m' hr hI hs t' ht' hp' => ?_) t ht hp
  · rintro m ⟨trust, rooms, rfl⟩ t ht
    simp [(new_bare device trust rooms).conns] at ht
  · have hstep := (step_cases hs).connStep e
    rw [ht'] at hstep
    generalize hm : m.conns e = o at hstep
    have hold : ∀ t, o = some t → t.phase.pending = true := by
      have hall := hstep.pending (by simpa using hp')
      rintro t rfl
      simpa using hall
    cases hstep with
    | idle => exact hI _ hm (hold _ rfl)
    | accepted | dialed => rfl
    | @queued i f frame target rest lag t hf hph htask =>
      subst htask
      have haim := Reachable.targeted hr i f target hf (by simp [hph, FanPhase.targets])
      exact absurd haim.entered (by simp [pending, hm, hold _ rfl])
    | moved hc hs =>
      have h := hI _ hm (hold _ rfl)
      cases hs with
      | dequeue hph => simp [hph, Phase.pending] at hold
      | _ => exact h
    | _ =>
      have h := hI _ hm (hold _ rfl)
      exact h

end Targets

end Manager

end Yoink
