import Yoink.Sync.Sessions

/-!
# What the last event says

A session is reported under the state lock when it starts and after the lock is released when
it ends, so the report of an old session may come after that of a new one. The event
stream tells the truth in the runs where no connection announces itself while a thread
still owes the disconnect of its key.
-/

namespace Yoink

variable {D P : Type}

namespace Manager

/-- No connection is announced while a disconnect of its key is owed. -/
def AnnouncesPaid (m : Manager D P) (a : Action P) : Prop :=
  ∀ e r, a = .tryAnnounce e → m.registered e = some r →
    m.state.identifies r.key r.generation = true → ∀ t, m.owed r.key t = 0

/-- The reports of `k` are true, or one of them is owed and the session is over. -/
structure Truthful (m : Manager D P) (k : ConnKey) : Prop where
  owing : ∀ t, m.owed k t ≠ 0 → m.state.announced k = false
  paid : (∀ t, m.owed k t = 0) →
    ((m.reports k).getLast? = some true ↔ m.state.announced k = true)

theorem Truthful.step {m m' : Manager D P} {a : Action P} {k : ConnKey} (h : m.Truthful k)
    (hs : m.SessionStep k a m') (hc : m.AnnouncesPaid a) : m'.Truthful k := by
  cases hs with
  | quiet ha hr ho =>
    refine ⟨fun t ht => ?_, fun hp => ?_⟩
    · rw [ha]
      exact h.owing t (ho ▸ ht)
    · rw [ha, hr]
      exact h.paid (ho ▸ hp)
  | @announced e r c _ hreg hk hl hg hl' hev ho =>
    subst hk
    have hpaid := hc e r rfl hreg (by simp [State.identifies, hl, hg])
    refine ⟨fun t ht => absurd (hpaid t) (ho ▸ ht), fun _ => ?_⟩
    simp [reports, hev, SyncEvent.session, State.announced, hl']
  | @ended _ _ t ha hn hr ho =>
    refine ⟨fun _ _ => hn, fun hp => ?_⟩
    have := hp t
    simp [ho] at this
  | @reported _ _ t ha hr ho =>
    have hover : m'.state.announced k = false := ha ▸ h.owing t (by simp [ho])
    exact ⟨fun _ _ => hover, fun _ => by simp [hr, hover]⟩

section Answer

variable [Yrs D P] [DecidableEq P] {device : DeviceInfo} {m m' : Manager D P} {a : Action P}
  {k : ConnKey}

/-- The event queue only grows. -/
theorem Step.events (h : m.Step a m') : ∃ events, m'.events = m.events ++ events := by
  cases h.tableStep with
  | quiet hq => exact ⟨[], by rw [hq.events, List.append_nil]⟩
  | call hc => exact ⟨_, perform_events m _⟩
  | register _ _ _ _ _ _ _ hev => exact ⟨[], by rw [hev, List.append_nil]⟩
  | announce => exact ⟨_, rfl⟩
  | finish => exact ⟨[], (List.append_nil _).symm⟩

/-- Every session reported as on is on, or its end was reported after it or is owed. -/
def Answered (m : Manager D P) (k : ConnKey) : Prop :=
  ∀ r₁ r₂, m.reports k = r₁ ++ true :: r₂ →
    m.state.announced k = true ∨ false ∈ r₂ ∨ ∃ t, m.owed k t ≠ 0

omit [Yrs D P] [DecidableEq P] in
theorem Answered.step (h : m.Answered k) (hs : m.SessionStep k a m') : m'.Answered k := by
  intro r₁ r₂ hr
  cases hs with
  | quiet ha hrep ho =>
    rw [ha, ho]
    exact h r₁ r₂ (hrep ▸ hr)
  | announced _ _ _ _ hl' => exact .inl (by simp [State.announced, hl'])
  | @ended _ _ t _ _ _ ho => exact .inr (.inr ⟨t, by simp [ho]⟩)
  | reported _ hrep =>
    obtain ⟨-, h, -⟩ | ⟨r₃, rfl, -⟩ := System.concat_eq_append_cons (hrep.symm.trans hr)
    · cases h
    · exact .inr (.inl (by simp))

theorem Reachable.answered (h : (system D P device).Reachable m) (k : ConnKey) :
    m.Answered k := by
  refine h.invariant (I := fun m => m.Answered k) ?_ fun m a m' ⟨_, hτ⟩ hI hs =>
    hI.step ((step_cases hs).sessionStep (Run.owesDisconnects hτ) k)
  rintro m ⟨trust, rooms, rfl⟩ r₁ r₂ hr
  simp [reports, (new_bare (D := D) (P := P) device trust rooms).events] at hr

end Answer

section Truth

variable [Yrs D P] [DecidableEq P] {device : DeviceInfo} {m : Manager D P}

/-- Once no thread owes a disconnect of `k`, its last event says whether it is connected. -/
theorem events_truthful
    (h : ((system D P device).restrict fun m a _ => m.AnnouncesPaid a).Reachable m) (k : ConnKey)
    (hp : ∀ t, k.disconnected ∉ m.calls t) :
    (m.reports k).getLast? = some true ↔ m.state.announced k = true := by
  have ht : m.Truthful k := by
    refine h.invariant (I := fun m => m.Truthful k) ?_ fun m a m' hr hI hs => ?_
    · rintro m ⟨trust, rooms, rfl⟩
      have hb := new_bare (D := D) (P := P) device trust rooms
      constructor <;> simp [State.announced, reports, owed, hb.connections, hb.events, hb.calls]
    · obtain ⟨τ, hτ⟩ := hr.of_restrict
      exact hI.step ((step_cases hs.1).sessionStep (Run.owesDisconnects hτ) k) hs.2
  exact ht.paid fun t => List.count_eq_zero.mpr (hp t)

/-- A connection that says HELLO, gets registered and has its first frame handled. -/
def greeting (e : EndId) : List (Action GrowSet) :=
  [.handleInbound e, .conn e (.recv (.frame (some (.hello ⟨"b", "B", 2, .devices⟩)))),
    .conn e (.sendHello ⟨"a", "A", 2, .devices⟩), .fetchDoc e, .register e, .sendStep1 e ∅,
    .conn e (.step1Sent true), .conn e (.recv (.frame (some (.syncStep2 ∅)))), .handleFrame e]

/-- The first connection's teardown removes its entry; before it emits the disconnect it owes, the
second connection is registered and announced. -/
theorem disconnect_reported_last :
    ∃ m : Manager GrowSet GrowSet, (system GrowSet GrowSet ⟨"a", "A"⟩).Reachable m ∧
      (∀ t ev, .emit ev ∉ m.calls t) ∧ m.state.announced ("b", .devices) = true ∧
      (m.reports ("b", .devices)).getLast? = some false := by
  let e : EndId := ⟨0, false⟩
  let e' : EndId := ⟨1, false⟩
  let start : Manager GrowSet GrowSet := .new ⟨"a", "A"⟩ ⟨false, ∅, ∅⟩ []
  let acts : List (Action GrowSet) :=
    greeting e ++ [.tryAnnounce e, .conn e .recvNone, .conn e .closed, .finishConnection e] ++
      greeting e' ++ [.tryAnnounce e', .call (.conn e), .call (.conn e)]
  obtain ⟨m, hm, hp⟩ := System.exists_of_exec
    (show (System.exec Manager.step start acts).any (fun m => m.state.announced ("b", .devices) &&
      decide ((m.reports ("b", .devices)).getLast? = some false) &&
      ((System.trace Manager.step start acts).filterMap (·.act.thread)).all
        fun t => decide (m.calls t = [])) = true by decide +kernel)
  simp only [Bool.and_eq_true, decide_eq_true_eq, List.all_eq_true] at hp
  obtain ⟨⟨ha, hlast⟩, hidle⟩ := hp
  refine ⟨m, (run_of_exec hm).reachable, fun t ev hc => ?_, ha, hlast⟩
  rw [Run.idle (run_of_exec hm) (List.append_nil _).symm hidle t] at hc
  cases hc

/-- One connection is announced, and no other thread has anything to do. -/
theorem events_truthful_announced :
    ∃ m : Manager GrowSet GrowSet, (m.reports ("b", .devices)).getLast? = some true ∧
      m.state.announced ("b", .devices) = true := by
  let e : EndId := ⟨0, false⟩
  let start : Manager GrowSet GrowSet := .new ⟨"a", "A"⟩ ⟨false, ∅, ∅⟩ []
  let acts : List (Action GrowSet) := greeting e ++ [.tryAnnounce e]
  obtain ⟨m, hm, hp⟩ := System.exists_of_exec
    (show (System.exec Manager.step start acts).any (fun m => m.state.announced ("b", .devices) &&
      ((System.trace Manager.step start acts).filterMap (·.act.thread)).all
        fun t => decide (m.calls t = [])) = true by decide +kernel)
  simp only [Bool.and_eq_true, decide_eq_true_eq, List.all_eq_true] at hp
  obtain ⟨ha, hlast⟩ := hp
  have hidle : ∀ u ∈ System.trace Manager.step start acts, ∀ t ∈
      (System.trace Manager.step start acts).filterMap (·.act.thread), u.pre.calls t = [] := by
    have h : (System.trace Manager.step start acts).all (fun u =>
        ((System.trace Manager.step start acts).filterMap (·.act.thread)).all
          fun t => decide (u.pre.calls t = [])) = true := by decide +kernel
    simpa only [List.all_eq_true, decide_eq_true_eq] using h
  have hrun := (run_of_exec hm).to_restrict (C := fun m a _ => m.AnnouncesPaid a)
    fun u hu e r _ _ _ t => by
      obtain ⟨τ₁, τ₂, heq⟩ := List.append_of_mem hu
      have hcalls := Run.idle ((run_of_exec hm).split heq).1 heq (hidle u hu) t
      simp [owed, hcalls]
  refine ⟨m, (events_truthful hrun.reachable _ fun t hc => ?_).mpr ha, ha⟩
  rw [Run.idle (run_of_exec hm) (List.append_nil _).symm hlast t] at hc
  cases hc

end Truth

end Manager

end Yoink
