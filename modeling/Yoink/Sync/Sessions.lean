import Yoink.Sync.Rooms
import Mathlib.Algebra.BigOperators.Finprod
import Yoink.Core.GrowSet

/-!
# Sessions and the events that report them

A session of a key is a period in which the registry holds an announced entry for it.
`SessionStep` says what a step may do to the session of one key: start it and report
it at once, end it and leave the report to a thread, or make a report that is owed.
-/

namespace Yoink

variable {D P : Type}

/-- What an event says about the session of `key`: that it is on, or that it is over. -/
def SyncEvent.session (key : ConnKey) : SyncEvent → Option Bool
  | .peerConnected d _ s => if (d, s) = key then some true else none
  | .peerDisconnected d s => if (d, s) = key then some false else none

/-- The connection task whose step an action is. -/
def Action.connection : Action P → Option EndId
  | .conn e _ | .fetchDoc e | .register e | .sendStep1 e _ | .handleFrame e | .tryAnnounce e
  | .finishConnection e => some e
  | _ => none

namespace Manager

/-- The reports about the session of `k`, in the order they were emitted. -/
def reports (m : Manager D P) (k : ConnKey) : List Bool := m.events.filterMap (·.session k)

/-- How many disconnects of `k` thread `t` still has to emit. -/
def owed (m : Manager D P) (k : ConnKey) (t : ThreadId) : Nat := (m.calls t).count k.disconnected

/-- Threads only ever owe disconnects: a connect is reported under the lock. -/
def OwesDisconnects (m : Manager D P) : Prop :=
  ∀ t d n s, .emit (.peerConnected d n s) ∉ m.calls t

section Step

variable [Yrs D P] [DecidableEq P] {m m' : Manager D P} {a : Action P}

theorem OwesDisconnects.step (h : m.OwesDisconnects) (hs : m.Step a m') :
    m'.OwesDisconnects := by
  intro t d n s hc
  have hstep := hs.callStep t
  generalize hcs : m.calls t = cs at hstep
  generalize hcs' : m'.calls t = cs' at hstep hc
  have hold := hcs ▸ h t d n s
  cases hstep with
  | idle => exact hold hc
  | @invoked i command ht => simpa [Call.isEffect] using command.calls_isEffect _ hc
  | @made c cs =>
    obtain hc | hc := List.mem_append.mp hc
    · exact (m.perform_releases c).connected d n s hc
    · exact hold (List.mem_cons_of_mem _ hc)
  | given _ _ hev => exact hev d n s hc

/-- A connect is emitted by `try_announce`. -/
theorem Step.emits_connected (h : m.Step a m') (ho : m.OwesDisconnects) {events : List SyncEvent} {d : DeviceId}
    {name : String} {s : Scope} (hev : m'.events = m.events ++ events)
    (hmem : .peerConnected d name s ∈ events) :
    ∃ e t r reply, a = .tryAnnounce e ∧ m.conns e = some t ∧ t.phase = .handled r reply ∧
      r.peer.deviceId = d ∧ r.peer.deviceName = name ∧ r.peer.scope = s := by
  have hnone (evs : List SyncEvent) (h : m'.events = m.events ++ evs) : evs = events :=
    List.append_cancel_left (h.symm.trans hev)
  cases h.tableStep with
  | quiet hq =>
    obtain rfl := hnone [] (by rw [hq.events, List.append_nil])
    cases hmem
  | @call t c cs hc =>
    obtain rfl := hnone c.event.toList (by rw [setCalls_events, perform_events])
    have hc' : c = .emit (.peerConnected d name s) := by
      cases c <;> simp_all [Call.event]
    exact absurd (by simp [hc, hc']) (ho t d name s)
  | register _ _ _ _ _ _ _ hq =>
    obtain rfl := hnone [] (by rw [hq, List.append_nil])
    cases hmem
  | @announce e t r reply c ht hp =>
    obtain rfl := hnone _ rfl
    obtain ⟨rfl, rfl, rfl⟩ : d = r.peer.deviceId ∧ name = r.peer.deviceName ∧
        s = r.peer.scope := by
      simpa using hmem
    exact ⟨e, t, r, reply, rfl, ht, hp, rfl, rfl, rfl⟩
  | finish =>
    obtain rfl := hnone [] (by simp)
    cases hmem

/-- What a step may do to the session of `k`. -/
inductive SessionStep (m : Manager D P) (k : ConnKey) : Action P → Manager D P → Prop where
  | quiet {a : Action P} {m' : Manager D P} (ha : m'.state.announced k = m.state.announced k)
      (hr : m'.reports k = m.reports k) (ho : m'.owed k = m.owed k) : SessionStep m k a m'
  | announced {e : EndId} {r : Registered} {c : ConnectionHandle} {m' : Manager D P}
      (hreg : m.registered e = some r) (hk : r.key = k)
      (hl : m.state.connections.lookup k = some c) (hg : c.generation = r.generation)
      (hl' : m'.state.connections.lookup k = some { c with announced := true })
      (hev : m'.events = m.events ++ [.peerConnected k.1 r.peer.deviceName k.2])
      (ho : m'.owed k = m.owed k) : SessionStep m k (.tryAnnounce e) m'
  | ended {a : Action P} {m' : Manager D P} {t : ThreadId} (ha : m.state.announced k = true)
      (hn : m'.state.announced k = false) (hr : m'.reports k = m.reports k)
      (ho : m'.owed k = Function.update (m.owed k) t (m.owed k t + 1))
      (hf : ∀ e, a = .finishConnection e → ∃ r, m.registered e = some r ∧ r.key = k ∧
        m.state.identifies k r.generation = true)
      (hc : (∃ i, a = .call i) ∨ ∃ e, a = .finishConnection e) : SessionStep m k a m'
  | reported {a : Action P} {m' : Manager D P} {t : ThreadId}
      (ha : m'.state.announced k = m.state.announced k) (hr : m'.reports k = m.reports k ++ [false])
      (ho : m.owed k = Function.update (m'.owed k) t (m'.owed k t + 1)) : SessionStep m k a m'

omit [Yrs D P] [DecidableEq P] in
theorem owed_of_calls {k : ConnKey} {t : ThreadId} {cs : List Call}
    (h : m'.calls = Function.update m.calls t cs) :
    m'.owed k = Function.update (m.owed k) t (cs.count k.disconnected) := by
  funext t'
  simp only [owed, h, Function.update_apply]
  split <;> rfl

omit [Yrs D P] [DecidableEq P] in
theorem announced_of_lookup {k : ConnKey}
    (h : m'.state.connections.lookup k = m.state.connections.lookup k) :
    m'.state.announced k = m.state.announced k := by
  simp [State.announced, h]

omit [DecidableEq P] in
theorem SessionStep.of_call (ho : m.OwesDisconnects) (k : ConnKey) {t : ThreadId} {c : Call}
    {cs : List Call} (hc : m.calls t = c :: cs)
    (hl : m'.state.connections.lookup k =
      if c.gone m.state k then none else m.state.connections.lookup k)
    (hev : m'.events = m.events ++ c.event.toList)
    (hcalls : m'.calls = Function.update m.calls t ((m.perform c).2 ++ cs)) :
    m.SessionStep k (.call t) m' := by
  have howed := owed_of_calls (k := k) hcalls
  rw [List.count_append] at howed
  have hold : m.owed k t = (c :: cs).count k.disconnected := by rw [owed, hc]
  have hann : m'.state.announced k = (m.state.announced k && !c.gone m.state k) := by
    simp only [State.announced, hl]
    cases c.gone m.state k <;> simp
  by_cases hem : ∃ ev, c = .emit ev
  · obtain ⟨ev, rfl⟩ := hem
    have hann' : m'.state.announced k = m.state.announced k := by simpa [Call.gone] using hann
    cases ev with
    | peerConnected d n s => exact absurd (by simp [hc]) (ho t d n s)
    | peerDisconnected d s =>
      have howed' : m'.owed k = Function.update (m.owed k) t (cs.count k.disconnected) := by
        simpa [perform] using howed
      by_cases hk : (d, s) = k
      · subst hk
        refine .reported (t := t) hann' (by simp [reports, hev, Call.event, SyncEvent.session]) ?_
        rw [howed', Function.update_self, Function.update_idem, eq_comm,
          Function.update_eq_self_iff, hold, List.count_cons_self]
      · have hne : Call.emit (.peerDisconnected d s) ≠ k.disconnected := by
          simpa [Prod.ext_iff] using hk
        refine .quiet hann' (by simp [reports, hev, Call.event, SyncEvent.session, hk]) ?_
        rw [howed', Function.update_eq_self_iff, hold, List.count_cons_of_ne hne]
  · have hrep : m'.reports k = m.reports k := by
      cases c <;> simp_all [Call.event, reports]
    have hne : c ≠ k.disconnected := fun h => hem ⟨_, h⟩
    rw [List.count_cons_of_ne hne] at hold
    have hcount := (m.perform_releases c).disconnected k
    by_cases hg : c.gone m.state k = true ∧ m.state.announced k = true
    · refine .ended (t := t) hg.2 (by rw [hann, hg.1, Bool.not_true, Bool.and_false]) hrep ?_
        (by simp) (.inl ⟨t, rfl⟩)
      rw [howed, hcount, if_pos hg, hold, Nat.add_comm]
    · refine .quiet ?_ hrep ?_
      · rw [hann]
        cases hgone : c.gone m.state k <;> simp_all
      · rw [howed, hcount, if_neg hg, Nat.zero_add, Function.update_eq_self_iff, hold]

omit [Yrs D P] [DecidableEq P] in
theorem SessionStep.of_finish (k : ConnKey) {e : EndId} {r : Registered}
    (hreg : m.registered e = some r) (hc : m.calls (.conn e) = [])
    (hl : m'.state.connections.lookup k = if k = r.key ∧ m.state.identifies r.key r.generation
      then none else m.state.connections.lookup k) (hev : m'.events = m.events)
    (hcalls : m'.calls = Function.update m.calls (.conn e)
      ((m.state.finishConnection r.key r.generation).2 ++
        [.maybeSpawnDialer r.key.1 r.key.2 redialDelay])) :
    m.SessionStep k (.finishConnection e) m' := by
  have hrep : m'.reports k = m.reports k := by rw [reports, hev, reports]
  have howed := owed_of_calls (k := k) hcalls
  have hold : m.owed k (.conn e) = 0 := by simp [owed, hc]
  rw [State.finishConnection_calls, List.count_append] at howed
  by_cases hk : k = r.key
  · subst hk
    by_cases hg : m.state.identifies r.key r.generation = true ∧ m.state.announced r.key = true
    · refine .ended (t := .conn e) hg.2 (by simp [State.announced, hl, hg.1]) hrep ?_ ?_
        (.inr ⟨e, rfl⟩)
      · rw [howed, hold]
        simp [hg.1, hg.2]
      · intro e' he
        cases he
        exact ⟨r, hreg, rfl, hg.1⟩
    · refine .quiet ?_ hrep ?_
      · rw [State.announced, hl, State.announced]
        split
        · rename_i hi
          simpa [State.announced, hi.2] using hg
        · rfl
      · rw [howed, Function.update_eq_self_iff, hold, if_neg hg]
        simp
  · refine .quiet (announced_of_lookup ?_) hrep ?_
    · rw [hl, if_neg fun h => hk h.1]
    · have hne : r.key.disconnected ≠ k.disconnected := fun heq => hk (by
        simpa [Prod.ext_iff, eq_comm] using heq)
      rw [howed, Function.update_eq_self_iff, hold]
      split <;> simp [List.count_cons_of_ne hne]

theorem Step.sessionStep (h : m.Step a m') (ho : m.OwesDisconnects) (k : ConnKey) :
    m.SessionStep k a m' := by
  cases h.tableStep with
  | quiet hq =>
    refine .quiet (announced_of_lookup (hq.connections k)) (by simp [reports, hq.events]) ?_
    funext t
    obtain h | ⟨hnil, hn⟩ := hq.calls t
    · simp [owed, h]
    · have : k.disconnected ∉ m'.calls t := fun hc => by simpa [Call.isEffect] using hn _ hc
      simp [owed, hnil, List.count_eq_zero.mpr this]
  | call hc =>
    exact .of_call ho k hc (perform_connections m _ k) (perform_events m _)
      (by rw [← perform_calls m]; rfl)
  | @register e t peer doc g m' ht hc hp ha hs hconns hcalls hev =>
    refine .quiet ?_ (by simp [reports, hev]) ?_
    · simp only [State.announced, hs, State.register_connections]
      split
      · subst k
        simp
      · rfl
    · rw [owed_of_calls hcalls, Function.update_eq_self_iff, owed, hc]
      simp [List.count_eq_zero]
  | @announce e t r reply c ht hp hl hg =>
    have hreg : m.registered e = some r := by simp [registered, ht, hp, Phase.registered]
    by_cases hk : r.key = k
    · subst hk
      exact .announced hreg rfl hl hg (by simp) rfl rfl
    · refine .quiet (announced_of_lookup ?_) ?_ rfl
      · simp [Ne.symm hk]
      · have hk' : (r.peer.deviceId, r.peer.scope) ≠ k := hk
        simp [reports, SyncEvent.session, hk']
  | @finish e t r b ht hc hp =>
    have hreg : m.registered e = some r := by simp [registered, ht, hp, Phase.registered]
    exact .of_finish k hreg hc (m.state.finishConnection_connections r.key k r.generation) rfl rfl

/-- A step takes an entry out by a takeover, a revocation, or its own task's teardown. -/
theorem Step.removal (h : m.Step a m') (ho : m.Owned) {k : ConnKey} {c : ConnectionHandle}
    (hl : m.state.connections.lookup k = some c) :
    (∃ c', m'.state.connections.lookup k = some c' ∧ c'.task = c.task) ∨
    (∃ e c', a = .register e ∧ m'.state.connections.lookup k = some c' ∧ c'.task = e ∧
      c'.announced = c.announced) ∨
    (∃ t call cs, a = .call t ∧ m.calls t = call :: cs ∧
      ((∃ d b, call = .setTrusted d b ∧ k = (d, .devices) ∧
          m'.state.devicesTrusted d = false) ∨
        (∃ n, call = .leaveRoom n ∧ k.2 = .room n) ∨ ∃ g, call = .forceClose k g)) ∨
    a = .finishConnection c.task := by
  cases h.tableStep with
  | quiet hq => exact .inl ⟨c, by rw [hq.connections, hl], rfl⟩
  | @call t call cs hc =>
    by_cases hg : call.gone m.state k = true
    · refine .inr (.inr (.inl ⟨t, call, cs, rfl, hc, ?_⟩))
      cases call with
      | setTrusted d b =>
        simp only [Call.gone, State.revokedBy, Bool.and_eq_true, decide_eq_true_eq,
          Bool.not_eq_true'] at hg
        refine .inl ⟨d, b, rfl, hg.1, ?_⟩
        rw [← hg.2]
        exact m.state.setTrusted_devicesTrusted d d b
      | leaveRoom n =>
        simp only [Call.gone, State.leftBy, Bool.and_eq_true, decide_eq_true_eq] at hg
        exact .inr (.inl ⟨n, rfl, hg.2⟩)
      | forceClose key g =>
        simp only [Call.gone, Bool.and_eq_true, decide_eq_true_eq] at hg
        exact .inr (.inr ⟨g, by rw [hg.1]⟩)
      | _ => cases hg
    · refine .inl ⟨c, ?_, rfl⟩
      rw [setCalls_state, perform_connections, if_neg hg, hl]
  | @register e t peer doc g m' ht hc hp ha hs hconns hcalls hev =>
    by_cases hk : k = peer.key
    · refine .inr (.inl ⟨e, ⟨g, e, m.state.announced k⟩, rfl, ?_, rfl,
        by simp [State.announced, hl]⟩)
      rw [hs, State.register_connections, if_pos hk, hk]
    · refine .inl ⟨c, ?_, rfl⟩
      rw [hs, State.register_connections, if_neg hk, hl]
  | @announce e t r reply c₀ ht hp hl₀ hg =>
    by_cases hk : k = r.key
    · subst hk
      obtain rfl : c₀ = c := Option.some.inj (hl₀.symm.trans hl)
      exact .inl ⟨{ c₀ with announced := true }, by simp, rfl⟩
    · exact .inl ⟨c, by simpa [hk] using hl, rfl⟩
  | @finish e t r b ht hc hp =>
    have hreg : m.registered e = some r := by simp [registered, ht, hp, Phase.registered]
    by_cases hk : k = r.key ∧ m.state.identifies r.key r.generation = true
    · obtain ⟨rfl, hi⟩ := hk
      obtain ⟨c₀, hl₀, rfl⟩ := holder_eq_some.mp ((ho.conns.identifies ho.fresh hreg).mp hi)
      obtain rfl : c₀ = c := Option.some.inj (hl₀.symm.trans hl)
      exact .inr (.inr (.inr rfl))
    · refine .inl ⟨c, ?_, rfl⟩
      simp [State.finishConnection_connections, hk, hl]

end Step

section Tally

variable [Yrs D P] [DecidableEq P] {device : DeviceInfo} {m : Manager D P}
  {τ : List (Transition (Manager D P) (Action P))} {k : ConnKey}

/-- How many sessions of `k` a history has ended. -/
def ended (k : ConnKey) (τ : List (Transition (Manager D P) (Action P))) : Nat :=
  τ.countP fun t => t.pre.state.announced k && !t.post.state.announced k

/-- Disconnects of `k` that were emitted, and those some thread owes. -/
noncomputable def disconnects (m : Manager D P) (k : ConnKey) : Nat :=
  (m.reports k).count false + ∑ᶠ t, m.owed k t

theorem Run.owesDisconnects (h : (system D P device).Run τ m) : m.OwesDisconnects := by
  refine h.reachable.invariant (I := OwesDisconnects) ?_ fun m a m' _ hI hs =>
    hI.step (step_cases hs)
  rintro m ⟨trust, rooms, rfl⟩ t d n s
  simp [(new_bare device trust rooms).calls]

theorem Run.owed_finite (h : (system D P device).Run τ m) :
    Function.HasFiniteSupport (m.owed k) := by
  refine (τ.filterMap (·.act.thread)).toFinset.finite_toSet.subset fun t ht => ?_
  have hne : m.calls t ≠ [] := fun hnil => ht (by simp [owed, hnil])
  simpa using Run.busy h hne

omit [Yrs D P] [DecidableEq P] in
theorem finsum_succ {ι : Type} [DecidableEq ι] {f : ι → Nat} (hf : Function.HasFiniteSupport f)
    (i : ι) : ∑ᶠ j, Function.update f i (f i + 1) j = (∑ᶠ j, f j) + 1 := by
  have hsingle : Function.HasFiniteSupport fun j => if j = i then 1 else 0 :=
    (Set.finite_singleton i).subset fun j hj => by simpa using hj
  have heq : Function.update f i (f i + 1) = fun j => f j + if j = i then 1 else 0 := by
    funext j
    by_cases hj : j = i
    · subst hj; simp
    · simp [hj]
  rw [heq, finsum_add_distrib hf hsingle,
    finsum_eq_single (fun j => if j = i then 1 else 0) i fun j hj => if_neg hj, if_pos rfl]

omit [Yrs D P] [DecidableEq P] in
/-- A session that ends adds the one disconnect that reports it. -/
theorem SessionStep.disconnects {m' : Manager D P} {a : Action P} (h : m.SessionStep k a m')
    (hf : Function.HasFiniteSupport (m.owed k)) (hf' : Function.HasFiniteSupport (m'.owed k)) :
    m'.disconnects k = m.disconnects k +
      if m.state.announced k && !m'.state.announced k then 1 else 0 := by
  cases h with
  | quiet ha hr ho => simp [Manager.disconnects, ha, hr, ho]
  | announced _ _ _ _ hl' hev ho =>
    simp [Manager.disconnects, reports, hev, ho, SyncEvent.session, State.announced, hl']
  | @ended _ _ t ha hn hr ho =>
    simp [Manager.disconnects, ha, hn, hr, ho, finsum_succ hf, Nat.add_assoc]
  | @reported _ _ t ha hr ho =>
    simp [Manager.disconnects, ha, hr, ho, finsum_succ hf', Nat.add_assoc, Nat.add_comm 1]

theorem Run.tally (h : (system D P device).Run τ m) (k : ConnKey) :
    m.disconnects k = ended k τ := by
  refine h.history (I := fun τ m => m.disconnects k = ended k τ) ?_ fun τ m a m' hr hI hs => ?_
  · rintro m ⟨trust, rooms, rfl⟩
    have hb := new_bare (D := D) (P := P) device trust rooms
    simp [disconnects, reports, ended, hb.events, owed, hb.calls]
  · have hstep := (step_cases hs).sessionStep (Run.owesDisconnects hr) k
    rw [hstep.disconnects (Run.owed_finite hr) (Run.owed_finite (hr.next hs)), hI, ended, ended,
      List.countP_append, List.countP_singleton]

/-- A session in progress began with a connect event. -/
theorem Run.session_started (h : (system D P device).Run τ m) (ha : m.state.announced k = true) :
    ∃ τ₁ t τ₂, τ = τ₁ ++ t :: τ₂ ∧ t.pre.state.announced k = false ∧
      (∃ n, t.post.events = t.pre.events ++ [.peerConnected k.1 n k.2]) ∧
      t.post.state.announced k = true ∧ ∀ u ∈ τ₂, u.post.state.announced k = true := by
  refine h.history (I := fun τ m => m.state.announced k = true → ∃ τ₁ t τ₂, τ = τ₁ ++ t :: τ₂ ∧
    t.pre.state.announced k = false ∧
      (∃ n, t.post.events = t.pre.events ++ [.peerConnected k.1 n k.2]) ∧
      t.post.state.announced k = true ∧ ∀ u ∈ τ₂, u.post.state.announced k = true) ?_
    (fun τ m a m' hr hI hs ha' => ?_) ha
  · rintro m ⟨trust, rooms, rfl⟩ ha
    simp [State.announced, (new_bare device trust rooms).connections] at ha
  · -- Either the session was already on, or this step starts it.
    have goes_on (ha : m.state.announced k = true) : ∃ τ₁ t τ₂, τ ++ [⟨m, a, m'⟩] = τ₁ ++ t :: τ₂ ∧
        t.pre.state.announced k = false ∧
        (∃ n, t.post.events = t.pre.events ++ [.peerConnected k.1 n k.2]) ∧
        t.post.state.announced k = true ∧ ∀ u ∈ τ₂, u.post.state.announced k = true := by
      obtain ⟨τ₁, t, τ₂, rfl, hpre, hev, hpost, hτ₂⟩ := hI ha
      refine ⟨τ₁, t, τ₂ ++ [⟨m, a, m'⟩], by simp, hpre, hev, hpost, fun u hu => ?_⟩
      obtain hu | hu := List.mem_append.mp hu
      · exact hτ₂ u hu
      · obtain rfl := List.mem_singleton.mp hu
        exact ha'
    cases (step_cases hs).sessionStep (Run.owesDisconnects hr) k with
    | quiet ha | reported ha => exact goes_on (ha ▸ ha')
    | ended _ hn => simp [hn] at ha'
    | announced _ _ _ _ _ hev _ =>
      cases hpre : m.state.announced k with
      | true => exact goes_on hpre
      | false => exact ⟨τ, _, [], rfl, hpre, ⟨_, hev⟩, ha', by simp⟩

/-- The steps of a connection that never holds an announced entry, and the step that takes its
entry out, report nothing and owe no report. -/
theorem Step.unannounced {m' : Manager D P} {a : Action P} (hr : (system D P device).Run τ m)
    (hs : m.step a = some m') {e : EndId}
    (hn : ∀ c, m.state.connections.lookup k = some c ∨ m'.state.connections.lookup k = some c →
      c.task = e → c.announced = false)
    (ha : a.connection = some e ∨ ∃ c, m.state.connections.lookup k = some c ∧ c.task = e) :
    (m'.reports k).count true = (m.reports k).count true ∧
      m'.disconnects k = m.disconnects k := by
  have ho := Reachable.owned hr.reachable
  -- The entry of `k` is the one of the task that the registry identifies.
  have own {e' : EndId} {r : Registered} {c : ConnectionHandle} (hreg : m.registered e' = some r)
      (hk : r.key = k) (hl : m.state.connections.lookup k = some c)
      (hi : m.state.identifies k r.generation = true) : c.task = e' := by
    subst hk
    obtain ⟨c', hl', rfl⟩ := holder_eq_some.mp ((ho.conns.identifies ho.fresh hreg).mp hi)
    rw [Option.some.inj (hl.symm.trans hl')]
  have hstep := (step_cases hs).sessionStep (Run.owesDisconnects hr) k
  have hdis := hstep.disconnects (Run.owed_finite hr) (Run.owed_finite (hr.next hs))
  cases hstep with
  | quiet han hrep => exact ⟨by rw [hrep], by simp [hdis, han]⟩
  | reported han hrep => exact ⟨by simp [hrep], by simp [hdis, han]⟩
  | @announced e' r c _ hreg hk hl hg hl' =>
    have hc : c.task = e' := own hreg hk hl (by simp [State.identifies, hl, hg])
    have he : e' = e := by
      obtain h | ⟨c₀, hl₀, rfl⟩ := ha
      · exact Option.some.inj h
      · rw [← hc, Option.some.inj (hl.symm.trans hl₀)]
    cases hn _ (.inr hl') (hc.trans he)
  | @ended _ _ t hann hnot hrep howed hf hcause =>
    obtain ⟨c, hl, hca⟩ := (Option.any_eq_true _ _).mp hann
    have hce : c.task = e := by
      obtain h | ⟨c₀, hl₀, rfl⟩ := ha
      · obtain ⟨i, rfl⟩ | ⟨e', rfl⟩ := hcause
        · cases h
        · cases h
          obtain ⟨r, hreg, hk, hi⟩ := hf e rfl
          exact own hreg hk hl hi
      · rw [Option.some.inj (hl.symm.trans hl₀)]
    rw [hn c (.inl hl) hce] at hca
    cases hca

/-- One disconnect for each session of `k` that has ended, over every run. -/
theorem one_disconnect_per_session (h : (system D P device).Run τ m) (k : ConnKey) :
    (m.reports k).count false + ∑ᶠ t, m.owed k t = ended k τ ∧
    (∀ τ₁ t τ₂, τ = τ₁ ++ t :: τ₂ → ∀ c, t.pre.state.connections.lookup k = some c →
      (∃ c', t.post.state.connections.lookup k = some c' ∧ c'.task = c.task) ∨
      (∃ e c', t.act = .register e ∧ t.post.state.connections.lookup k = some c' ∧
        c'.task = e ∧ c'.announced = c.announced) ∨
      (∃ i call cs, t.act = .call i ∧ t.pre.calls i = call :: cs ∧
        ((∃ d b, call = .setTrusted d b ∧ k = (d, .devices) ∧
            t.post.state.devicesTrusted d = false) ∨
          (∃ n, call = .leaveRoom n ∧ k.2 = .room n) ∨ ∃ g, call = .forceClose k g)) ∨
      t.act = .finishConnection c.task) ∧
    (m.state.announced k = true → ∃ τ₁ t τ₂, τ = τ₁ ++ t :: τ₂ ∧
      t.pre.state.announced k = false ∧
      (∃ n, t.post.events = t.pre.events ++ [.peerConnected k.1 n k.2]) ∧
      t.post.state.announced k = true ∧ ∀ u ∈ τ₂, u.post.state.announced k = true) ∧
    ∀ e, (∀ t ∈ τ, ∀ c, t.pre.state.connections.lookup k = some c ∨
        t.post.state.connections.lookup k = some c → c.task = e → c.announced = false) →
      ∀ τ₁ t τ₂, τ = τ₁ ++ t :: τ₂ →
        t.act.connection = some e ∨
          (∃ c, t.pre.state.connections.lookup k = some c ∧ c.task = e) →
        (t.post.reports k).count true = (t.pre.reports k).count true ∧
          (t.post.reports k).count false + ∑ᶠ i, t.post.owed k i =
            (t.pre.reports k).count false + ∑ᶠ i, t.pre.owed k i := by
  refine ⟨Run.tally h k, fun τ₁ t τ₂ heq c hl => ?_, fun ha => Run.session_started h ha,
    fun e hn τ₁ t τ₂ heq ha => ?_⟩
  · obtain ⟨hr, hs⟩ := h.split heq
    exact (step_cases hs).removal (Reachable.owned hr.reachable) hl
  · obtain ⟨hr, hs⟩ := h.split heq
    exact Step.unannounced hr hs (hn t (by simp [heq])) ha

/-- A peer connects, is announced and distrusted: one session, one disconnect. -/
theorem one_disconnect_per_session_revoked :
    ∃ (τ : List (Transition (Manager GrowSet GrowSet) (Action GrowSet)))
      (m : Manager GrowSet GrowSet),
      (system GrowSet GrowSet ⟨"a", "A"⟩).Run τ m ∧ m.reports ("b", .devices) = [true, false] ∧
        (m.reports ("b", .devices)).count false + ∑ᶠ t, m.owed ("b", .devices) t = 1 := by
  let e : EndId := ⟨0, false⟩
  let start : Manager GrowSet GrowSet := .new ⟨"a", "A"⟩ ⟨false, ∅, ∅⟩ []
  let acts : List (Action GrowSet) :=
    [.handleInbound e, .conn e (.recv (.frame (some (.hello ⟨"b", "B", 2, .devices⟩)))),
      .conn e (.sendHello ⟨"a", "A", 2, .devices⟩), .fetchDoc e, .register e, .sendStep1 e ∅,
      .conn e (.step1Sent true), .conn e (.recv (.frame (some (.syncStep1 ∅)))), .handleFrame e,
      .tryAnnounce e, .invoke 0 (.setTrusted "b" false), .call (.caller 0), .call (.caller 0),
      .call (.caller 0)]
  obtain ⟨m, hm, hp⟩ := System.exists_of_exec
    (show (System.exec Manager.step start acts).any
      (fun m => m.reports ("b", .devices) = [true, false]) = true by decide +kernel)
  have hended : ended ("b", .devices) (System.trace Manager.step start acts) = 1 := by
    decide +kernel
  refine ⟨_, m, run_of_exec hm, by simpa using hp, ?_⟩
  rw [← hended]
  exact (one_disconnect_per_session (run_of_exec hm) ("b", .devices)).1

end Tally

end Manager

end Yoink
