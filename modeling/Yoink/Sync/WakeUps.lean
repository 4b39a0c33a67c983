import Yoink.Sync.Rooms
import Yoink.Core.GrowSet

/-!
# Which peers are dialed

A pair becomes worth dialing when a peer is discovered, trusted, or found in a room, and when
its connection ends; whoever brings that about goes on to dial it. The dialing call does
nothing while a dialer of the pair is registered, and a dial loop that has found no target stays
registered until it takes its entry out: a call that falls in between is lost.
-/

namespace Yoink

variable {D P : Type}

/-- Whether discovery knows `k`'s peer and the pair may be dialed at all. -/
def State.eligible (s : State) (k : ConnKey) : Bool :=
  (s.peers.lookup k.1).any fun peer => s.scopeEligible peer k.2

namespace State

theorem eligible_eq_true {s : State} {k : ConnKey} :
    s.eligible k = true ↔
      ∃ peer, s.peers.lookup k.1 = some peer ∧ s.scopeEligible peer k.2 = true := by
  simp [eligible, Option.any_eq_true]

/-- Eligibility reads the peers, the rooms and the trust lists. -/
theorem eligible_congr {s s' : State} (hp : ∀ d, s'.peers.lookup d = s.peers.lookup d)
    (hj : s'.joined = s.joined) (ht : ∀ d, s'.devicesTrusted d = s.devicesTrusted d)
    (k : ConnKey) : s'.eligible k = s.eligible k := by
  unfold eligible scopeEligible
  rw [hp]
  cases k.2 <;> simp [hj, ht]

/-- `dial_target` finds nobody to dial. -/
theorem dialTarget_eq_none (s : State) (k : ConnKey) : s.dialTarget k.1 k.2 = none ↔
    (s.connections.lookup k).isSome ∨ s.eligible k = false := by
  unfold dialTarget eligible
  split
  · exact iff_of_true rfl (.inl ‹_›)
  · rename_i hc
    cases s.peers.lookup k.1 with
    | none => simp
    | some peer => simp [hc, Option.filter]

end State

namespace Manager

/-- The dial rule elects us to dial `k`, which is eligible and not connected. -/
def Wanted (m : Manager D P) (k : ConnKey) : Prop :=
  m.device.id < k.1 ∧ m.state.eligible k = true ∧ m.state.connections.lookup k = none

/-- An operation has its call of `maybe_spawn_dialer` for `k` still to make, or a registered
connection of `k` has not ended. -/
def Waking (m : Manager D P) (k : ConnKey) : Prop :=
  (∃ delay, m.owes (.maybeSpawnDialer k.1 k.2 delay)) ∨ ∃ e r, m.registered e = some r ∧ r.key = k

/-- No pair that is wanted is left undialed. -/
def Attended (m : Manager D P) : Prop :=
  ∀ k, m.Wanted k → (m.state.dialers.lookup k).isSome ∨ m.Waking k

/-- A loop that takes its own dialer out still finds no target, or leaves the pair to someone. -/
def GivesUpRight (m : Manager D P) (a : Action P) : Prop :=
  ∀ i l, a = .removeDialerEntry i → m.loops i = some l →
    m.state.dialers.lookup l.key = some ⟨l.generation, i⟩ →
      m.state.dialTarget l.peerId l.scope = none ∨ m.Waking l.key

section WakeUps

variable [Yrs D P] [DecidableEq P] {m m' : Manager D P} {a : Action P}

/-- A call is owed until it is made. -/
theorem Step.owes_keeps (h : m.Step a m') {c : Call} (hc : m.owes c) :
    m'.owes c ∨ ∃ t cs, a = .call t ∧ m.calls t = c :: cs := by
  obtain ⟨t, ht⟩ := hc
  have hs := h.callStep t
  generalize hm : m.calls t = cs at hs ht
  generalize hm' : m'.calls t = cs' at hs
  cases hs with
  | idle => exact .inl ⟨t, hm' ▸ ht⟩
  | invoked => cases ht
  | given => cases ht
  | @made c₀ cs =>
    obtain rfl | ht := List.mem_cons.mp ht
    · exact .inr ⟨t, cs, rfl, hm⟩
    · exact .inl ⟨t, hm' ▸ List.mem_append_right _ ht⟩

/-- A registered connection stays so until its task has ended. -/
theorem Step.registered_keeps (h : m.Step a m') {e : EndId} {r : Registered}
    (hr : m.registered e = some r) : m'.registered e = some r ∨ a = .finishConnection e := by
  by_cases hf : a = .finishConnection e
  · exact .inr hf
  · refine .inl ?_
    cases a with
    | call t =>
      obtain ⟨c, cs, -, rfl⟩ := h.of_call
      rwa [registered_call]
    | register e' =>
      obtain ⟨t, peer, doc, g, ht, -, hp, rfl⟩ := h.of_register
      have hne : e ≠ e' := by
        rintro rfl
        simp [registered, ht, hp, Phase.registered] at hr
      obtain h | ⟨d, -, -, h⟩ := m.register_cases e' t peer doc g <;>
        simpa [registered, h, hne] using hr
    | _ => exact ((h.connStep e).same (by simp) (by simp) hf).1.trans hr

omit [Yrs D P] [DecidableEq P] in
/-- Making the dialing call leaves the pair dialed, or not to be dialed. -/
theorem maybeSpawnDialer_serves (m : Manager D P) (k : ConnKey) (delay : Nat)
    (hw : (m.maybeSpawnDialer k.1 k.2 delay).Wanted k) :
    ((m.maybeSpawnDialer k.1 k.2 delay).state.dialers.lookup k).isSome := by
  obtain h | ⟨-, -, h⟩ := m.maybeSpawnDialer_cases k.1 k.2 delay
  · rw [h] at hw ⊢
    obtain ⟨ho, he, hc⟩ := hw
    by_contra hd
    have hwants : m.state.wantsDialer k.1 k.2 = true := by
      simpa [State.wantsDialer, hc, Option.isSome_iff_ne_none] using ⟨he, by simpa using hd⟩
    have := congrArg Manager.generation h
    simp [maybeSpawnDialer, not_le.mpr ho, hwants] at this
  · rw [h]
    simp [AList.lookup_insert]

/-- A call that is still to be made is made, and then the pair needs nobody any more. -/
theorem Waking.step (hw : m.Waking k) (h : m.Step a m') (hk : m'.Wanted k) :
    (m'.state.dialers.lookup k).isSome ∨ m'.Waking k := by
  obtain ⟨delay, hc⟩ | ⟨e, r, hr, rfl⟩ := hw
  · obtain hc | ⟨t, cs, rfl, ht⟩ := h.owes_keeps hc
    · exact .inr (.inl ⟨delay, hc⟩)
    · obtain ⟨c, cs', ht', rfl⟩ := h.of_call
      rw [ht] at ht'
      cases ht'
      exact .inl (m.maybeSpawnDialer_serves k delay hk)
  · obtain hr' | rfl := h.registered_keeps hr
    · exact .inr (.inr ⟨e, r, hr', rfl⟩)
    · cases h with
      | @finishConnection _ t r' b ht hc hp =>
        obtain rfl : r' = r := by simpa [registered, ht, hp, Phase.registered] using hr
        exact .inr (.inl ⟨redialDelay, .conn e, by simp⟩)
      | dial _ hs | fan _ hs => cases hs

omit [DecidableEq P] in
/-- Whoever makes a pair eligible goes on to dial it. -/
theorem perform_eligible (ho : m.state.Admitted m.device.id) {c : Call} {k : ConnKey}
    (h : (m.perform c).1.state.eligible k = true) :
    m.state.eligible k = true ∨ ∃ delay, .maybeSpawnDialer k.1 k.2 delay ∈ (m.perform c).2 := by
  obtain ⟨peer, hp, he⟩ := State.eligible_eq_true.mp h
  cases c with
  | maybeSpawnDialer d s n =>
    obtain heq | ⟨-, -, heq⟩ := m.maybeSpawnDialer_cases d s n <;>
      (simp only [perform, heq] at h; exact .inl h)
  | addEntry scope entry =>
    simp only [perform] at h
    split at h
    · simp only [commit_eq] at h
      exact .inl h
    · exact .inl h
  | forceClose key g =>
    obtain ⟨cs, heq⟩ := m.state.forceClose_eq key g
    simp only [perform, setState, heq] at h
    exact .inl h
  | peerLost d =>
    simp only [perform, setState_state, State.peerLost_peers] at hp
    split at hp
    · cases hp
    · exact .inl (State.eligible_eq_true.mpr ⟨peer, hp, he⟩)
  | leaveRoom name =>
    simp only [perform, setState_state, State.leaveRoom_peers] at hp
    refine .inl (State.eligible_eq_true.mpr ⟨peer, hp, ?_⟩)
    cases hs : k.2 with
    | devices =>
      simpa [perform, State.scopeEligible, hs, State.leaveRoom_devicesTrusted] using he
    | room n =>
      simp only [perform, State.scopeEligible, hs, setState_state, State.leaveRoom_joined,
        Finset.mem_erase, Bool.and_eq_true, decide_eq_true_eq] at he ⊢
      exact ⟨he.1.2, he.2⟩
  | setTrusted d b =>
    obtain ⟨cs, ds, heq⟩ := m.state.setTrusted_eq d b
    simp only [perform, setState_state, heq, State.setTrust_peers] at hp
    have hd := ho.peers _ _ hp
    cases hs : k.2 with
    | room n =>
      refine .inl (State.eligible_eq_true.mpr ⟨peer, hp, ?_⟩)
      simpa [perform, State.scopeEligible, hs, heq] using he
    | devices =>
      simp only [perform, State.scopeEligible, hs, setState_state,
        State.setTrusted_devicesTrusted] at he
      by_cases hk : k.1 = d
      · rw [hd, hk] at he
        exact .inr ⟨0, by simp [perform, State.setTrusted, he, hk]⟩
      · rw [State.devicesTrusted_setTrust_ne _ _ (hd ▸ hk)] at he
        exact .inl (State.eligible_eq_true.mpr ⟨peer, hp, by simpa [State.scopeEligible, hs]⟩)
  | peerDiscovered peer' =>
    simp only [perform, setState_state, State.peerDiscovered_peers] at hp
    obtain ⟨ps, heq⟩ := m.state.peerDiscovered_eq m.device.id peer'
    split at hp
    · rename_i hk
      cases hp
      refine .inr ⟨0, ?_⟩
      simp only [perform, State.peerDiscovered, if_neg hk.1, List.mem_map, List.mem_cons,
        List.mem_filter]
      refine ⟨k.2, ?_, by rw [hk.2]⟩
      cases hs : k.2 with
      | devices => exact .inl rfl
      | room n =>
        refine .inr ⟨n, ?_, rfl⟩
        simpa [perform, State.scopeEligible, hs, heq, and_comm] using he
    · refine .inl (State.eligible_eq_true.mpr ⟨peer, hp, ?_⟩)
      simpa [perform, State.scopeEligible, heq, State.devicesTrusted] using he
  | joinRoom name =>
    obtain heq | ⟨hn, hj, heq, -⟩ := m.joinRoom_cases name
    · simp only [perform, heq] at h
      exact .inl h
    · simp only [perform, heq] at hp he
      by_cases hk : k.2 = .room name
      · have hd := ho.peers _ _ hp
        refine .inr ⟨0, ?_⟩
        have hjoin : ¬ (¬ Canonical name ∨ name ∈ m.state.joined) := by simp [hn, hj]
        simp only [perform, joinRoom, if_neg hjoin, List.mem_map, List.mem_filter, Prod.exists]
        refine ⟨peer, ⟨⟨k.1, peer, FinMap.mem_toPairs.mpr hp, rfl⟩, ?_⟩, by rw [hd, hk]⟩
        simp only [State.scopeEligible, hk, Bool.and_eq_true] at he
        exact he.2
      · refine .inl (State.eligible_eq_true.mpr ⟨peer, hp, ?_⟩)
        cases hs : k.2 with
        | devices => simpa [State.scopeEligible, hs, State.devicesTrusted] using he
        | room n =>
          have hne : n ≠ name := fun hn => hk (by rw [hs, hn])
          simpa [State.scopeEligible, hs, hne] using he
  | _ =>
    simp only [perform, signalHangup_eq, cancelLoop_eq, cancelFan_eq, emit] at h
    exact .inl h

theorem Step.eligible (h : m.Step a m') (ho : m.state.Admitted m.device.id) {k : ConnKey}
    (hk : m'.state.eligible k = true) : m.state.eligible k = true ∨
      ∃ delay, m'.owes (.maybeSpawnDialer k.1 k.2 delay) := by
  cases h with
  | @call t c cs hc =>
    obtain he | ⟨delay, hd⟩ := perform_eligible ho hk
    · exact .inl he
    · refine .inr ⟨delay, t, ?_⟩
      rw [setCalls_calls, Function.update_self]
      exact List.mem_append_left _ hd
  | register =>
    rename_i e t peer doc g _ _ _
    obtain h | ⟨d, -, -, h⟩ := m.register_cases e t peer doc g <;> (rw [h] at hk; exact .inl hk)
  | handleFrame =>
    rename_i e t r a payload _ _ _
    obtain ⟨-, h⟩ | ⟨m₁, reply, hf, h⟩ := m.handle_cases e t r a payload
    · rw [h] at hk
      exact .inl hk
    · obtain ⟨docs, fans, rfl⟩ := handleFrame_eq hf
      rw [h] at hk
      exact .inl hk
  | tryAnnounce =>
    rename_i e t r reply _ _ _
    obtain ⟨-, h⟩ | ⟨c, -, -, h⟩ := m.announce_cases e t r reply <;> (rw [h] at hk; exact .inl hk)
  | finishConnection =>
    rename_i e t r b _ _ _
    obtain ⟨cs, heq⟩ := m.state.finishConnection_eq r.key r.generation
    simp only [setCalls_state, setConn_state, setState_state, heq] at hk
    exact .inl hk
  | fanPush =>
    rename_i i f frame target rest lag _ _ _
    obtain h | ⟨t, -, -, -, h⟩ | ⟨t, -, -, h⟩ := m.trySend_cases i frame target <;>
      (rw [h] at hk; exact .inl hk)
  | removeDialerEntry =>
    rename_i i l _ _
    obtain ⟨ds, heq⟩ := m.state.removeDialerEntry_eq l.key l.generation
    simp only [setLoop_state, setState_state, heq] at hk
    exact .inl hk
  | @rehash peers connections dialers hp =>
    have heq : ({ m.state with peers, connections, dialers } : State).eligible k =
        m.state.eligible k := by
      apply State.eligible_congr
      · exact fun d => (hp.lookup d).symm
      · rfl
      · exact fun _ => rfl
    exact .inl (heq ▸ hk)
  | _ => exact .inl hk

omit [DecidableEq P] in
/-- A dialer that a call takes out was one of a pair that is not eligible any more. -/
theorem perform_undialed (ho : m.state.Admitted m.device.id) {c : Call} {k : ConnKey}
    (h : c.undialed m.state k = true) : (m.perform c).1.state.eligible k = false := by
  rw [Bool.eq_false_iff]
  intro he
  obtain ⟨peer, hp, he⟩ := State.eligible_eq_true.mp he
  cases c with
  | setTrusted d b =>
    obtain ⟨rfl, ht⟩ : k = (d, .devices) ∧ (m.state.setTrust d b).devicesTrusted d = false := by
      simpa [Call.undialed, State.revokedBy] using h
    obtain ⟨cs, ds, heq⟩ := m.state.setTrusted_eq d b
    simp only [perform, setState_state, heq, State.setTrust_peers] at hp
    simp [perform, State.scopeEligible, State.setTrusted_devicesTrusted, ho.peers _ _ hp, ht] at he
  | leaveRoom name =>
    obtain ⟨-, hk⟩ : name ∈ m.state.joined ∧ k.2 = .room name := by
      simpa [Call.undialed, State.leftBy] using h
    simp [perform, State.scopeEligible, hk, State.leaveRoom_joined] at he
  | peerLost d =>
    obtain rfl : k.1 = d := by simpa [Call.undialed] using h
    simp [perform, State.peerLost_peers] at hp
  | _ => cases h

/-- A wanted pair loses its dialer only to its own loop. -/
theorem Step.dialer_lost (h : m.Step a m') (ho : m.Owned) {k : ConnKey}
    (hd : (m.state.dialers.lookup k).isSome) (hn : m'.state.dialers.lookup k = none)
    (hw : m'.Wanted k) :
    ∃ i l, a = .removeDialerEntry i ∧ m.loops i = some l ∧ l.key = k ∧
      m.state.dialers.lookup k = some ⟨l.generation, i⟩ := by
  cases h.dialStep with
  | quiet hq =>
    rw [hq.dialers] at hn
    simp [hn] at hd
  | call hc hne =>
    rw [setCalls_state, perform_dialers m hne] at hn
    split at hn
    · have he := hw.2.1
      rw [setCalls_state, perform_undialed ho.admitted ‹_›] at he
      cases he
    · simp [hn] at hd
  | spawn hc hown hwants =>
    rw [FinMap.lookup_insert_ite] at hn
    split at hn
    · cases hn
    · simp [hn] at hd
  | register =>
    obtain ⟨t, peer, doc, g, ht, -, hp, rfl⟩ := h.of_register
    obtain heq | ⟨d, -, -, heq⟩ := m.register_cases _ t peer doc g
    · rw [heq, setConn_state] at hn
      simp [hn] at hd
    · rw [heq] at hn hw
      have hconn := hw.2.2
      simp only [State.register_dialers, State.register_connections] at hn hconn
      split at hn
      · rename_i hk
        simp [hk.1] at hconn
      · simp [hn] at hd
  | returned hl hc =>
    rw [setLoop_state] at hn
    simp [hn] at hd
  | @removed i l hl hp =>
    rw [setLoop_state, setState_state, State.removeDialerEntry_dialers] at hn
    split at hn
    · rename_i hk
      obtain ⟨rfl, hg⟩ := hk
      have hkey := (ho.dials.identifies ho.fresh hl (by simp [hp])).mp hg
      obtain ⟨d, hd, rfl⟩ := dialer_holder_eq_some.mp hkey
      refine ⟨d.loop, l, rfl, hl, rfl, ?_⟩
      have hgen : d.generation = l.generation := by simpa [hd] using hg
      rw [hd, ← hgen]
    · simp [hn] at hd

theorem Attended.step (hI : m.Attended) (ho : m.Owned) (h : m.Step a m')
    (hg : m.GivesUpRight a) : m'.Attended := by
  intro k hk
  by_cases hw : m.Waking k
  · exact hw.step h hk
  have hnone : m.state.connections.lookup k = none := by
    by_contra hc
    obtain ⟨c, hc⟩ := Option.ne_none_iff_exists'.mp hc
    have := ho.conns.exact.key_of_holder (holder_eq_some.mpr ⟨c, hc, rfl⟩)
    obtain ⟨r, hr, hrk⟩ := Option.map_eq_some_iff.mp this
    exact hw (.inr ⟨c.task, r, hr, hrk⟩)
  by_cases hd : (m.state.dialers.lookup k).isSome = true
  · cases hn : m'.state.dialers.lookup k with
    | some d => exact .inl rfl
    | none =>
      obtain ⟨i, l, rfl, hl, rfl, hown⟩ := h.dialer_lost ho hd hn hk
      have ht := (hg i l rfl hl hown).resolve_right hw
      obtain he | ⟨delay, hc⟩ := h.eligible ho.admitted hk.2.1
      · obtain hc | he' := (m.state.dialTarget_eq_none l.key).mp ht
        · simp [hnone] at hc
        · simp [he] at he'
      · exact .inr (.inl ⟨delay, hc⟩)
  · obtain he | ⟨delay, hc⟩ := h.eligible ho.admitted hk.2.1
    · have := hI k ⟨h.device ▸ hk.1, he, hnone⟩
      exact absurd this (not_or.mpr ⟨hd, hw⟩)
    · exact .inr (.inl ⟨delay, hc⟩)

theorem Reachable.attended {device : DeviceInfo}
    (h : ((system D P device).restrict fun m a _ => m.GivesUpRight a).Reachable m) :
    m.Attended := by
  refine h.invariant (I := Attended) ?_ fun m a m' hr hI hs =>
    hI.step (Reachable.owned hr.of_restrict) (step_cases hs.1) hs.2
  rintro m ⟨trust, rooms, rfl⟩ k ⟨-, he, -⟩
  obtain ⟨peer, hp, -⟩ := State.eligible_eq_true.mp he
  simp [(new_bare device trust rooms).peers] at hp

/-- A loop that takes its dialer out although the pair is to be dialed leaves it undialed. -/
theorem givesUpRight_of_attended (ho : m.Owned) (h : m.Step a m') (hI : m'.Attended) :
    m.GivesUpRight a := by
  rintro i l rfl hl hown
  by_contra hne
  obtain ⟨ht, hw⟩ := not_or.mp hne
  obtain ⟨hc, he⟩ := not_or.mp (mt (m.state.dialTarget_eq_none l.key).mpr ht)
  cases h with
  | @removeDialerEntry _ l' hl' hp =>
    obtain rfl : l = l' := Option.some.inj (hl.symm.trans hl')
    have hdial := (ho.admitted.dialers l.key (by simp [hown])).1
    obtain ⟨ds, heq⟩ := m.state.removeDialerEntry_eq l.key l.generation
    have hwant : ((m.setState (m.state.removeDialerEntry l.key l.generation)).setLoop i
        { l with phase := .returned }).Wanted l.key := by
      refine ⟨hdial, ?_, ?_⟩
      · rw [setLoop_state, setState_state, heq]
        exact Bool.not_eq_false _ ▸ he
      · rw [setLoop_state, setState_state, heq]
        simpa using hc
    obtain hd | hw' := hI l.key hwant
    · rw [setLoop_state, setState_state, State.removeDialerEntry_dialers, if_pos] at hd
      · cases hd
      · simp [hown]
    · exact hw hw'
  | dial _ hs | fan _ hs => cases hs

/-- In a run, no eligible peer is ever left undialed exactly if every loop that takes its dialer out
still finds no target at that moment, or an operation is about to dial the pair. -/
theorem no_peer_undialed_iff {device : DeviceInfo}
    {τ : List (Transition (Manager D P) (Action P))} (h : (system D P device).Run τ m) :
    (∀ u ∈ τ, u.post.Attended) ↔ ∀ u ∈ τ, u.pre.GivesUpRight u.act := by
  constructor
  · intro hall u hu
    obtain ⟨τ₁, τ₂, rfl⟩ := List.append_of_mem hu
    obtain ⟨hr, hs⟩ := h.split rfl
    exact givesUpRight_of_attended (Reachable.owned hr.reachable) (step_cases hs) (hall u hu)
  · intro hall u hu
    obtain ⟨τ₁, τ₂, rfl⟩ := List.append_of_mem hu
    refine Reachable.attended (h.upTo.to_restrict fun v hv => hall v ?_).reachable
    obtain hv | hv := List.mem_append.mp hv
    · exact List.mem_append_left _ hv
    · exact List.mem_append_right _ (by simp [List.mem_singleton.mp hv])

end WakeUps

section Runs

/-- "b" is in a room with us, takes the room back, and advertises it again: the dial loop of the
room asks for its target in between. -/
def readvertised : List (Action GrowSet) :=
  [.invoke 0 (.peerDiscovered ⟨"b", ["r"]⟩), .call (.caller 0), .call (.caller 0),
    .call (.caller 0), .invoke 0 (.peerDiscovered ⟨"b", []⟩), .call (.caller 0),
    .call (.caller 0), .dialTarget 3, .invoke 0 (.peerDiscovered ⟨"b", ["r"]⟩),
    .call (.caller 0), .call (.caller 0), .call (.caller 0)]

/-- The dialing call of the second announcement finds the dialer still registered and does nothing;
then the loop takes it out. Nothing is left to do, and nobody dials "b". -/
theorem readvertised_undialed :
    ∃ (m : Manager GrowSet GrowSet) (k : ConnKey),
      (system GrowSet GrowSet ⟨"a", "A"⟩).Reachable m ∧ m.Wanted k ∧
        m.state.dialers.lookup k = none ∧ (∀ t, m.calls t = []) ∧ (∀ e, m.conns e = none) ∧
        ¬ m.Attended := by
  let k : ConnKey := ("b", .room "r")
  let start : Manager GrowSet GrowSet := .new ⟨"a", "A"⟩ ⟨false, ∅, ∅⟩ ["r"]
  let acts : List (Action GrowSet) := readvertised ++ [.removeDialerEntry 3]
  obtain ⟨m, hm, hp⟩ := System.exists_of_exec
    (show (System.exec Manager.step start acts).any (fun m => decide (m.device.id < k.1) &&
      m.state.eligible k && (m.state.connections.lookup k).isNone &&
      (m.state.dialers.lookup k).isNone &&
      ((System.trace Manager.step start acts).filterMap (·.act.thread)).all
        fun t => decide (m.calls t = [])) = true by decide +kernel)
  simp only [Bool.and_eq_true, decide_eq_true_eq, List.all_eq_true, Option.isNone_iff_eq_none]
    at hp
  obtain ⟨⟨⟨⟨hown, he⟩, hc⟩, hd⟩, hcalls⟩ := hp
  have hrun := run_of_exec hm
  have hidle := Run.idle hrun (List.append_nil _).symm hcalls
  have hconns (e : EndId) : m.conns e = none := by
    by_contra hne
    obtain ⟨u, hu, ha⟩ := Run.opened hrun hne
    have hu := System.act_mem_of_mem_trace hu
    obtain ha | ⟨l, ha⟩ := ha <;> simp [acts, readvertised, ha] at hu
  refine ⟨m, k, hrun.reachable, ⟨hown, he, hc⟩, hd, hidle, hconns, fun hI => ?_⟩
  obtain h | ⟨delay, t, h⟩ | ⟨e, r, h, -⟩ := hI k ⟨hown, he, hc⟩
  · simp [hd] at h
  · simp [hidle] at h
  · simp [registered, hconns] at h

/-- The loop takes its dialer out before "b" is back. -/
theorem no_peer_undialed_readvertised :
    ∃ (τ : List (Transition (Manager GrowSet GrowSet) (Action GrowSet))),
      (∃ u ∈ τ, ∃ i, u.act = .removeDialerEntry i) ∧ ∀ u ∈ τ, u.post.Attended := by
  let start : Manager GrowSet GrowSet := .new ⟨"a", "A"⟩ ⟨false, ∅, ∅⟩ ["r"]
  let acts : List (Action GrowSet) := readvertised.take 8 ++ [.removeDialerEntry 3] ++
    readvertised.drop 8
  obtain ⟨m, hm, hp⟩ := System.exists_of_exec
    (show (System.exec Manager.step start acts).any (fun _ =>
      (System.trace Manager.step start acts).any fun u => match u.act with
        | .removeDialerEntry i => decide (i = 3)
        | _ => false) = true by decide +kernel)
  have hcheck : (System.trace Manager.step start acts).all (fun u => match u.act with
      | .removeDialerEntry i => (u.pre.loops i).all
          fun l => (u.pre.state.dialTarget l.peerId l.scope).isNone
      | _ => true) = true := by decide +kernel
  obtain ⟨u, hu, ha⟩ := List.any_eq_true.mp hp
  refine ⟨_, ⟨u, hu, ?_⟩, (no_peer_undialed_iff (run_of_exec hm)).mpr fun v hv i l hact hl _ => ?_⟩
  · split at ha
    · exact ⟨_, ‹_›⟩
    · cases ha
  · have hv' := List.all_eq_true.mp hcheck v hv
    simp only [hact, hl, Option.all_some, Option.isNone_iff_eq_none] at hv'
    exact .inl hv'

end Runs

end Manager

end Yoink
