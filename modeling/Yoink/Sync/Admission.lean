import Yoink.Sync.Dialing
import Yoink.Core.GrowSet

/-!
# Admission

What the registry admits in every reachable state: connections and dialers only for trusted
devices and joined rooms, one dial loop that may still make attempts for each peer and
scope, and one fan-out for each synced scope.
-/

namespace Yoink

variable {D P : Type} [Yrs D P] [DecidableEq P] {device : DeviceInfo} {m : Manager D P}

namespace Manager

omit [Yrs D P] [DecidableEq P] in
/-- A running loop either owns its dialer, or was stopped. -/
theorem Owned.loop (ho : m.Owned) {i : TaskId} {l : DialLoop} (hl : m.loops i = some l)
    (hp : l.phase ≠ .returned) :
    m.state.dialers.lookup l.key = some ⟨l.generation, i⟩ ∨
      l.cancelled = true ∨ m.owes (.cancelDialer i) := by
  have hd : m.dialing i = some (l.key, l.generation) := dialing_eq_some.mpr ⟨l, hl, hp, rfl⟩
  by_cases hk : m.dialLeases.holder l.key = some i
  · obtain ⟨d, hdl, rfl⟩ := dialer_holder_eq_some.mp hk
    have hg : l.generation = d.generation := ho.dials.matched _ _ _ hdl hd
    rw [hdl, hg]
    exact .inl rfl
  · have hs := ho.dials.exact.stopped (by simp [dialLeases, hd]) hk
    exact .inr (hs.imp_left fun h => by simpa [cancelled, hl] using h)

omit [Yrs D P] [DecidableEq P] in
/-- A dialer belongs to one running loop of its key and generation. -/
theorem Owned.dialer (ho : m.Owned) {k : ConnKey} {d : DialerHandle}
    (hd : m.state.dialers.lookup k = some d) :
    ∃! i, ∃ l, m.loops i = some l ∧ l.phase ≠ .returned ∧ l.key = k ∧
      l.generation = d.generation := by
  have hk := ho.dials.exact.key_of_holder (dialer_holder_eq_some.mpr ⟨d, hd, rfl⟩)
  obtain ⟨x, hx, rfl⟩ := Option.map_eq_some_iff.mp hk
  obtain ⟨l, hl, hp, rfl⟩ := dialing_eq_some.mp hx
  have hg := ho.dials.matched _ _ _ hd hx
  refine ⟨d.loop, ⟨l, hl, hp, rfl, hg⟩, fun i' h => ?_⟩
  obtain ⟨l', hl', -, -, hg'⟩ := h
  exact ho.fresh.loop_inj _ _ _ _ hl' hl (hg'.trans hg.symm)

omit [Yrs D P] [DecidableEq P] in
/-- Two running loops of one peer and scope: one of them was stopped. -/
theorem Owned.loop_unique (ho : m.Owned) {i j : TaskId} {li lj : DialLoop}
    (hi : m.loops i = some li) (hpi : li.phase ≠ .returned) (hj : m.loops j = some lj)
    (hpj : lj.phase ≠ .returned) (hk : li.key = lj.key)
    (hsi : li.cancelled = false ∧ ¬ m.owes (.cancelDialer i))
    (hsj : lj.cancelled = false ∧ ¬ m.owes (.cancelDialer j)) : i = j := by
  have h1 := (ho.loop hi hpi).resolve_right (by simp [hsi])
  have h2 := (ho.loop hj hpj).resolve_right (by simp [hsj])
  rw [hk, h2] at h1
  exact (DialerHandle.mk.inj (Option.some.inj h1)).2.symm

/-- The registry in every reachable state. -/
theorem registry_admission (h : (system D P device).Reachable m) :
    (∀ d, (m.state.connections.lookup (d, .devices)).isSome → m.state.devicesTrusted d = true) ∧
    (∀ d n, (m.state.connections.lookup (d, .room n)).isSome → n ∈ m.state.joined) ∧
    (∀ p s, (m.state.dialers.lookup (p, s)).isSome →
      m.device.id < p ∧ (m.state.peers.lookup p).isSome ∧
        (s = .devices → m.state.devicesTrusted p = true) ∧
        ∀ n, s = .room n → n ∈ m.state.joined) ∧
    (∀ k d, m.state.dialers.lookup k = some d →
      ∃! i, ∃ l, m.loops i = some l ∧ l.phase ≠ .returned ∧ l.key = k ∧
        l.generation = d.generation) ∧
    (∀ i l, m.loops i = some l → l.phase ≠ .returned →
      m.state.dialers.lookup l.key = some ⟨l.generation, i⟩ ∨
        l.cancelled = true ∨ ∃ t, .cancelDialer i ∈ m.calls t) ∧
    (∀ i j li lj, m.loops i = some li → li.phase ≠ .returned → m.loops j = some lj →
      lj.phase ≠ .returned → li.key = lj.key →
      (li.cancelled = false ∧ ∀ t, .cancelDialer i ∉ m.calls t) →
      (lj.cancelled = false ∧ ∀ t, .cancelDialer j ∉ m.calls t) → i = j) ∧
    ∀ s, (m.state.fanOuts.lookup s).isSome ↔ s = .devices ∨ ∃ n ∈ m.state.joined, s = .room n := by
  have ho := Reachable.owned h
  refine ⟨fun d hd => ?_, fun d n hd => ?_, fun p s hd => ?_, fun k d hd => ho.dialer hd,
    fun i l hl hp => ho.loop hl hp, fun i j li lj hi hpi hj hpj hk hsi hsj => ?_, fun s => ?_⟩
  · exact ho.admitted.connections (d, .devices) hd
  · simpa [State.accepts] using ho.admitted.connections (d, .room n) hd
  · obtain ⟨h1, h2, h3⟩ := ho.admitted.dialers (p, s) hd
    refine ⟨h1, h2, ?_, ?_⟩
    · rintro rfl
      exact h3
    · rintro n rfl
      simpa [State.accepts] using h3
  · exact ho.loop_unique hi hpi hj hpj hk ⟨hsi.1, not_exists.mpr hsi.2⟩
      ⟨hsj.1, not_exists.mpr hsj.2⟩
  · rw [ho.admitted.fanOuts]
    cases s <;> simp [State.Synced]

/-- "b" dials in, in a scope `s`, and is registered. -/
def dialedIn (e : EndId) (s : Scope) : List (Action GrowSet) :=
  [.handleInbound e, .conn e (.recv (.frame (some (.hello ⟨"b", "B", 2, s⟩)))),
    .conn e (.sendHello ⟨"a", "A", 2, s⟩), .fetchDoc e, .register e]

/-- "b" is connected for the devices and the room "r", and "c" is being dialed for both. -/
theorem registry_admission_discovered :
    ∃ (m : Manager GrowSet GrowSet) (d : DialerHandle),
      (system GrowSet GrowSet ⟨"a", "A"⟩).Reachable m ∧
      (m.state.connections.lookup ("b", .devices)).isSome = true ∧
      m.state.devicesTrusted "b" = true ∧
      (m.state.connections.lookup ("b", .room "r")).isSome = true ∧ "r" ∈ m.state.joined ∧
      (m.state.dialers.lookup ("c", .devices)).isSome = true ∧ m.device.id < "c" ∧
      m.state.devicesTrusted "c" = true ∧
      m.state.dialers.lookup ("c", .room "r") = some d ∧
      (∃! i, ∃ l, m.loops i = some l ∧ l.phase ≠ .returned ∧ l.key = ("c", .room "r") ∧
        l.generation = d.generation) ∧
      (m.state.fanOuts.lookup (.room "r")).isSome = true := by
  let acts := dialedIn ⟨0, false⟩ .devices ++ dialedIn ⟨1, false⟩ (.room "r") ++
    [.invoke 0 (.peerDiscovered ⟨"c", ["r"]⟩), .call (.caller 0), .call (.caller 0),
      .call (.caller 0)]
  obtain ⟨m, hm, hp⟩ := System.exists_of_exec
    (show (System.exec Manager.step (.new ⟨"a", "A"⟩ ⟨false, ∅, ∅⟩ ["r"] : Manager GrowSet GrowSet)
      acts).any (fun m => (m.state.connections.lookup ("b", .devices)).isSome &&
        (m.state.connections.lookup ("b", .room "r")).isSome &&
        (m.state.dialers.lookup ("c", .devices)).isSome &&
        (m.state.dialers.lookup ("c", .room "r")).isSome) = true by decide +kernel)
  simp only [Bool.and_eq_true] at hp
  obtain ⟨⟨⟨hdev, hroom⟩, hdial⟩, hdial'⟩ := hp
  obtain ⟨d, hd⟩ := Option.isSome_iff_exists.mp hdial'
  have hreach := (run_of_exec hm).reachable
  obtain ⟨htrusted, hjoined, hdialers, hloops, -, -, hfans⟩ := registry_admission hreach
  obtain ⟨hlt, -, htrust, -⟩ := hdialers "c" .devices hdial
  have hr := hjoined "b" "r" hroom
  exact ⟨m, d, hreach, hdev, htrusted "b" hdev, hroom, hr, hdial, hlt, htrust rfl, hd,
    hloops _ d hd, (hfans (.room "r")).mpr (.inr ⟨"r", hr, rfl⟩)⟩

end Manager

end Yoink
