import Yoink.Sync.Effects

/-!
# Who edits the trust lists

The trust model and its two lists change in `set_trusted` and nowhere else. What the lists are
for is one verdict about each device: `set` decides it for one device, and leaves alone the other
devices and the list of the inactive model.
-/

namespace Yoink

variable {D P : Type}

namespace TrustSettings

variable (t : TrustSettings)

/-- The verdict: whether `deviceId` may sync the personal clipboard. -/
def trusts (deviceId : DeviceId) : Bool :=
  if t.requirePairing then decide (deviceId ∈ t.allowed) else decide (deviceId ∉ t.blocked)

/-- Decide the verdict about one device. -/
def set (deviceId : DeviceId) (trusted : Bool) : TrustSettings :=
  if t.requirePairing then
    { t with allowed := if trusted then insert deviceId t.allowed else t.allowed.erase deviceId }
  else
    { t with blocked := if trusted then t.blocked.erase deviceId else insert deviceId t.blocked }

/-- The list of the model that is not active. -/
def inactive : Finset DeviceId := if t.requirePairing then t.blocked else t.allowed

theorem trusts_set (d d' : DeviceId) (b : Bool) :
    (t.set d b).trusts d' = if d' = d then b else t.trusts d' := by
  unfold set
  cases hr : t.requirePairing <;> cases b <;> by_cases hd : d' = d <;> simp [trusts, hr, hd]

end TrustSettings

/-- What a call makes of the trust lists. -/
def Call.onTrust : Call → TrustSettings → TrustSettings
  | .setTrusted deviceId trusted, t => t.set deviceId trusted
  | _, t => t

theorem Call.onTrust_cases (c : Call) (t : TrustSettings) :
    c.onTrust t = t ∨ ∃ d b, c = .setTrusted d b ∧ c.onTrust t = t.set d b := by
  cases c with
  | setTrusted d b => exact .inr ⟨d, b, rfl, rfl⟩
  | _ => exact .inl rfl

namespace State

def trust (s : State) : TrustSettings := ⟨s.requirePairing, s.allowed, s.blocked⟩

/-- Whether `deviceId` is paired under `--require-pairing`, blocked otherwise. -/
def isExplicitlyListed (s : State) (deviceId : DeviceId) : Bool :=
  if s.requirePairing then decide (deviceId ∈ s.allowed) else decide (deviceId ∈ s.blocked)

theorem isExplicitlyListed_congr {s s' : State} (h : s'.trust = s.trust) (d : DeviceId) :
    s'.isExplicitlyListed d = s.isExplicitlyListed d := by
  simp only [trust, TrustSettings.mk.injEq] at h
  simp [isExplicitlyListed, h]

theorem setTrust_requirePairing (s : State) (d : DeviceId) (b : Bool) :
    (s.setTrust d b).requirePairing = s.requirePairing := by
  unfold setTrust
  split_ifs <;> rfl

theorem devicesTrusted_eq (s : State) (d : DeviceId) : s.devicesTrusted d = s.trust.trusts d := rfl

/-- `set_trusted` decides the verdict. -/
theorem trust_setTrust (s : State) (d : DeviceId) (b : Bool) :
    (s.setTrust d b).trust = s.trust.set d b := by
  cases hr : s.requirePairing <;> cases b <;>
    simp [setTrust, trust, TrustSettings.set, hr]

/-- The lists hold the explicit members: a device joins the active one when the model and its
trust agree, and leaves it otherwise. -/
theorem isExplicitlyListed_setTrust (s : State) (d d' : DeviceId) (b : Bool) :
    (s.setTrust d b).isExplicitlyListed d' =
      if d' = d then decide (s.requirePairing = b) else s.isExplicitlyListed d' := by
  unfold setTrust
  cases hr : s.requirePairing <;> cases b <;> by_cases hd : d' = d <;>
    simp [isExplicitlyListed, hr, hd]

end State

namespace Manager

variable [Yrs D P]

theorem perform_trust (m : Manager D P) (c : Call) :
    (m.perform c).1.state.trust = c.onTrust m.state.trust := by
  cases c with
  | setTrusted d b =>
    obtain ⟨_, _, h⟩ := m.state.setTrusted_eq d b
    rw [Call.onTrust, ← m.state.trust_setTrust]
    simp only [perform, h]
    rfl
  | maybeSpawnDialer d s n =>
    obtain h | ⟨-, -, h⟩ := m.maybeSpawnDialer_cases d s n <;>
      simp [perform, h, State.trust, Call.onTrust]
  | joinRoom name =>
    obtain h | ⟨-, -, h, -⟩ := m.joinRoom_cases name <;>
      simp [perform, h, State.trust, Call.onTrust]
  | addEntry scope entry =>
    cases hg : m.docs.get scope <;> simp only [perform, hg, commit_eq, Call.onTrust]
  | leaveRoom name =>
    simp only [perform, State.leaveRoom]
    split <;> rfl
  | forceClose key g =>
    obtain ⟨_, h⟩ := m.state.forceClose_eq key g
    simp only [perform, h]
    rfl
  | peerDiscovered peer =>
    obtain ⟨_, h⟩ := m.state.peerDiscovered_eq m.device.id peer
    simp only [perform, h]
    rfl
  | hangup e => simp only [perform, signalHangup_eq, Call.onTrust]
  | cancelDialer l => simp only [perform, cancelLoop_eq, Call.onTrust]
  | dropFanOut f => simp only [perform, cancelFan_eq, Call.onTrust]
  | _ => rfl

variable [DecidableEq P]

theorem Step.trust {m m' : Manager D P} {a : Action P} (h : m.Step a m') :
    m'.state.trust = m.state.trust ∨ ∃ t d b cs, a = .call t ∧ m.calls t = .setTrusted d b :: cs ∧
      m'.state.trust = (m.state.setTrust d b).trust := by
  cases h with
  | @call t c cs hc =>
    have h := m.perform_trust c
    obtain hq | ⟨d, b, rfl, hq⟩ := c.onTrust_cases m.state.trust
    · exact .inl (h.trans hq)
    · exact .inr ⟨t, d, b, cs, rfl, hc, (h.trans hq).trans (m.state.trust_setTrust d b).symm⟩
  | @register e task peer doc g ht hc hp =>
    obtain h | ⟨d, -, -, h⟩ := m.register_cases e task peer doc g <;> rw [h] <;> exact .inl rfl
  | @handleFrame e task r b payload ht hc hp =>
    obtain ⟨-, h⟩ | ⟨m₁, reply, hf, h⟩ := m.handle_cases e task r b payload
    · rw [h]
      exact .inl rfl
    · obtain ⟨docs, fans, rfl⟩ := handleFrame_eq hf
      rw [h]
      exact .inl rfl
  | @tryAnnounce e task r reply ht hc hp =>
    obtain ⟨-, h⟩ | ⟨c, -, -, h⟩ := m.announce_cases e task r reply <;> rw [h] <;> exact .inl rfl
  | @finishConnection e task r b ht hc hp =>
    obtain ⟨_, h⟩ := m.state.finishConnection_eq r.key r.generation
    exact .inl (by simp only [h]; rfl)
  | @fanPush i f frame target rest lag hf hp hc =>
    obtain h | ⟨task, -, -, -, h⟩ | ⟨task, -, -, h⟩ := m.trySend_cases i frame target <;>
      rw [h] <;> exact .inl rfl
  | @removeDialerEntry i l hl hp =>
    obtain ⟨_, h⟩ := m.state.removeDialerEntry_eq l.key l.generation
    rw [h]
    exact .inl rfl
  | dial hl hs => cases hs <;> exact .inl rfl
  | fan hf hs => cases hs <;> exact .inl rfl
  | _ => exact .inl rfl

end Manager

end Yoink
