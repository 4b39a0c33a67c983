import Yoink.Sync.Revocation
import Yoink.Sync.Trust

/-!
# What a distrusted device can still write

`set_trusted(d, false)` hangs the connections of `d` up, but a frame that a connection has taken
from its socket is handled without another look at the watch, and the select of the frame loop
may take one more although the hangup is there. So nothing is written if the operation, and the
hangups it makes, find no content to be handled, and the select takes none afterwards.
-/

namespace Yoink

variable {D P : Type}

namespace Manager

/-- The connection on `e` has taken content from its socket and not handled it yet. -/
def hasContent (m : Manager D P) (e : EndId) : Bool :=
  match (m.conns e).map ConnTask.phase with
  | some (.received _ _ (some f)) => f.isContent
  | _ => false

/-- The connection on `e` is a devices connection of `d`. -/
def isDevices (m : Manager D P) (d : DeviceId) (e : EndId) : Bool :=
  (m.registered e).any fun r => decide (r.key = (d, .devices))

/-- And `d` is not trusted. -/
def unwanted (m : Manager D P) (d : DeviceId) (e : EndId) : Bool :=
  m.isDevices d e && !m.state.devicesTrusted d

variable (d : DeviceId)

/-- The section of `set_trusted(d, false)` runs when no devices connection of `d` that was hung up
before has content to handle. -/
def DistrustsDrained (m : Manager D P) (a : Action P) : Prop :=
  ∀ t cs, a = .call t → m.calls t = .setTrusted d false :: cs → ∀ e, m.isDevices d e = true →
    m.hungUp e = true → m.hasContent e = false

/-- A hangup is signalled to an unwanted connection when it has no content to handle. -/
def HangupsDrained (m : Manager D P) : Action P → Bool
  | .call t =>
    match m.calls t with
    | .hangup e :: _ => !(m.unwanted d e && m.hasContent e)
    | _ => true
  | _ => true

/-- The select of an unwanted connection that was hung up takes no content from the socket. -/
def SelectsHangup (m : Manager D P) : Action P → Bool
  | .conn e (.recv (.frame (some f))) => !(m.unwanted d e && m.hungUp e && f.isContent)
  | _ => true

/-- All of this, and what the revocation needs. -/
structure DistrustSettled (m : Manager D P) (a : Action P) : Prop where
  revokes : m.RevokesSettled (.distrust d) a
  distrusts : m.DistrustsDrained d a
  hangups : m.HangupsDrained d a = true
  selects : m.SelectsHangup d a = true

/-- No unwanted connection that was hung up has content to handle. -/
def Drained (m : Manager D P) : Prop :=
  ∀ e, m.unwanted d e = true → m.hungUp e = true → m.hasContent e = false

variable {d}

theorem hasContent_eq_true {m : Manager D P} {e : EndId} : m.hasContent e = true ↔
    ∃ t r b f, m.conns e = some t ∧ t.phase = .received r b (some f) ∧ f.isContent = true := by
  unfold hasContent
  constructor
  · intro h
    split at h
    · next hp =>
      obtain ⟨t, ht, hp⟩ := Option.map_eq_some_iff.mp hp
      exact ⟨t, _, _, _, ht, hp, h⟩
    · cases h
  · rintro ⟨t, r, b, f, ht, hp, hf⟩
    simp [ht, hp, hf]

theorem isDevices_of_registered {m : Manager D P} {e : EndId} {r : Registered}
    (hr : m.registered e = some r) : m.isDevices d e = true ↔ r.key = (d, .devices) := by
  simp [isDevices, hr]

theorem unwanted_eq_true {m : Manager D P} {e : EndId} :
    m.unwanted d e = true ↔ m.isDevices d e = true ∧ m.state.devicesTrusted d = false := by
  simp [unwanted]

section Steps

variable [Yrs D P] [DecidableEq P] {m m' : Manager D P} {a : Action P}

/-- A device ceases to be trusted in the section that says so. -/
theorem Step.distrusts (h : m.Step a m') (ht : m.state.devicesTrusted d = true)
    (hn : m'.state.devicesTrusted d = false) :
    ∃ t cs, a = .call t ∧ m.calls t = .setTrusted d false :: cs := by
  rw [State.devicesTrusted_eq] at ht hn
  obtain htrust | ⟨t, d', b, cs, rfl, hc, htrust⟩ := h.trust
  · rw [htrust, ht] at hn
    cases hn
  · rw [htrust, State.trust_setTrust, TrustSettings.trusts_set] at hn
    split at hn
    · subst d' b
      exact ⟨t, cs, rfl, hc⟩
    · rw [ht] at hn
      cases hn

theorem Drained.step (hi : m.Drained d) (h : m.Step a m') (hs : m.DistrustSettled d a) :
    m'.Drained d := by
  intro e hu hh
  by_contra hcontent
  obtain ⟨t', r, b, f, ht', hp', hf⟩ := hasContent_eq_true.mp (by simpa using hcontent)
  have hr' : m'.registered e = some r := by simp [registered, ht', hp', Phase.registered]
  obtain ⟨hkey, htrust'⟩ := unwanted_eq_true.mp hu
  rw [isDevices_of_registered hr'] at hkey
  replace hh : t'.hangup = true := by simpa [hungUp, ht'] using hh
  have hstep := h.connStep e
  rw [ht'] at hstep
  obtain ⟨t, ht, hp⟩ := hstep.received hp'
  rw [ht] at hstep
  have hr : m.registered e = some r := by
    rcases hp with hp | ⟨-, hp⟩ <;> simp [registered, ht, hp, Phase.registered]
  have hd : m.isDevices d e = true := (isDevices_of_registered hr).mpr hkey
  -- A step that is not the section of `set_trusted(d, false)` leaves the device as it is.
  have unwanted (hn : ∀ t cs, a = .call t → m.calls t ≠ .setTrusted d false :: cs) :
      m.unwanted d e = true := by
    refine unwanted_eq_true.mpr ⟨hd, ?_⟩
    by_contra htrust
    obtain ⟨t, cs, ha, hcall⟩ := h.distrusts (by simpa using htrust) htrust'
    exact hn t cs ha hcall
  rcases hp with hp | ⟨rfl, hp⟩
  · have hc : m.hasContent e = true := hasContent_eq_true.mpr ⟨t, r, b, f, ht, hp, hf⟩
    rcases hstep.hangup with heq | ⟨i, cs, rfl, hcall⟩
    · -- It was hung up before, and had content to handle then.
      have hup : m.hungUp e = true := by simpa [hungUp, ht, ← heq] using hh
      by_cases htrust : m.state.devicesTrusted d = true
      · obtain ⟨t, cs, ha, hcall⟩ := h.distrusts htrust htrust'
        rw [hs.distrusts t cs ha hcall e hd hup] at hc
        cases hc
      · rw [hi e (unwanted_eq_true.mpr ⟨hd, by simpa using htrust⟩) hup] at hc
        cases hc
    · -- It is hung up now.
      have hu : m.unwanted d e = true := by
        refine unwanted ?_
        rintro t cs' ⟨⟩
        simp [hcall]
      have := hs.hangups
      simp [HangupsDrained, hcall, hu, hc] at this
  · -- It takes the content now, and was hung up before.
    have hu := unwanted (by simp)
    have hup : m.hungUp e = true := by
      rcases hstep.hangup with heq | ⟨i, cs, hact, -⟩
      · simpa [hungUp, ht, ← heq] using hh
      · cases hact
    have := hs.selects
    simp [SelectsHangup, hu, hup, hf] at this

end Steps

section Runs

variable [Yrs D P] [DecidableEq P] {device : DeviceInfo} {m : Manager D P}
  {τ : List (Transition (Manager D P) (Action P))}

theorem Reachable.drained
    (h : ((system D P device).restrict fun m a _ => m.DistrustSettled d a).Reachable m) :
    m.Drained d := by
  refine h.invariant (I := Drained d) ?_ ?_
  · rintro m ⟨trust, rooms, rfl⟩ e hu hh
    simp [hungUp, (new_bare device trust rooms).conns] at hh
  · intro m a m' _ hI hs
    exact hI.step (step_cases hs.1) hs.2

/-- A distrusted device does not write into the devices document. -/
theorem distrusted_cannot_write
    (h : ((system D P device).restrict fun m a _ => m.DistrustSettled d a).Run τ m)
    {τ₁ τ₂ : List (Transition (Manager D P) (Action P))}
    {t : Transition (Manager D P) (Action P)} (heq : τ = τ₁ ++ t :: τ₂)
    (hv : Revoked (.distrust d) τ₁) {e : EndId} (ha : t.act = .handleFrame e) {r : Registered}
    (hr : t.pre.registered e = some r) (hd : r.peer.deviceId = d) :
    t.post.docs.heap t.pre.docs.set.devices = t.pre.docs.heap t.pre.docs.set.devices := by
  obtain ⟨hrun, hs⟩ := h.split heq
  by_contra hne
  obtain ⟨task, r', b, f, ht, hp, hf, hdoc⟩ :=
    Step.handleFrame_heap (ha ▸ step_cases hs.1) hne
  obtain rfl : r' = r := by simpa [registered, ht, hp, Phase.registered] using hr
  -- The document is the devices document, so the connection is of the devices scope.
  obtain ⟨σ, hσ⟩ := Reachable.named hrun.of_restrict.reachable
  have hscope : r'.peer.scope = .devices := by
    have h1 := (hσ.set .devices _ rfl).2
    have h2 := (hσ.conn e r'.peer.scope r'.doc (by simp [ht, hp, Phase.doc, Phase.registered])).2
    rw [← h2, ← h1, hdoc]
  have hkey : r'.key = (d, .devices) := by rw [Registered.key, Hello.key, hscope, hd]
  -- So it was hung up, and has no content to handle.
  have hsettled := hrun.of_restrict.to_restrict
    (C := fun m a _ => m.RevokesSettled (.distrust d) a) fun u hu => (hrun.restricted u hu).revokes
  have hh := Run.silenced hsettled hv e r' hr (by simp [Revocation.covers, hkey])
  have huntrusted : t.pre.state.devicesTrusted d = false := by
    simpa [Revocation.inForce] using Revoked.inForce hv hrun.of_restrict
  have hnone := Reachable.drained hrun.reachable e
    (unwanted_eq_true.mpr ⟨(isDevices_of_registered hr).mpr hkey, huntrusted⟩) hh
  rw [hasContent_eq_true.mpr ⟨task, r', b, f, ht, hp, hf⟩] at hnone
  cases hnone

/-- The hangup is signalled and `set_trusted` has returned, but the select of the connection takes
the socket's branch, and an update of "b" goes into the devices document. -/
theorem distrusted_update_applied :
    ∃ (τ : List (Transition (Manager GrowSet GrowSet) (Action GrowSet)))
      (m m' : Manager GrowSet GrowSet) (e : EndId) (r : Registered),
      (system GrowSet GrowSet ⟨"a", "A"⟩).Run τ m ∧ Revoked (.distrust "b") τ ∧
        m.step (.handleFrame e) = some m' ∧ m.registered e = some r ∧ r.peer.deviceId = "b" ∧
        m'.docs.heap m.docs.set.devices ≠ m.docs.heap m.docs.set.devices := by
  let e : EndId := ⟨0, false⟩
  let start : Manager GrowSet GrowSet := .new ⟨"a", "A"⟩ ⟨false, ∅, ∅⟩ []
  let acts : List (Action GrowSet) := enters e ++ [.sendStep1 e ∅, .conn e (.step1Sent true),
    .invoke 0 (.setTrusted "b" false), .call (.caller 0), .call (.caller 0),
    .conn e (.recv (.frame (some (.update {7}))))]
  obtain ⟨m, hm, hp⟩ := System.exists_of_exec
    (show (System.exec Manager.step start acts).any (fun m =>
      ((m.registered e).any fun r => decide (r.peer.deviceId = "b")) &&
        (m.step (.handleFrame e)).any fun m' => decide
          (m'.docs.heap m.docs.set.devices ≠ m.docs.heap m.docs.set.devices)) = true
      by decide +kernel)
  simp only [Bool.and_eq_true, Option.any_eq_true, decide_eq_true_eq] at hp
  obtain ⟨⟨r, hr, hd⟩, m', hm', hne⟩ := hp
  have hrev : Revoked (.distrust "b") (System.trace Manager.step start acts) :=
    .at 0 8 (by decide +kernel) (by decide +kernel) (by decide +kernel)
  exact ⟨_, m, m', e, r, run_of_exec hm, hrev, hm', hr, hd, hne⟩

/-- The device "b" has written an entry into the devices document when it is distrusted. Its
connection has one more frame to handle, and the document stays as it is. -/
theorem distrusted_cannot_write_devices :
    ∃ (τ : List (Transition (Manager GrowSet GrowSet) (Action GrowSet)))
      (m m' : Manager GrowSet GrowSet) (e : EndId) (r : Registered),
      (system GrowSet GrowSet ⟨"a", "A"⟩).Run τ m ∧ Revoked (.distrust "b") τ ∧
        m.step (.handleFrame e) = some m' ∧ m.registered e = some r ∧ r.key = ("b", .devices) ∧
        m.hungUp e = true ∧ 7 ∈ m.docs.heap m.docs.set.devices ∧
        m'.docs.heap m.docs.set.devices = m.docs.heap m.docs.set.devices := by
  let e : EndId := ⟨0, false⟩
  let start : Manager GrowSet GrowSet := .new ⟨"a", "A"⟩ ⟨false, ∅, ∅⟩ []
  let acts : List (Action GrowSet) := enters e ++ [.sendStep1 e ∅, .conn e (.step1Sent true),
    .conn e (.recv (.frame (some (.update {7})))), .handleFrame e, .tryAnnounce e,
    .conn e (.recv (.frame (some (.syncStep1 ∅)))), .invoke 0 (.setTrusted "b" false),
    .call (.caller 0), .call (.caller 0), .call (.caller 0)]
  let τ := System.trace Manager.step start acts
  obtain ⟨m, hm, hp⟩ := System.exists_of_exec
    (show (System.exec Manager.step start acts).any (fun m =>
      ((m.registered e).any fun r => decide (r.key = ("b", .devices))) &&
        (m.step (.handleFrame e)).isSome && m.hungUp e &&
        decide (7 ∈ m.docs.heap m.docs.set.devices)) = true by decide +kernel)
  simp only [Bool.and_eq_true, Option.any_eq_true, decide_eq_true_eq] at hp
  obtain ⟨⟨⟨⟨r, hr, hk⟩, hs⟩, hh⟩, hmem⟩ := hp
  obtain ⟨m', hm'⟩ := Option.isSome_iff_exists.mp hs
  have hrev : Revoked (.distrust "b") τ :=
    .at 0 12 (by decide +kernel) (by decide +kernel) (by decide +kernel)
  have hopen : ∀ u ∈ τ, (match u.act with
      | .handleInbound e' | .connected _ e' => decide (e' = e)
      | _ => true) = true := by decide +kernel
  have hcheck : ∀ u ∈ τ, u.pre.HangupsDrained "b" u.act = true ∧
      u.pre.SelectsHangup "b" u.act = true ∧ (u.pre.hungUp e && u.pre.hasContent e) = false := by
    decide +kernel
  have hrevokes := Run.revokesSettled (run_of_exec hm) (by decide +kernel) (.distrust "b")
  have hrun := (run_of_exec hm).to_restrict (C := fun m a _ => m.DistrustSettled "b" a) fun u hu =>
    by
    obtain ⟨hhangups, hselects, hcontent⟩ := hcheck u hu
    refine ⟨hrevokes u hu, fun t cs _ _ e' hd hup => ?_, hhangups, hselects⟩
    obtain ⟨r', hr', -⟩ := (Option.any_eq_true _ _).mp hd
    -- There is but one connection.
    obtain ⟨τ₁, τ₂, heq⟩ := List.append_of_mem hu
    obtain ⟨t', ht', -⟩ := Option.bind_eq_some_iff.mp hr'
    obtain ⟨v, hv, hact⟩ := Run.opened ((run_of_exec hm).split heq).1 (e := e') (by simp [ht'])
    have hv : v ∈ τ := by
      rw [show τ = τ₁ ++ u :: τ₂ from heq]
      exact List.mem_append_left _ hv
    have hone := hopen v hv
    obtain rfl : e' = e := by
      obtain hact | ⟨l, hact⟩ := hact <;> rw [hact] at hone <;> simpa using hone
    simpa [hup] using hcontent
  have hc : m.DistrustSettled "b" (.handleFrame e) :=
    ⟨by simp [RevokesSettled], by simp [DistrustsDrained], rfl, rfl⟩
  refine ⟨τ, m, m', e, r, run_of_exec hm, hrev, hm', hr, hk, hh, hmem, ?_⟩
  exact distrusted_cannot_write (hrun.next ⟨hm', hc⟩) rfl hrev rfl hr (congrArg Prod.fst hk)

end Runs

end Manager

end Yoink
