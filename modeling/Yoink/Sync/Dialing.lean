import Yoink.Sync.Ownership

/-!
# Which loop a dialer belongs to

The dialers lease each key to one dial loop, as the connection table does to connection
tasks. With the registry's own invariant this is what every reachable state keeps.
-/

namespace Yoink

variable {D P : Type}

namespace Manager

/-- `dialers` as leases to dial loops. -/
def dialLeases (m : Manager D P) : Leases ConnKey TaskId where
  holder k := (m.state.dialers.lookup k).map (·.loop)
  key i := (m.dialing i).map Prod.fst
  stopped i := m.cancelled i ∨ m.owes (.cancelDialer i)

/-- How the dialers and the dial loops belong together. -/
structure DialsOwned (m : Manager D P) : Prop where
  exact : m.dialLeases.Exact
  /-- Nobody stops a loop before it is spawned. -/
  unspawned : ∀ i, m.loops i = none → ¬ m.owes (.cancelDialer i)
  matched : ∀ k d x, m.state.dialers.lookup k = some d → m.dialing d.loop = some x →
    x.2 = d.generation

section Dialers

variable {m m' : Manager D P}

theorem dialer_holder_eq_some {k : ConnKey} {i : TaskId} :
    m.dialLeases.holder k = some i ↔ ∃ d, m.state.dialers.lookup k = some d ∧ d.loop = i := by
  simp [dialLeases]

theorem dialing_eq_some {i : TaskId} {x : ConnKey × Nat} :
    m.dialing i = some x ↔
      ∃ l, m.loops i = some l ∧ l.phase ≠ .returned ∧ x = (l.key, l.generation) := by
  unfold dialing
  cases hl : m.loops i with
  | none => simp
  | some l => by_cases hp : l.phase = .returned <;> simp [hp, eq_comm]

/-- The dialer of a running loop's key has its generation iff it is its own. -/
theorem DialsOwned.identifies (ho : m.DialsOwned) (hf : m.Fresh) {i : TaskId} {l : DialLoop}
    (hl : m.loops i = some l) (hp : l.phase ≠ .returned) :
    (m.state.dialers.lookup l.key).any (fun d => decide (d.generation = l.generation)) = true ↔
      m.dialLeases.holder l.key = some i := by
  have hd : m.dialing i = some (l.key, l.generation) := dialing_eq_some.mpr ⟨l, hl, hp, rfl⟩
  rw [dialer_holder_eq_some]
  simp only [Option.any_eq_true, decide_eq_true_eq]
  refine exists_congr fun d => and_congr_right fun hk => ?_
  constructor
  · intro hg
    have hkey : m.dialLeases.key d.loop = some l.key :=
      ho.exact.key_of_holder (dialer_holder_eq_some.mpr ⟨d, hk, rfl⟩)
    obtain ⟨x, hx, -⟩ := Option.map_eq_some_iff.mp hkey
    obtain ⟨l', hl', -, rfl⟩ := dialing_eq_some.mp hx
    exact hf.loop_inj _ _ _ _ hl' hl ((ho.matched _ _ _ hk hx).trans hg)
  · rintro rfl
    exact (ho.matched _ _ _ hk hd).symm

variable [Yrs D P]

theorem dialing_call {c : Call} (hn : ∀ d s n, c ≠ .maybeSpawnDialer d s n) {t : ThreadId}
    {cs : List Call} (i : TaskId) : ((m.perform c).1.setCalls t cs).dialing i = m.dialing i := by
  simp only [dialing, setCalls_loops, perform_loops m hn]
  cases m.loops i <;> rfl

/-- A call stops the loops whose dialers it takes out, and no other. -/
theorem stopped_loop_call {t : ThreadId} {c : Call} {cs : List Call} (hc : m.calls t = c :: cs)
    (hn : ∀ d s n, c ≠ .maybeSpawnDialer d s n) {i : TaskId} (hi : (m.loops i).isSome) :
    ((m.perform c).1.setCalls t ((m.perform c).2 ++ cs)).dialLeases.stopped i ↔
      m.dialLeases.stopped i ∨
        ∃ k, c.undialed m.state k = true ∧ m.dialLeases.holder k = some i := by
  have hnew := (m.perform_releases c).cancelDialer i
  have howes := owes_call hc (.cancelDialer i)
  have hex : (∃ k, c.undialed m.state k = true ∧ m.dialLeases.holder k = some i) ↔
      .cancelDialer i ∈ (m.perform c).2 := by
    rw [hnew]
    simp only [dialer_holder_eq_some, exists_and_left]
  have hflag : ((m.perform c).1.setCalls t ((m.perform c).2 ++ cs)).cancelled i =
      (m.cancelled i || decide (c = .cancelDialer i)) := by
    simp only [cancelled, setCalls_loops, perform_loops m hn]
    cases h : m.loops i <;> simp_all
  rw [hex]
  show _ ∨ _ ↔ (_ ∨ _) ∨ _
  rw [hflag, Bool.or_eq_true, decide_eq_true_eq, or_assoc, or_assoc, ← howes, eq_comm (a := c)]
  tauto

omit [Yrs D P] in
theorem isSome_of_loop_key {i : TaskId} (h : m.dialLeases.key i ≠ none) : (m.loops i).isSome := by
  cases hl : m.loops i with
  | none => simp [dialLeases, dialing, hl] at h
  | some l => rfl

variable [DecidableEq P] {a : Action P}

theorem DialsOwned.exact_step (ho : m.DialsOwned) (hf : m.Fresh) (h : m.Step a m') :
    m'.dialLeases.Exact := by
  cases h.dialStep with
  | quiet hq =>
    refine ho.exact.congr (fun k => ?_) (fun i => ?_) fun i _ => ?_
    · simp only [dialLeases, hq.dialers]
    · simp only [dialLeases, hq.dialing]
    · simp only [dialLeases, hq.cancelled, hq.owes]
  | call hc hn =>
    rename_i t c cs
    refine ho.exact.revoke (fun k => c.undialed m.state k = true) (fun k => ?_) (fun i => ?_)
      fun i hi => stopped_loop_call hc hn (isSome_of_loop_key hi)
    · simp only [dialLeases, setCalls_state, perform_dialers m hn]
      split <;> simp
    · simp only [dialLeases, dialing_call hn]
  | spawn hc ho' hw =>
    rename_i t cs peerId scope delay
    have hnone : m.loops m.spawned = none := by
      cases hl : m.loops m.spawned with
      | none => rfl
      | some l => exact absurd (hf.loop _ _ hl).2 (lt_irrefl _)
    have howes : ∀ i, (m.setCalls t cs).owes (.cancelDialer i) ↔ m.owes (.cancelDialer i) :=
      fun i => owes_of_cons hc (by simp)
    have hfree : m.state.dialers.lookup (peerId, scope) = none := by
      simp only [State.wantsDialer, Bool.and_eq_true, Option.isNone_iff_eq_none] at hw
      exact hw.2
    refine ho.exact.grant (k := (peerId, scope)) (t := m.spawned) ?_ (fun k => ?_)
      (fun i => ?_) ?_ fun i hi _ => ?_
    · simp [dialLeases, dialing, hnone]
    · simp only [dialLeases, FinMap.lookup_insert_ite]
      split <;> simp
    · by_cases hi : i = m.spawned
      · subst hi
        simp [dialLeases, dialing]
      · simp [dialLeases, dialing, hi]
    · rintro (hh | hh)
      · simp [cancelled] at hh
      · exact ho.unspawned _ hnone ((howes _).mp hh)
    · rw [show m.dialLeases.holder (peerId, scope) = none by simp [dialLeases, hfree]]
      show _ ∨ _ ↔ (_ ∨ _) ∨ _
      simp only [reduceCtorEq, or_false]
      refine or_congr ?_ (howes i)
      simp [cancelled, hi]
  | register hc hcs hds hls hcalls =>
    rename_i e key owner calls
    refine ho.exact.revoke (fun k => k = key ∧ m.state.redundant key owner = true) (fun k => ?_)
      (fun i => ?_) fun i hi => ?_
    · simp only [dialLeases, hds]
      split <;> simp
    · simp only [dialLeases, dialing, hls]
      cases m.loops i <;> rfl
    · show _ ∨ _ ↔ (_ ∨ _) ∨ _
      rw [owes_update hc hcalls, or_iff_left (hcs i)]
      have hflag : m'.cancelled i =
          (m.cancelled i || decide (m.state.redundantDialer key owner = some i)) := by
        have := isSome_of_loop_key hi
        simp only [cancelled, hls]
        cases h : m.loops i <;> simp_all
      have hex : (∃ k, (k = key ∧ m.state.redundant key owner = true) ∧
          m.dialLeases.holder k = some i) ↔ m.state.redundantDialer key owner = some i := by
        rw [State.redundantDialer_eq]
        by_cases hr : m.state.redundant key owner = true <;> simp [hr, dialLeases]
      rw [hflag, hex, Bool.or_eq_true, decide_eq_true_eq]
      tauto
  | returned hl hc =>
    rename_i i l
    have hne : ∀ k, m.dialLeases.holder k ≠ some i := fun k hk =>
      ho.exact.not_stopped hk (.inl (by simp [cancelled, hl, hc]))
    refine ho.exact.retire (t := i) (fun k hk => absurd hk (hne k)) (fun _ _ => rfl)
      (fun i' => ?_) fun i' hi _ => ?_
    · by_cases hi : i' = i
      · subst hi
        simp [dialLeases, dialing]
      · simp [dialLeases, dialing, hi]
    · show _ ∨ _ ↔ _ ∨ _
      simp [cancelled, hi, owes]
  | removed hl hp =>
    rename_i i l
    have hid := ho.identifies hf hl (by simp [hp])
    have hd : m.dialing i = some (l.key, l.generation) :=
      dialing_eq_some.mpr ⟨l, hl, by simp [hp], rfl⟩
    refine ho.exact.retire (t := i) (fun k hk => ?_) (fun k hk => ?_) (fun i' => ?_)
      fun i' hi _ => ?_
    · obtain rfl : l.key = k := by simpa [dialLeases, hd] using ho.exact.key_of_holder hk
      simp [dialLeases, State.removeDialerEntry_dialers, hid.mpr hk]
    · have hn : ¬ (k = l.key ∧ (m.state.dialers.lookup l.key).any
          (fun d => decide (d.generation = l.generation)) = true) := by
        rintro ⟨rfl, h⟩
        exact hk (hid.mp h)
      simp only [dialLeases, setLoop_state, setState_state, State.removeDialerEntry_dialers,
        if_neg hn]
    · by_cases hi : i' = i
      · subst hi
        simp [dialLeases, dialing]
      · simp [dialLeases, dialing, hi]
    · show _ ∨ _ ↔ _ ∨ _
      simp [cancelled, hi, owes]

/-- A loop's record outlives it. -/
theorem Step.loops_isSome (h : m.Step a m') {i : TaskId} (hi : (m.loops i).isSome) :
    (m'.loops i).isSome := by
  have hstep := h.loopStep i
  generalize m.loops i = o at hi hstep
  generalize m'.loops i = o' at hstep
  cases hstep with
  | idle => exact hi
  | cancelled | spawned | moved | removed | connected => rfl

theorem DialsOwned.step (ho : m.DialsOwned) (hf : m.Fresh) (h : m.Step a m') :
    m'.DialsOwned where
  exact := ho.exact_step hf h
  unspawned i hi := by
    have hn : m.loops i = none := by
      cases hl : m.loops i with
      | none => rfl
      | some l => simpa [hi] using h.loops_isSome (i := i) (by simp [hl])
    have hk : ∀ k, m.dialLeases.holder k ≠ some i := fun k hk => by
      simpa [dialLeases, dialing, hn] using ho.exact.key_of_holder hk
    have hs := ho.unspawned i hn
    cases h.dialStep with
    | quiet hq => rwa [hq.owes]
    | call hc hn' =>
      intro hs'
      obtain h | h := (owes_call hc _).mp (.inl hs')
      · exact hs h
      · obtain ⟨k, d, -, hl, hd⟩ := ((m.perform_releases _).cancelDialer i).mp h
        exact hk k (dialer_holder_eq_some.mpr ⟨d, hl, hd⟩)
    | spawn hc ho' hw =>
      intro hs'
      exact hs ((owes_of_cons hc (by simp)).mp hs')
    | register hc hcs hds hls hcalls =>
      rw [owes_update hc hcalls]
      exact not_or.mpr ⟨hs, hcs i⟩
    | returned hl hc => exact hs
    | removed hl hp => exact hs
  matched := by
    cases h.dialStep with
    | quiet hq =>
      intro k d x hl hx
      exact ho.matched k d x (by rwa [← hq.dialers]) (by rwa [← hq.dialing])
    | call hc hn =>
      intro k d x hl hx
      rw [dialing_call hn] at hx
      rw [setCalls_state, perform_dialers m hn] at hl
      split at hl
      · cases hl
      · exact ho.matched k d x hl hx
    | spawn hc ho' hw =>
      rename_i t cs peerId scope delay
      intro k d x hl hx
      rw [FinMap.lookup_insert_ite] at hl
      split at hl
      · cases hl
        obtain ⟨l, hl, -, rfl⟩ := dialing_eq_some.mp hx
        simp only [Function.update_self, Option.some.injEq] at hl
        subst hl
        rfl
      · have hne : d.loop ≠ m.spawned := by
          intro heq
          have hk := ho.exact.key_of_holder (dialer_holder_eq_some.mpr ⟨d, hl, rfl⟩)
          have hsome : (m.loops d.loop).isSome := isSome_of_loop_key (by simp [hk])
          obtain ⟨l, hl'⟩ := Option.isSome_iff_exists.mp hsome
          exact absurd (hf.loop _ _ hl').2 (by simp [heq])
        exact ho.matched k d x hl (by simpa [dialing, hne] using hx)
    | register hc hcs hds hls hcalls =>
      intro k d x hl hx
      rw [hds] at hl
      split at hl
      · cases hl
      · refine ho.matched k d x hl ?_
        simp only [dialing, hls] at hx ⊢
        cases hd : m.loops d.loop <;> simp_all [DialLoop.key]
    | returned hl₀ hc =>
      rename_i i l
      intro k d x hl hx
      by_cases hi : d.loop = i
      · simp [dialing, hi] at hx
      · exact ho.matched k d x hl (by simpa [dialing, hi] using hx)
    | removed hl₀ hp =>
      rename_i i l
      intro k d x hl hx
      simp only [setLoop_state, setState_state, State.removeDialerEntry_dialers] at hl
      split at hl
      · cases hl
      · by_cases hi : d.loop = i
        · simp [dialing, hi] at hx
        · exact ho.matched k d x hl (by simpa [dialing, hi] using hx)

end Dialers

section Reachable

/-- What holds of the registry and its tasks in every reachable state. -/
structure Owned (m : Manager D P) : Prop where
  fresh : m.Fresh
  conns : m.ConnsOwned
  dials : m.DialsOwned
  admitted : m.state.Admitted m.device.id

theorem Bare.owned {m : Manager D P} (h : m.Bare) : m.Owned where
  fresh := by
    constructor <;> simp [connGeneration, h.conns, h.loops]
  conns := by
    refine ⟨fun k e => ?_, fun e _ => ?_, fun k c r hl => ?_⟩
    · simp [connLeases, h.connections, registered, h.conns]
    · simp [connLeases, hungUp, h.conns, owes, h.calls]
    · simp [h.connections] at hl
  dials := by
    refine ⟨fun k i => ?_, fun i _ => ?_, fun k d x hl => ?_⟩
    · simp [dialLeases, h.dialers, dialing, h.loops]
    · simp [owes, h.calls]
    · simp [h.dialers] at hl
  admitted := h.admitted

variable [Yrs D P] [DecidableEq P] {m m' : Manager D P} {a : Action P}

theorem Reachable.device_eq {device : DeviceInfo} (h : (system D P device).Reachable m) :
    m.device = device := by
  refine h.invariant (I := fun m : Manager D P => m.device = device) ?_ fun m a m' _ hI hs => ?_
  · rintro m ⟨trust, rooms, rfl⟩
    refine new_induction (I := fun m : Manager D P => m.device = device) rfl fun m name hI => ?_
    obtain h | ⟨-, -, h, -⟩ := m.joinRoom_cases name <;> rwa [h]
  · rw [(step_cases hs).device, hI]

theorem Step.admitted (h : m.Step a m') (hm : m.state.Admitted m.device.id) :
    m'.state.Admitted m'.device.id := by
  rw [h.device]
  cases h with
  | call => exact perform_admitted hm _
  | register =>
    rename_i e t peer doc g _ _ _
    obtain h | ⟨d, -, ha, h⟩ := m.register_cases e t peer doc g
    · rwa [h]
    · rw [h]
      exact hm.register ha e g t.owningDialer
  | handleFrame =>
    rename_i e t r a payload _ _ _
    obtain ⟨-, h⟩ | ⟨m₁, reply, hf, h⟩ := m.handle_cases e t r a payload
    · rwa [h]
    · obtain ⟨docs, fans, rfl⟩ := handleFrame_eq hf
      rwa [h]
  | tryAnnounce =>
    rename_i e t r reply _ _ _
    obtain ⟨-, h⟩ | ⟨c, hl, -, h⟩ := m.announce_cases e t r reply
    · rwa [h]
    · rw [h]
      refine hm.connections_shrink fun k hk => ?_
      rw [FinMap.lookup_insert_ite] at hk
      split at hk
      · subst k
        simp [hl]
      · exact hk
  | finishConnection => exact hm.finishConnection _ _
  | fanPush =>
    rename_i i f frame target rest lag _ _ _
    obtain h | ⟨t, -, -, -, h⟩ | ⟨t, -, -, h⟩ := m.trySend_cases i frame target <;> rwa [h]
  | removeDialerEntry => exact hm.removeDialerEntry _ _
  | rehash hp hc hd => exact hm.rehash hp hc hd
  | _ => exact hm

theorem Owned.step (ho : m.Owned) (h : m.Step a m') : m'.Owned where
  fresh := ho.fresh.step h
  conns := ho.conns.step ho.fresh h
  dials := ho.dials.step ho.fresh h
  admitted := h.admitted ho.admitted

theorem Reachable.owned {device : DeviceInfo} (h : (system D P device).Reachable m) : m.Owned := by
  refine h.invariant ?_ fun s a s' _ ho hs => ho.step (step_cases hs)
  rintro s ⟨trust, rooms, rfl⟩
  exact (new_bare device trust rooms).owned

end Reachable

end Manager

end Yoink
