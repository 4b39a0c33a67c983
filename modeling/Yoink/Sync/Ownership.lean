import Yoink.Sync.Generations
import Yoink.Library.Leases

/-!
# Which task a connection belongs to

The connection table leases each key to one connection task. A registered task without
its entry was hung up, or some thread is about to hang it up; generations identify tasks, so
a task that compares generations before it removes an entry removes its own.
-/

namespace Yoink

variable {D P : Type}

namespace Manager

/-- `connections` as leases to connection tasks. A task is stopped once its hangup was signalled
or some thread is about to signal it. -/
def connLeases (m : Manager D P) : Leases ConnKey EndId where
  holder k := (m.state.connections.lookup k).map (·.task)
  key e := (m.registered e).map (·.key)
  stopped e := m.hungUp e ∨ m.owes (.hangup e)

/-- The task of `e`, if it exists, has not registered yet. -/
def pending (m : Manager D P) (e : EndId) : Bool := (m.conns e).all (·.phase.pending)

/-- How the connection table and the connection tasks belong together. -/
structure ConnsOwned (m : Manager D P) : Prop where
  exact : m.connLeases.Exact
  /-- Nobody stops a task before it has registered. -/
  pending : ∀ e, m.pending e → ¬ m.connLeases.stopped e
  matched : ∀ k c r, m.state.connections.lookup k = some c → m.registered c.task = some r →
    r.generation = c.generation

section Connections

variable {m m' : Manager D P}

theorem holder_eq_some {k : ConnKey} {e : EndId} :
    m.connLeases.holder k = some e ↔
      ∃ c, m.state.connections.lookup k = some c ∧ c.task = e := by
  simp [connLeases]

theorem connGeneration_of_registered {e : EndId} {r : Registered} (h : m.registered e = some r) :
    m.connGeneration e = some r.generation := by
  obtain ⟨t, ht, hr⟩ := Option.bind_eq_some_iff.mp h
  rw [connGeneration, ht]
  show t.phase.generation = _
  cases hp : t.phase <;> simp_all [Phase.generation, Phase.registered]

/-- The entry of a registered connection's key has its generation iff it is its own. -/
theorem ConnsOwned.identifies (ho : m.ConnsOwned) (hf : m.Fresh) {e : EndId} {r : Registered}
    (hr : m.registered e = some r) :
    m.state.identifies r.key r.generation = true ↔ m.connLeases.holder r.key = some e := by
  rw [holder_eq_some]
  simp only [State.identifies, Option.any_eq_true, decide_eq_true_eq]
  refine exists_congr fun c => and_congr_right fun hc => ?_
  constructor
  · intro hg
    have hk : m.connLeases.key c.task = some r.key :=
      ho.exact.key_of_holder (holder_eq_some.mpr ⟨c, hc, rfl⟩)
    obtain ⟨r', hr', -⟩ := Option.map_eq_some_iff.mp hk
    have hg' := ho.matched _ _ _ hc hr'
    refine hf.conn_inj _ _ _ (connGeneration_of_registered hr') ?_
    rw [hg', hg]
    exact connGeneration_of_registered hr
  · rintro rfl
    exact (ho.matched _ _ _ hc hr).symm

variable [Yrs D P]

theorem registered_call {c : Call} {t : ThreadId} {cs : List Call} (e : EndId) :
    ((m.perform c).1.setCalls t cs).registered e = m.registered e := by
  simp only [registered, setCalls_conns, perform_conns]
  cases m.conns e <;> rfl

theorem hungUp_call {c : Call} {t : ThreadId} {cs : List Call} {e : EndId}
    (he : (m.conns e).isSome) :
    ((m.perform c).1.setCalls t cs).hungUp e = (m.hungUp e || decide (c = .hangup e)) := by
  simp only [hungUp, setCalls_conns, perform_conns]
  cases h : m.conns e <;> simp_all

/-- A call stops the holders of what it takes out, and nobody else. -/
theorem stopped_call {t : ThreadId} {c : Call} {cs : List Call} (hc : m.calls t = c :: cs)
    {e : EndId} (he : (m.conns e).isSome) :
    ((m.perform c).1.setCalls t ((m.perform c).2 ++ cs)).connLeases.stopped e ↔
      m.connLeases.stopped e ∨
        ∃ k, c.gone m.state k = true ∧ m.connLeases.holder k = some e := by
  have hnew := (m.perform_releases c).hangup e
  have howes := owes_call hc (.hangup e)
  have hex : (∃ k, c.gone m.state k = true ∧ m.connLeases.holder k = some e) ↔
      .hangup e ∈ (m.perform c).2 := by
    rw [hnew]
    simp only [holder_eq_some, exists_and_left]
  rw [hex]
  show _ ∨ _ ↔ (_ ∨ _) ∨ _
  rw [hungUp_call he, Bool.or_eq_true, decide_eq_true_eq, or_assoc, or_assoc, ← howes,
    eq_comm (a := c)]
  tauto

omit [Yrs D P] in
theorem isSome_of_key {e : EndId} (h : m.connLeases.key e ≠ none) : (m.conns e).isSome := by
  cases he : m.conns e with
  | none => simp [connLeases, registered, he] at h
  | some t => rfl

omit [Yrs D P] in
theorem pending_registered {e : EndId} (h : m.pending e = true) : m.registered e = none := by
  cases he : m.conns e with
  | none => simp [registered, he]
  | some t =>
    have : t.phase.pending = true := by simpa [Manager.pending, he] using h
    cases hp : t.phase <;> simp_all [registered, Phase.pending, Phase.registered]

variable [DecidableEq P] {a : Action P}

theorem ConnsOwned.exact_step (ho : m.ConnsOwned) (hf : m.Fresh) (h : m.Step a m') :
    m'.connLeases.Exact := by
  cases h.tableStep with
  | quiet hq =>
    refine ho.exact.congr (fun k => ?_) (fun e => ?_) fun e _ => ?_
    · simp only [connLeases, hq.connections]
    · simp only [connLeases, hq.registered]
    · simp only [connLeases, hq.hungUp, hq.owes (c := .hangup e) rfl]
  | call hc =>
    rename_i t c cs
    refine ho.exact.revoke (fun k => c.gone m.state k = true) (fun k => ?_) (fun e => ?_)
      fun e he => stopped_call hc (isSome_of_key he)
    · simp only [connLeases, setCalls_state, perform_connections]
      split <;> simp
    · simp only [connLeases, registered_call]
  | register ht hc hp ha hs hconns hcalls hev =>
    rename_i e t peer doc g
    have hpend : m.pending e = true := by simp [Manager.pending, ht, hp, Phase.pending]
    have hns := ho.pending e hpend
    refine ho.exact.grant (k := peer.key) (t := e) ?_ (fun k => ?_) (fun e' => ?_) ?_
      fun e' he hk => ?_
    · simp [connLeases, pending_registered hpend]
    · simp only [connLeases, hs, State.register_connections]
      split <;> simp
    · simp only [connLeases, registered, hconns, Function.update_apply]
      split <;> simp [Phase.registered, Registered.key]
    · rintro (hh | hh)
      · refine hns (.inl ?_)
        simpa [hungUp, hconns, ht] using hh
      · obtain hh | hh := (owes_update hc hcalls _).mp hh
        · exact hns (.inr hh)
        · have hk := ho.exact.key_of_holder (k := peer.key) (t := e)
            (holder_eq_some.mpr (by simpa using hh))
          simp [connLeases, pending_registered hpend] at hk
    · show _ ∨ _ ↔ (_ ∨ _) ∨ _
      rw [owes_update hc hcalls, holder_eq_some]
      simp [hungUp, hconns, he, or_assoc]
  | announce ht hp hl hg =>
    rename_i e t r reply c
    refine ho.exact.congr (fun k => ?_) (fun e' => ?_) fun e' _ => ?_
    · simp only [connLeases, FinMap.lookup_insert_ite]
      split
      · subst k
        simp [hl]
      · rfl
    · by_cases he : e' = e
      · subst he
        cases reply <;>
          simp [connLeases, registered, ht, hp, Phase.registered, ConnTask.replyOrSelect]
      · simp [connLeases, registered, he]
    · by_cases he : e' = e
      · subst he
        simp [connLeases, hungUp, ht, owes]
      · simp [connLeases, hungUp, he, owes]
  | finish ht hc hp =>
    rename_i e t r b
    have hr : m.registered e = some r := by simp [registered, ht, hp, Phase.registered]
    refine ho.exact.retire (t := e) (fun k hk => ?_) (fun k hk => ?_) (fun e' => ?_)
      fun e' he _ => ?_
    · obtain rfl : r.key = k := by simpa [connLeases, hr] using ho.exact.key_of_holder hk
      simp [connLeases, State.finishConnection_connections, (ho.identifies hf hr).mpr hk]
    · have hn : ¬ (k = r.key ∧ m.state.identifies r.key r.generation = true) := by
        rintro ⟨rfl, hid⟩
        exact hk ((ho.identifies hf hr).mp hid)
      simp [connLeases, State.finishConnection_connections, hn]
    · by_cases he : e' = e
      · subst he
        simp [connLeases, registered, Phase.registered]
      · simp [connLeases, registered, he]
    · have hcalls : Call.hangup e' ∉ (m.state.finishConnection r.key r.generation).2 ++
          [.maybeSpawnDialer r.key.1 r.key.2 redialDelay] := by
        rw [State.finishConnection_calls]
        split <;> simp
      show _ ∨ _ ↔ _ ∨ _
      rw [owes_update hc rfl, or_iff_left hcalls]
      simp [hungUp, he]

/-- A step stops only tasks that hold an entry. -/
theorem Step.stopped (h : m.Step a m') {e : EndId} (hs : m'.connLeases.stopped e) :
    m.connLeases.stopped e ∨ ∃ k, m.connLeases.holder k = some e := by
  cases h.tableStep with
  | quiet hq =>
    refine .inl ?_
    simpa only [connLeases, hq.hungUp, hq.owes (c := .hangup e) rfl] using hs
  | call hc =>
    rename_i t c cs
    cases he : m.conns e with
    | some _ =>
      obtain h | ⟨k, -, hk⟩ := (stopped_call hc (by simp [he])).mp hs
      · exact .inl h
      · exact .inr ⟨k, hk⟩
    | none =>
      obtain h | h := hs
      · simp [hungUp, perform_conns, he] at h
      · obtain h | h := (owes_call hc _).mp (.inl h)
        · exact .inl (.inr h)
        · obtain ⟨k, c, -, hl, ht⟩ := ((m.perform_releases c).hangup e).mp h
          exact .inr ⟨k, holder_eq_some.mpr ⟨c, hl, ht⟩⟩
  | register ht hc hp ha hst hconns hcalls hev =>
    rename_i e₀ t peer doc g
    obtain hs | hs := hs
    · refine .inl (.inl ?_)
      by_cases he : e = e₀
      · subst he
        simpa [hungUp, hconns, ht] using hs
      · simpa [hungUp, hconns, he] using hs
    · obtain hs | hs := (owes_update hc hcalls _).mp hs
      · exact .inl (.inr hs)
      · exact .inr ⟨peer.key, holder_eq_some.mpr (by simpa using hs)⟩
  | announce ht hp hl hg =>
    rename_i e₀ t r reply c
    refine .inl (hs.imp (fun h => ?_) id)
    by_cases he : e = e₀
    · subst he
      simpa [hungUp, ht] using h
    · simpa [hungUp, he] using h
  | finish ht hc hp =>
    rename_i e₀ t r b
    refine .inl (hs.imp (fun h => ?_) fun h => ?_)
    · by_cases he : e = e₀
      · subst he
        simpa [hungUp, ht] using h
      · simpa [hungUp, he] using h
    · refine ((owes_update hc rfl _).mp h).resolve_right ?_
      rw [State.finishConnection_calls]
      split <;> simp

/-- Where an entry and the connection its task drives come from. -/
theorem Step.entry (h : m.Step a m') (ho : m.connLeases.Exact) {k : ConnKey}
    {c : ConnectionHandle} {r : Registered} (hl : m'.state.connections.lookup k = some c)
    (hr : m'.registered c.task = some r) :
    (∃ c₀, m.state.connections.lookup k = some c₀ ∧ c₀.task = c.task ∧
      c₀.generation = c.generation ∧ (c₀.announced = true → c.announced = true) ∧
      m.registered c₀.task = some r) ∨
    ∃ e t peer doc g, a = .register e ∧ m.conns e = some t ∧
      t.phase = .fetched peer (some doc) g ∧ m.state.accepts peer.key ∧ k = peer.key ∧
      c = ⟨g, e, m.state.announced k⟩ ∧ r = ⟨peer, doc, g⟩ := by
  cases h.tableStep with
  | quiet hq => exact .inl ⟨c, by rwa [← hq.connections], rfl, rfl, id, by rwa [← hq.registered]⟩
  | call hc =>
    rw [registered_call] at hr
    rw [setCalls_state, perform_connections] at hl
    split at hl
    · cases hl
    · exact .inl ⟨c, hl, rfl, rfl, id, hr⟩
  | register ht hc hp ha hst hconns hcalls hev =>
    rename_i e t peer doc g
    rw [hst, State.register_connections] at hl
    split at hl
    · subst k
      cases hl
      simp only [registered, hconns, Function.update_self, Option.bind_some,
        Phase.registered, Option.some.injEq] at hr
      exact .inr ⟨e, t, peer, doc, g, rfl, ht, hp, ha, rfl, rfl, hr.symm⟩
    · have hne : c.task ≠ e := by
        rintro rfl
        have hk := ho.key_of_holder (holder_eq_some.mpr ⟨c, hl, rfl⟩)
        simp [connLeases, registered, ht, hp, Phase.registered] at hk
      exact .inl ⟨c, hl, rfl, rfl, id, by simpa [registered, hconns, hne] using hr⟩
  | announce ht hp hl₀ hg =>
    rename_i e t r₀ reply c₀
    have hr' : m.registered c.task = some r := by
      by_cases he : c.task = e
      · rw [he] at hr ⊢
        cases reply <;>
          simpa [registered, ht, hp, Phase.registered, ConnTask.replyOrSelect] using hr
      · simpa [registered, he] using hr
    rw [FinMap.lookup_insert_ite] at hl
    split at hl
    · subst k
      cases hl
      exact .inl ⟨c₀, hl₀, rfl, rfl, fun _ => rfl, hr'⟩
    · exact .inl ⟨c, hl, rfl, rfl, id, hr'⟩
  | finish ht hc hp =>
    rename_i e t r₀ b
    simp only [setCalls_state, setConn_state, setState_state,
      State.finishConnection_connections] at hl
    split at hl
    · cases hl
    · refine .inl ⟨c, hl, rfl, rfl, id, ?_⟩
      by_cases he : c.task = e
      · simp [registered, he, Phase.registered] at hr
      · simpa [registered, he] using hr

theorem ConnsOwned.step (ho : m.ConnsOwned) (hf : m.Fresh) (h : m.Step a m') :
    m'.ConnsOwned where
  exact := ho.exact_step hf h
  pending e hp hs := by
    have hp' : m.pending e = true := (h.connStep e).pending hp
    obtain hs | ⟨k, hk⟩ := h.stopped hs
    · exact ho.pending e hp' hs
    · simpa [connLeases, pending_registered hp'] using ho.exact.key_of_holder hk
  matched k c r hl hr := by
    obtain ⟨c₀, hl₀, -, hg, -, hr₀⟩ | ⟨_, _, _, _, _, -, -, -, -, -, rfl, rfl⟩ :=
      h.entry ho.exact hl hr
    · rw [ho.matched k c₀ r hl₀ hr₀, hg]
    · rfl

end Connections

end Manager

end Yoink
