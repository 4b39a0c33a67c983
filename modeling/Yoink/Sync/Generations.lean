import Yoink.Sync.Loops

/-!
# Construction and generations

What a new manager has, and that the shared counter never hands a generation out twice:
a generation identifies one connection task or one dial loop.
-/

namespace Yoink

variable {D P : Type}

namespace Manager

/-- The generation the task of `e` holds. -/
def connGeneration (m : Manager D P) (e : EndId) : Option Nat :=
  (m.conns e).bind (·.phase.generation)

/-- Generations and loop ids are handed out once. -/
structure Fresh (m : Manager D P) : Prop where
  conn : ∀ e g, m.connGeneration e = some g → g < m.generation
  conn_inj : ∀ e e' g, m.connGeneration e = some g → m.connGeneration e' = some g → e = e'
  loop : ∀ i l, m.loops i = some l → l.generation < m.generation ∧ i < m.spawned
  loop_inj : ∀ i i' l l', m.loops i = some l → m.loops i' = some l' →
    l.generation = l'.generation → i = i'

section Construction

variable [Yrs D P]

/-- Whatever the bare manager has and opening a room keeps, a new manager has. -/
theorem new_induction {I : Manager D P → Prop} {device : DeviceInfo} {trust : TrustSettings}
    {rooms : List String}
    (base : I ((initial device trust : Manager D P).spawnFanOut .devices 0))
    (join : ∀ m name, I m → I (joinRoom m name).1) : I (.new device trust rooms) := by
  unfold Manager.new
  generalize (initial device trust : Manager D P).spawnFanOut .devices 0 = m at base
  induction rooms generalizing m with
  | nil => exact base
  | cons name rooms ih => exact ih _ (join m name base)

/-- A new manager: its fan-outs, and nothing else. -/
structure Bare (m : Manager D P) : Prop where
  connections : m.state.connections = ∅
  dialers : m.state.dialers = ∅
  peers : m.state.peers = ∅
  events : m.events = []
  calls : m.calls = fun _ => []
  conns : m.conns = fun _ => none
  loops : m.loops = fun _ => none
  generation : m.generation = 0
  admitted : m.state.Admitted m.device.id

theorem new_bare (device : DeviceInfo) (trust : TrustSettings) (rooms : List String) :
    (Manager.new device trust rooms : Manager D P).Bare := by
  refine new_induction ⟨rfl, rfl, rfl, rfl, rfl, rfl, rfl, rfl, ?_⟩ fun m name h => ?_
  · refine ⟨fun k hk => ?_, fun k hk => ?_, fun d p hp => ?_, fun scope => ?_⟩
    · simp [spawnFanOut, initial] at hk
    · simp [spawnFanOut, initial] at hk
    · simp [spawnFanOut, initial] at hp
    · simp only [spawnFanOut, FinMap.lookup_insert_ite]
      cases scope <;> simp [initial, State.Synced]
  · obtain heq | ⟨-, -, heq, -⟩ := m.joinRoom_cases name
    · rwa [heq]
    · rw [heq]
      exact ⟨h.connections, h.dialers, h.peers, h.events, h.calls, h.conns, h.loops, h.generation,
        h.admitted.joinRoom name m.spawned⟩

/-- Fan-outs that have just been spawned, one for each handle. -/
structure FansNew (m : Manager D P) : Prop where
  spawned : ∀ i f, m.fans i = some f → ∃ s d, f = .spawn s d
  held : ∀ s i, m.state.fanOuts.lookup s = some i →
    i < m.spawned ∧ ∃ d, m.fans i = some (.spawn s d)

theorem new_fans (device : DeviceInfo) (trust : TrustSettings) (rooms : List String) :
    (Manager.new device trust rooms : Manager D P).FansNew := by
  refine new_induction ⟨fun i f hf => ?_, fun s i hi => ?_⟩ fun m name h => ?_
  · simp only [spawnFanOut, setFan, initial, Function.update_apply] at hf
    split at hf <;> cases hf
    exact ⟨_, _, rfl⟩
  · simp only [spawnFanOut, initial, FinMap.lookup_insert_ite] at hi
    split at hi <;> cases hi
    subst s
    exact ⟨Nat.zero_lt_one, 0, rfl⟩
  · obtain heq | ⟨-, -, heq, -⟩ := m.joinRoom_cases name
    · rwa [heq]
    rw [heq]
    refine ⟨fun i f hf => ?_, fun s i hi => ?_⟩
    · simp only [Function.update_apply] at hf
      split at hf
      · cases hf
        exact ⟨_, _, rfl⟩
      · exact h.spawned i f hf
    · simp only [FinMap.lookup_insert_ite] at hi
      split at hi
      · cases hi
        subst s
        exact ⟨Nat.lt_succ_self _, _, Function.update_self ..⟩
      · obtain ⟨hlt, d, hd⟩ := h.held s i hi
        exact ⟨Nat.lt_succ_of_lt hlt, d, (Function.update_of_ne (Nat.ne_of_lt hlt) _ _).trans hd⟩

end Construction

section Generations

variable [Yrs D P] [DecidableEq P] {m m' : Manager D P} {a : Action P}

omit [DecidableEq P] in
/-- A task gets a generation when it fetches its document, and keeps it until it is done. -/
theorem ConnStep.generation {e : EndId} {o o' : Option (ConnTask P)} (h : m.ConnStep e a o o') :
    o'.bind (·.phase.generation) = o.bind (·.phase.generation) ∨
      o'.bind (·.phase.generation) = none ∨
      (a = .fetchDoc e ∧ o'.bind (·.phase.generation) = some m.generation) := by
  cases h with
  | idle | hungUp | queued => exact .inl rfl
  | moved hc hs => exact .inl hs.generation
  | fetched => exact .inr (.inr ⟨rfl, rfl⟩)
  | accepted | dialed | refused | finished => exact .inr (.inl rfl)
  | @handled _ _ announced _ _ reply hp hf =>
    clear hf
    cases announced <;> cases reply <;>
      simp [hp, Phase.generation, Phase.registered, ConnTask.replyOrSelect]
  | @announced _ _ reply _ hp =>
    cases reply <;> simp [hp, Phase.generation, Phase.registered, ConnTask.replyOrSelect]
  | entered hp | step1 hp | rejected hp | unannounced hp =>
    simp [hp, Phase.generation, Phase.registered, ConnTask.breakLoop]

/-- The device stays, and the counters only grow. -/
theorem Step.advance (h : m.Step a m') :
    m'.device = m.device ∧ m.generation ≤ m'.generation ∧ m.spawned ≤ m'.spawned := by
  cases h with
  | call hc =>
    rename_i t c cs
    refine ⟨m.perform_device c, ?_, m.spawned_le_perform c⟩
    by_cases hn : ∀ d s n, c ≠ .maybeSpawnDialer d s n
    · simp [perform_generation m hn]
    · push Not at hn
      obtain ⟨d, s, n, rfl⟩ := hn
      obtain h | ⟨-, -, h⟩ := m.maybeSpawnDialer_cases d s n <;> simp [perform, h]
  | fetchDoc => simp
  | register =>
    rename_i e t peer doc g _ _ _
    obtain h | ⟨d, -, -, h⟩ := m.register_cases e t peer doc g <;> simp [h]
  | handleFrame =>
    rename_i e t r a payload _ _ _
    obtain ⟨-, h⟩ | ⟨m₁, reply, hf, h⟩ := m.handle_cases e t r a payload
    · simp [h]
    · obtain ⟨docs, fans, rfl⟩ := handleFrame_eq hf
      simp [h]
  | tryAnnounce =>
    rename_i e t r reply _ _ _
    obtain ⟨-, h⟩ | ⟨c, -, -, h⟩ := m.announce_cases e t r reply <;> simp [h]
  | fanPush =>
    rename_i i f frame target rest lag _ _ _
    obtain h | ⟨t, -, -, -, h⟩ | ⟨t, -, -, h⟩ := m.trySend_cases i frame target <;> simp [h]
  | _ => simp

theorem Step.device (h : m.Step a m') : m'.device = m.device := h.advance.1

theorem Step.generation_le (h : m.Step a m') : m.generation ≤ m'.generation := h.advance.2.1

theorem Step.spawned_le (h : m.Step a m') : m.spawned ≤ m'.spawned := h.advance.2.2

/-- Where the dial loops after a step come from. -/
theorem Step.loops (h : m.Step a m') (i : TaskId) {l' : DialLoop} (hl' : m'.loops i = some l') :
    (∃ l, m.loops i = some l ∧ l'.generation = l.generation) ∨
      (i = m.spawned ∧ l'.generation = m.generation ∧ m'.generation = m.generation + 1 ∧
        m'.spawned = m.spawned + 1) := by
  have hstep := h.loopStep i
  rw [hl'] at hstep
  generalize m.loops i = o at hstep ⊢
  cases hstep with
  | idle => exact .inl ⟨l', rfl, rfl⟩
  | moved hs => exact .inl ⟨_, rfl, hs.same.2⟩
  | cancelled | removed | connected => exact .inl ⟨_, rfl, rfl⟩
  | spawned hi hc ho hw =>
    obtain ⟨c, cs, hc', rfl⟩ := h.of_call
    rw [hc] at hc'
    cases hc'
    refine .inr ⟨hi, rfl, ?_, ?_⟩ <;> simp [perform, maybeSpawnDialer, not_le.mpr ho, hw]

theorem Fresh.step (hf : m.Fresh) (h : m.Step a m') : m'.Fresh := by
  -- Only `fetchDoc` hands a connection its generation.
  have hconn : ∀ e g, m'.connGeneration e = some g →
      m.connGeneration e = some g ∨
        (a = .fetchDoc e ∧ g = m.generation ∧ m'.generation = m.generation + 1) := by
    intro e g hg
    obtain h' | h' | ⟨rfl, h'⟩ := (h.connStep e).generation
    · exact .inl (by rwa [connGeneration, ← h'])
    · rw [connGeneration, h'] at hg
      cases hg
    · have hgen : m'.generation = m.generation + 1 := by
        cases h with
        | fetchDoc => rfl
        | dial _ hs | fan _ hs => cases hs
      refine .inr ⟨rfl, ?_, hgen⟩
      rw [connGeneration, h'] at hg
      exact (Option.some.inj hg).symm
  have hle := h.generation_le
  constructor
  · intro e g hg
    obtain h | ⟨-, rfl, h⟩ := hconn e g hg
    · exact lt_of_lt_of_le (hf.conn e g h) hle
    · omega
  · intro e e' g hg hg'
    obtain h | ⟨ha, hm, -⟩ := hconn e g hg <;> obtain h' | ⟨ha', hm', -⟩ := hconn e' g hg'
    · exact hf.conn_inj e e' g h h'
    · have := hf.conn e g h; omega
    · have := hf.conn e' g h'; omega
    · subst ha
      cases ha'
      rfl
  · intro i l hl
    have hsp := h.spawned_le
    obtain ⟨l₀, hl₀, hg⟩ | ⟨rfl, hg, hgen, hsp⟩ := h.loops i hl
    · obtain ⟨h1, h2⟩ := hf.loop i l₀ hl₀
      exact ⟨by omega, lt_of_lt_of_le h2 hsp⟩
    · exact ⟨by omega, hsp ▸ Nat.lt_succ_self _⟩
  · intro i i' l l' hl hl' heq
    obtain ⟨l₀, hl₀, hg⟩ | ⟨rfl, hg, -, -⟩ := h.loops i hl <;>
      obtain ⟨l₁, hl₁, hg'⟩ | ⟨rfl, hg', -, -⟩ := h.loops i' hl'
    · exact hf.loop_inj i i' l₀ l₁ hl₀ hl₁ (by omega)
    · have := hf.loop i l₀ hl₀; omega
    · have := hf.loop i' l₁ hl₁; omega
    · rfl

end Generations

end Manager

end Yoink
