import Yoink.Sync.Views

/-!
# Steps as one dial loop sees them

`LoopStep` says what a step may do to one given dial loop.
-/

namespace Yoink

variable {D P : Type}

/-- A loop that moves keeps its pair and its generation. -/
theorem DialLoop.Local.same {m : Manager D P} {i : TaskId} {a : Action P} {l l' : DialLoop}
    (h : l.Local m i a l') : l'.key = l.key ∧ l'.generation = l.generation := by
  cases h with
  | @redial _ _ outcome => cases outcome <;> exact ⟨rfl, rfl⟩
  | _ => exact ⟨rfl, rfl⟩

namespace Manager

variable [Yrs D P] [DecidableEq P]

/-- What a step may do to dial loop `i`. -/
inductive LoopStep (m : Manager D P) (i : TaskId) :
    Action P → Option DialLoop → Option DialLoop → Prop where
  | idle {a : Action P} {o : Option DialLoop} : LoopStep m i a o o
  | cancelled {a : Action P} {l : DialLoop} :
      LoopStep m i a (some l) (some { l with cancelled := true })
  | spawned {t : ThreadId} {peerId : DeviceId} {scope : Scope} {delay : Nat} {cs : List Call}
      {o : Option DialLoop} (hi : i = m.spawned)
      (hc : m.calls t = .maybeSpawnDialer peerId scope delay :: cs) (ho : m.device.id < peerId)
      (hw : m.state.wantsDialer peerId scope) :
      LoopStep m i (.call t) o (some (.spawn peerId scope m.generation delay))
  | moved {a : Action P} {l l' : DialLoop} (hs : l.Local m i a l') :
      LoopStep m i a (some l) (some l')
  | removed {l : DialLoop} (hp : l.phase = .targetless) :
      LoopStep m i (.removeDialerEntry i) (some l) (some { l with phase := .returned })
  | connected {e : EndId} {l : DialLoop} (hp : l.phase = .connecting) (hd : e.dialed = true)
      (hn : m.conns e = none) :
      LoopStep m i (.connected i e) (some l) (some { l with phase := .running e })

omit [Yrs D P] [DecidableEq P] in
theorem LoopStep.of_update {m : Manager D P} {i i₀ : TaskId} {a : Action P} {l : DialLoop}
    {o : Option DialLoop} (hm : m.loops i₀ = o) (h : m.LoopStep i₀ a o (some l)) :
    m.LoopStep i a (m.loops i) (Function.update m.loops i₀ (some l) i) := by
  by_cases hi : i = i₀
  · subst hi
    simpa [hm] using h
  · rw [Function.update_of_ne hi]
    exact .idle

omit [Yrs D P] [DecidableEq P] in
/-- Some loops are cancelled. -/
theorem LoopStep.of_flags {m : Manager D P} {i : TaskId} {a : Action P} (p : Bool) :
    m.LoopStep i a (m.loops i)
      ((m.loops i).map fun l => { l with cancelled := l.cancelled || p }) := by
  cases m.loops i with
  | none => exact .idle
  | some l =>
    cases p with
    | true => simpa using LoopStep.cancelled
    | false => simpa using LoopStep.idle

theorem Step.loopStep {m m' : Manager D P} {a : Action P} (h : m.Step a m') (i : TaskId) :
    m.LoopStep i a (m.loops i) (m'.loops i) := by
  cases h with
  | call hc =>
    rename_i t c cs
    by_cases hn : ∀ d s n, c ≠ .maybeSpawnDialer d s n
    · rw [setCalls_loops, perform_loops m hn]
      exact .of_flags _
    · push Not at hn
      obtain ⟨d, s, n, rfl⟩ := hn
      obtain h | ⟨ho, hw, h⟩ := m.maybeSpawnDialer_cases d s n
      · simp only [perform, h]
        exact .idle
      · simp only [perform, h]
        exact .of_update rfl (.spawned rfl hc ho hw)
  | register =>
    rename_i e t peer doc g _ _ _
    obtain h | ⟨d, -, -, h⟩ := m.register_cases e t peer doc g
    · rw [h]
      exact .idle
    · rw [h]
      exact .of_flags _
  | handleFrame =>
    rename_i e t r a payload _ _ _
    obtain ⟨-, h⟩ | ⟨m₁, reply, hf, h⟩ := m.handle_cases e t r a payload
    · rw [h]
      exact .idle
    · obtain ⟨docs, fans, rfl⟩ := handleFrame_eq hf
      rw [h]
      exact .idle
  | tryAnnounce =>
    rename_i e t r reply _ _ _
    obtain ⟨-, h⟩ | ⟨c, -, -, h⟩ := m.announce_cases e t r reply <;> (rw [h]; exact .idle)
  | fanPush =>
    rename_i i f frame target rest lag _ _ _
    obtain h | ⟨t, -, -, -, h⟩ | ⟨t, -, -, h⟩ := m.trySend_cases i frame target <;>
      (rw [h]; exact .idle)
  | dial hl hs => exact .of_update hl (.moved hs)
  | removeDialerEntry hl hp => exact .of_update hl (.removed hp)
  | connected hl hp hd hn => exact .of_update hl (.connected hp hd hn)
  | _ => exact .idle

end Manager

end Yoink
