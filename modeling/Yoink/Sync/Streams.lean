import Yoink.Sync.Handshake

/-!
# What a connection has read

`Listened` relates the phase of a task to the binary messages it has taken from its socket:
the peer's HELLO, and something after it once the `announced` local of `pump` is set.
`Heralded` relates that local to the registry entry.
-/

namespace Yoink

variable {D P : Type}

/-- The `announced` local of `pump`, while `run_connection` is between pump and teardown. -/
def Phase.announced : Phase P → Bool
  | .select _ a | .received _ a _ | .sendOrHangup _ a _ | .starting _ a _ | .sending _ a _
  | .closing _ a | .finishing _ a => a
  | _ => false

namespace Manager

/-- The binary messages taken from `e`. -/
def taken (e : EndId) (τ : History D P) : List (Option (Frame P)) := τ.filterMap (·.act.reads e)

theorem taken_concat (e : EndId) (τ : History D P) (t : Transition (Manager D P) (Action P)) :
    taken e (τ ++ [t]) = taken e τ ++ (t.act.reads e).toList := by
  simp only [taken, List.filterMap_append, List.filterMap_cons, List.filterMap_nil]
  cases t.act.reads e <;> rfl

/-- The HELLO of `peer` came first, and something after it exactly if `more`. -/
def Opened (peer : Hello) (more : Bool) (rs : List (Option (Frame P))) : Prop :=
  ∃ rest, rs = some (.hello peer) :: rest ∧ (more = true ↔ rest ≠ [])

/-- What a task at a given phase has read. -/
def Listened : Phase P → List (Option (Frame P)) → Prop
  | .helloSend, rs | .helloWait, rs => rs = []
  | .helloEcho peer, rs | .validated peer, rs | .fetched peer _ _, rs => Opened peer false rs
  | .ready r, rs | .step1Sending r, rs => Opened r.peer false rs
  | .select r a, rs | .sendOrHangup r a _, rs | .starting r a _, rs | .sending r a _, rs =>
    Opened r.peer a rs
  | .received r a payload, rs => ∃ rest, rs = rest ++ [payload] ∧ Opened r.peer a rest
  | .handled r _, rs => Opened r.peer true rs
  | .aborting, rs => rs.length ≤ 1
  | .closing _ _, _ | .finishing _ _, _ | .finished _, _ | .ended _, _ => True

theorem Opened.concat {peer : Hello} {more : Bool} {rs : List (Option (Frame P))}
    (h : Opened peer more rs) (payload : Option (Frame P)) :
    Opened peer true (rs ++ [payload]) := by
  obtain ⟨rest, rfl, -⟩ := h
  exact ⟨rest ++ [payload], rfl, by simp⟩

theorem Opened.two_le {peer : Hello} {rs : List (Option (Frame P))} (h : Opened peer true rs) :
    2 ≤ rs.length := by
  obtain ⟨rest, rfl, hm⟩ := h
  have := List.length_pos_of_ne_nil (hm.mp rfl)
  simp only [List.length_cons]
  omega

theorem Opened.mem {peer : Hello} {more : Bool} {rs : List (Option (Frame P))}
    (h : Opened peer more rs) : some (.hello peer) ∈ rs := by
  obtain ⟨rest, rfl, -⟩ := h
  exact List.mem_cons_self

theorem Opened.length_eq {peer : Hello} {rs : List (Option (Frame P))}
    (h : Opened peer false rs) : rs.length = 1 := by
  obtain ⟨rest, rfl, hm⟩ := h
  obtain rfl : rest = [] := by simpa using hm
  rfl

/-- A validated HELLO was the only message so far. -/
theorem Listened.validate {device : DeviceInfo} {scope : Option Scope} {peer : Hello}
    {rs : List (Option (Frame P))} (h : Opened peer false rs) :
    Listened (ConnTask.validate device scope peer) rs := by
  obtain ⟨-, hph⟩ | hph := ConnTask.validate_cases (P := P) device scope peer
  · rw [hph]
    exact h
  · rw [hph]
    exact h.length_eq.le

theorem Listened.local {device : DeviceInfo} {t t' : ConnTask P} {act : ConnTask.Act P}
    {rs : List (Option (Frame P))} (h : Listened t.phase rs) (hs : t.Local device act t') :
    Listened t'.phase (rs ++ act.reads.toList) := by
  cases hs with
  | activity => simpa [ConnTask.Act.reads] using h
  | @helloEchoed peer hp =>
    have h : Opened peer false rs := by simpa [Listened, hp] using h
    simpa [ConnTask.Act.reads] using Listened.validate h
  | helloAnswered hp =>
    obtain rfl : rs = [] := by simpa [Listened, hp] using h
    exact .validate ⟨[], rfl, by simp⟩
  | helloArrived hp =>
    obtain rfl : rs = [] := by simpa [Listened, hp] using h
    exact ⟨[], rfl, by simp⟩
  | helloFailed | leave | abortClosed | returned | step1Failed | closed => trivial
  | notHello hp =>
    obtain rfl : rs = [] := by simpa [Listened, hp] using h
    exact le_rfl
  | abort hp _ hr =>
    rw [hr, Option.toList_none, List.append_nil]
    obtain hp | ⟨peer, hp⟩ := hp
    · obtain rfl : rs = [] := by simpa [Listened, hp] using h
      exact Nat.zero_le 1
    · have h : Opened peer false rs := by simpa [Listened, hp] using h
      exact h.length_eq.le
  | @recvFrame r announced payload hp =>
    have h : Opened r.peer announced rs := by simpa [Listened, hp] using h
    exact ⟨rs, rfl, h⟩
  | helloSent hp | step1Sent hp | ping hp | dequeue hp | allowed hp | startSend hp | sent hp =>
    simpa [Listened, hp, ConnTask.Act.reads] using h

theorem Listened.reply {r : Registered} {rs : List (Option (Frame P))} (h : Opened r.peer true rs)
    (reply : Option (Frame P)) : Listened (ConnTask.replyOrSelect r reply) rs := by
  cases reply <;> exact h

section Steps

variable [Yrs D P] [DecidableEq P] {m m' : Manager D P} {a : Action P}

theorem Listened.step {e : EndId} {rs : List (Option (Frame P))} (hs : m.Step a m')
    (hnone : m.conns e = none → rs = []) (h : ∀ t, m.conns e = some t → Listened t.phase rs) :
    (m'.conns e = none → rs ++ (a.reads e).toList = []) ∧
      ∀ t', m'.conns e = some t' → Listened t'.phase (rs ++ (a.reads e).toList) := by
  have hc := hs.connStep e
  refine ⟨fun hgone => ?_, fun t' ht' => ?_⟩
  · rw [hgone] at hc
    generalize hm : m.conns e = o at hc
    cases hc with
    | idle hsilent => rw [hsilent.2, hnone hm, Option.toList_none, List.append_nil]
  rw [ht'] at hc
  generalize hm : m.conns e = o at hc
  cases hc with
  | idle hsilent =>
    rw [hsilent.2, Option.toList_none, List.append_nil]
    exact h t' hm
  | accepted | dialed =>
    rw [hnone hm]
    rfl
  | hungUp | queued =>
    simpa [Action.reads] using h _ hm
  | moved hc hl =>
    simpa [Action.reads] using (h _ hm).local hl
  | fetched hp | entered hp | step1 hp =>
    simpa [Listened, hp, Action.reads] using h _ hm
  | @refused t peer doc g hp =>
    have hr : Opened peer false rs := by simpa [Listened, hp] using h _ hm
    simpa [Listened, Action.reads] using hr.length_eq.le
  | rejected | unannounced | finished =>
    trivial
  | @handled t r announced payload m₁ reply hp hf =>
    obtain ⟨rest, rfl, hr⟩ : ∃ rest, rs = rest ++ [payload] ∧ Opened r.peer announced rest := by
      simpa [Listened, hp] using h _ hm
    have hr' := hr.concat payload
    simp only [Action.reads, Option.toList_none, List.append_nil]
    clear hf
    cases announced
    · exact hr'
    · exact .reply hr' reply
  | @announced t r reply c hp =>
    have hr : Opened r.peer true rs := by simpa [Listened, hp] using h _ hm
    simpa [Action.reads] using Listened.reply hr reply

/-- An entry whose task has set its `announced` local is announced. -/
def Heralded (m : Manager D P) : Prop :=
  ∀ k c t, m.state.connections.lookup k = some c → m.conns c.task = some t →
    t.phase.announced = true → c.announced = true

omit [DecidableEq P] in
/-- The local is set by `try_announce`, and kept. -/
theorem ConnStep.announcing {e : EndId} {o : Option (ConnTask P)} {t' : ConnTask P}
    (h : m.ConnStep e a o (some t')) (ha : t'.phase.announced = true) :
    (∃ t, o = some t ∧ t.phase.announced = true) ∨ a = .tryAnnounce e := by
  cases h with
  | idle | hungUp | queued => exact .inl ⟨_, rfl, ha⟩
  | accepted | dialed | fetched | refused | entered | step1 | finished => cases ha
  | announced | unannounced => exact .inr rfl
  | rejected hp => exact .inl ⟨_, rfl, by simpa [hp, Phase.announced, ConnTask.breakLoop] using ha⟩
  | @handled t r announced _ _ reply hp hf =>
    clear hf
    refine .inl ⟨t, rfl, ?_⟩
    cases announced
    · cases ha
    · simp [hp, Phase.announced]
  | @moved act t _ _ hs =>
    refine .inl ⟨t, rfl, ?_⟩
    cases hs with
    | activity => exact ha
    | helloSent | helloFailed | helloArrived | notHello | abort | abortClosed => cases ha
    | step1Sent | step1Failed | returned => cases ha
    | helloEchoed | helloAnswered =>
      obtain ⟨-, hph⟩ | hph := ConnTask.validate_cases (P := P) m.device t.dialedScope ‹Hello› <;>
        simp [hph, Phase.announced] at ha
    | leave hp =>
      obtain hp | ⟨_, hp | hp⟩ := hp <;>
        simpa [hp, Phase.announced, ConnTask.breakLoop] using ha
    | ping hp | dequeue hp | recvFrame hp | allowed hp | startSend hp | sent hp | closed hp =>
      simpa [hp, Phase.announced] using ha

theorem Heralded.step (h : m.Heralded) (ho : m.Owned) (ho' : m'.Owned) (hs : m.Step a m') :
    m'.Heralded := by
  intro k c t' hl ht' ha
  have hkey := ho'.conns.exact.key_of_holder (holder_eq_some.mpr ⟨c, hl, rfl⟩)
  obtain ⟨r, hr, -⟩ := Option.map_eq_some_iff.mp hkey
  have hstep := hs.connStep c.task
  rw [ht'] at hstep
  obtain ⟨c₀, hl₀, htask, -, hann, -⟩ | ⟨e, t, peer, doc, g, rfl, -, -, -, -, rfl, rfl⟩ :=
    hs.entry ho.conns.exact hl hr
  · obtain ⟨t, ht, hat⟩ | rfl := hstep.announcing ha
    · exact hann (h k c₀ t hl₀ (htask ▸ ht) hat)
    · -- The entry is the one that is announced: its task is the one at `try_announce`.
      obtain ⟨t, r₀, reply, ht, -, hp, rfl⟩ := hs.of_tryAnnounce
      obtain ⟨-, heq⟩ | ⟨c₁, -, -, heq⟩ := m.announce_cases c.task t r₀ reply
      · simp only [heq, setConn_conns, Function.update_self, Option.some.injEq] at ht'
        subst ht'
        cases ha
      · have hk := ho.conns.exact.key_of_holder (holder_eq_some.mpr ⟨c₀, hl₀, htask⟩)
        obtain rfl : r₀.key = k := by
          simpa [connLeases, registered, ht, hp, Phase.registered] using hk
        rw [heq] at hl
        rw [← Option.some.inj ((AList.lookup_insert _).symm.trans hl)]
  · obtain ⟨t₀, ht₀, hat⟩ | hact := hstep.announcing ha
    · obtain ⟨t, peer, doc, g, ht, -, hp, -⟩ := hs.of_register
      obtain rfl : t = t₀ := Option.some.inj (ht.symm.trans ht₀)
      simp [hp, Phase.announced] at hat
    · cases hact

end Steps

section Runs

variable [Yrs D P] [DecidableEq P] {device : DeviceInfo} {m : Manager D P} {τ : History D P}

theorem Run.listened (h : (system D P device).Run τ m) (e : EndId) :
    (m.conns e = none → taken e τ = []) ∧
      ∀ t, m.conns e = some t → Listened t.phase (taken e τ) := by
  refine h.history (I := fun τ m => (m.conns e = none → taken e τ = []) ∧
      ∀ t, m.conns e = some t → Listened t.phase (taken e τ)) ?_ fun τ m a m' hr hI hs => ?_
  · rintro m ⟨trust, rooms, rfl⟩
    exact ⟨fun _ => rfl, by simp [(new_bare device trust rooms).conns]⟩
  · rw [taken_concat]
    exact Listened.step (step_cases hs) hI.1 hI.2

theorem Reachable.heralded (h : (system D P device).Reachable m) : m.Heralded := by
  refine h.invariant (I := Heralded) ?_ fun m a m' hr hI hs => ?_
  · rintro m ⟨trust, rooms, rfl⟩ k c t hl
    simp [(new_bare device trust rooms).connections] at hl
  · exact hI.step (Reachable.owned hr) (Reachable.owned (hr.next hs)) (step_cases hs)

end Runs

end Manager

end Yoink
