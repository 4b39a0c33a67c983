import Yoink.Sync.Rooms
import Yoink.Core.GrowSet

/-!
# What ends a connection

Two triggers are to end a registered connection whatever its peer does: the manager's hangup
signal and the keepalive deadline. Only the select of the frame loop listens to both;
`send_or_hangup` listens to the signal alone, and the bare write of SYNC_STEP_1 to neither, so
a peer that stops reading holds the task there.
-/

namespace Yoink

variable {D P : Type}

/-- What is to end a connection from outside the exchange with its peer. -/
inductive Trigger where
  /-- The manager signalled the hangup. -/
  | hangup
  /-- `idle_timeout` has elapsed since the last inbound traffic. -/
  | idle
  deriving DecidableEq, Repr

/-- The acts with which a task answers a trigger. -/
def Trigger.answers : Trigger → ConnTask.Act P → Bool
  | .hangup, .hangupSignalled | .hangup, .sendRefused | .hangup, .sendHangup => true
  | .idle, .timeout => true
  | _, _ => false

theorem Trigger.answers_idle {act : ConnTask.Act P} (h : Trigger.idle.answers act = true) :
    act = .timeout := by
  cases act <;> first | rfl | cases h

/-- The phases between registration and teardown in which a task waits for something outside. -/
def Phase.suspended : Phase P → Bool
  | .step1Sending _ | .select _ _ | .sending _ _ _ => true
  | _ => false

/-- The phases in which a task may still have calls to make. -/
def Phase.calling : Phase P → Bool
  | .ready _ | .finished _ => true
  | _ => false

/-- An act that needs the socket of the task to take a write to its end. -/
def ConnTask.Act.written : ConnTask.Act P → Bool
  | .step1Sent _ | .sent _ => true
  | _ => false

namespace Manager

/-- A trigger fires for `e`. No clock is modelled: the deadline may have passed in any state. -/
def fire (m : Manager D P) (e : EndId) : Trigger → Manager D P
  | .hangup => m.signalHangup e
  | .idle => m

/-- Only a connection that has just registered or has finished makes calls. -/
def CallsPlaced (m : Manager D P) : Prop :=
  ∀ e, m.calls (.conn e) = [] ∨ ∃ t, m.conns e = some t ∧ t.phase.calling = true

variable [Yrs D P] [DecidableEq P]

/-- Once the trigger has fired, the task can leave for its teardown in answer to it. -/
def Exits (m : Manager D P) (e : EndId) (g : Trigger) : Prop :=
  ∃ act, g.answers act = true ∧ ∃ m', (m.fire e g).step (.conn e act) = some m' ∧
    ∃ t r a, m'.conns e = some t ∧ t.phase = .closing r a

section Calls

variable {m m' : Manager D P} {a : Action P}

omit [DecidableEq P] in
/-- A task with calls to make stays where it is. -/
theorem ConnStep.calling {e : EndId} {t : ConnTask P} {o' : Option (ConnTask P)}
    (h : m.ConnStep e a (some t) o') (hc : m.calls (.conn e) ≠ []) (ht : t.phase.calling = true) :
    ∃ t', o' = some t' ∧ t'.phase.calling = true := by
  cases h with
  | idle | hungUp | queued => exact ⟨_, rfl, ht⟩
  | moved hn | step1 _ hn => exact absurd hn hc
  | fetched hp | refused hp | entered hp | handled hp | rejected hp | announced hp
  | unannounced hp | finished hp => simp [hp, Phase.calling] at ht

theorem CallsPlaced.step (hp : m.CallsPlaced) (h : m.Step a m') : m'.CallsPlaced := by
  intro e
  by_cases ha : a.thread = some (.conn e)
  · cases a with
    | call t =>
      obtain rfl : t = .conn e := by simpa [Action.thread] using ha
      obtain ⟨c, cs, hc, rfl⟩ := h.of_call
      obtain hn | ⟨t, ht, hcall⟩ := hp e
      · simp [hc] at hn
      · exact .inr ⟨{ t with hangup := t.hangup || decide (c = .hangup e) },
          by simp [perform_conns, ht], hcall⟩
    | register e' =>
      obtain rfl : e' = e := by simpa [Action.thread] using ha
      obtain ⟨t, peer, doc, g, ht, hc, -, rfl⟩ := h.of_register
      obtain heq | ⟨d, -, -, heq⟩ := m.register_cases e' t peer doc g
      · exact .inl (by simpa [heq] using hc)
      · exact .inr ⟨{ t with phase := .ready ⟨peer, d, g⟩ }, by simp [heq], rfl⟩
    | finishConnection e' =>
      obtain rfl : e' = e := by simpa [Action.thread] using ha
      cases h with
      | @finishConnection _ t r b ht hc hp =>
        exact .inr ⟨{ t with phase := .finished b }, by simp, rfl⟩
      | dial _ hs | fan _ hs => cases hs
    | _ => simp [Action.thread] at ha
  · rw [h.calls_of_ne ha]
    obtain hn | ⟨t, ht, hcall⟩ := hp e
    · exact .inl hn
    · by_cases hn : m.calls (.conn e) = []
      · exact .inl hn
      · have hstep := h.connStep e
        rw [ht] at hstep
        exact .inr (hstep.calling hn hcall)

theorem Reachable.callsPlaced {device : DeviceInfo} (h : (system D P device).Reachable m) :
    m.CallsPlaced := by
  refine h.invariant (I := CallsPlaced) ?_ fun m a m' _ hI hs => hI.step (step_cases hs)
  rintro m ⟨trust, rooms, rfl⟩ e
  exact .inl (by simp [(new_bare device trust rooms).calls])

/-- A suspended connection has no call left to make. -/
theorem Reachable.runnable {device : DeviceInfo} (h : (system D P device).Reachable m)
    {e : EndId} {t : ConnTask P} (ht : m.conns e = some t) (hs : t.phase.suspended = true) :
    m.calls (.conn e) = [] := by
  obtain hn | ⟨t', ht', hc⟩ := Reachable.callsPlaced h e
  · exact hn
  · rw [ht] at ht'
    cases ht'
    cases hp : t.phase <;> simp_all [Phase.suspended, Phase.calling]

end Calls

section Triggers

variable {m : Manager D P} {e : EndId} {t : ConnTask P}

omit [Yrs D P] [DecidableEq P] in
theorem fire_runnable (hc : m.calls (.conn e) = []) (ht : m.conns e = some t) (g : Trigger) :
    (m.fire e g).runnable e = some { t with hangup := t.hangup || decide (g = .hangup) } ∧
      (m.fire e g).device = m.device := by
  cases g <;> simp [fire, runnable, signalHangup_eq, hc, ht]

/-- Leaving in answer to a trigger is a move of the task alone. -/
theorem exits_iff (hc : m.calls (.conn e) = []) (ht : m.conns e = some t) (g : Trigger) :
    m.Exits e g ↔ ∃ act t' r a, g.answers act = true ∧
      ({ t with hangup := t.hangup || decide (g = .hangup) } : ConnTask P).step m.device act =
        some t' ∧ t'.phase = .closing r a := by
  obtain ⟨hr, hd⟩ := fire_runnable hc ht g
  constructor
  · rintro ⟨act, ha, m', hm, t', r, a, ht', hp⟩
    simp only [step, hr, hd] at hm
    obtain ⟨t₁, hs, rfl⟩ := Option.map_eq_some_iff.mp hm
    obtain rfl : t₁ = t' := by simpa using ht'
    exact ⟨act, t₁, r, a, ha, hs, hp⟩
  · rintro ⟨act, t', r, a, ha, hs, hp⟩
    refine ⟨act, ha, (m.fire e g).setConn e t', ?_, t', r, a, by simp, hp⟩
    simp [step, hr, hd, hs]

variable {device : DeviceInfo}

/-- The hangup signal ends a suspended connection unless it is writing its SYNC_STEP_1. -/
theorem exits_hangup_iff (h : (system D P device).Reachable m) (ht : m.conns e = some t)
    (hs : t.phase.suspended = true) :
    m.Exits e .hangup ↔ ∀ r, t.phase ≠ .step1Sending r := by
  rw [exits_iff (Reachable.runnable h ht hs) ht]
  cases hp : t.phase with
  | step1Sending r =>
    refine iff_of_false ?_ fun hn => hn r rfl
    rintro ⟨act, t', r', a, ha, hst, -⟩
    cases act <;> simp [Trigger.answers] at ha <;> simp [ConnTask.step] at hst
  | select r a =>
    exact iff_of_true
      ⟨.hangupSignalled, _, r, a, rfl, by simp [ConnTask.step]; rfl, rfl⟩ (by simp)
  | sending r a f =>
    exact iff_of_true ⟨.sendHangup, _, r, a, rfl, by simp [ConnTask.step]; rfl, rfl⟩ (by simp)
  | _ => simp [hp, Phase.suspended] at hs

/-- The keepalive deadline ends a suspended connection only out of the select. -/
theorem exits_idle_iff (h : (system D P device).Reachable m) (ht : m.conns e = some t)
    (hs : t.phase.suspended = true) :
    m.Exits e .idle ↔ ∃ r a, t.phase = .select r a := by
  rw [exits_iff (Reachable.runnable h ht hs) ht]
  cases hp : t.phase with
  | select r a =>
    exact iff_of_true ⟨.timeout, _, r, a, rfl, by simp [ConnTask.step]; rfl, rfl⟩ ⟨r, a, rfl⟩
  | step1Sending | sending =>
    refine iff_of_false ?_ (by simp)
    rintro ⟨act, t', r', a, ha, hst, -⟩
    obtain rfl := Trigger.answers_idle ha
    simp [ConnTask.step] at hst
  | _ => simp [hp, Phase.suspended] at hs

/-- Either trigger can end a suspended connection exactly while it waits in the select. -/
theorem teardown_possible_iff (h : (system D P device).Reachable m) (ht : m.conns e = some t)
    (hs : t.phase.suspended = true) :
    (∀ g, m.Exits e g) ↔ ∃ r a, t.phase = .select r a := by
  constructor
  · intro hall
    exact (exits_idle_iff h ht hs).mp (hall .idle)
  · rintro ⟨r, a, hp⟩ g
    cases g with
    | hangup => exact (exits_hangup_iff h ht hs).mpr (by simp [hp])
    | idle => exact (exits_idle_iff h ht hs).mpr ⟨r, a, hp⟩

end Triggers

section Stuck

/-- The socket of `e` takes no more bytes: no write on it comes to an end. -/
def Withheld (e : EndId) : Action P → Prop
  | .conn e' act => e' = e → act.written = false
  | _ => True

variable {device : DeviceInfo} {m m' : Manager D P} {e : EndId} {t : ConnTask P}
  {r : Registered}

/-- Nothing moves a task on that writes its SYNC_STEP_1 into a socket that takes no bytes. -/
theorem step1_stuck (ht : m.conns e = some t) (hp : t.phase = .step1Sending r)
    (h : (((system D P device).startingAt m).restrict fun _ a _ => Withheld e a).Reachable m') :
    ∃ t', m'.conns e = some t' ∧ t'.phase = .step1Sending r := by
  refine h.invariant (I := fun m' => ∃ t', m'.conns e = some t' ∧ t'.phase = .step1Sending r) ?_
    fun m₁ a m₂ _ hI hs => ?_
  · rintro m rfl
    exact ⟨t, ht, hp⟩
  · obtain ⟨t₁, ht₁, hp₁⟩ := hI
    have hstep := (step_cases hs.1).connStep e
    have hw := hs.2
    rw [ht₁] at hstep
    generalize m₂.conns e = o at hstep ⊢
    cases hstep with
    | idle | hungUp | queued => exact ⟨_, rfl, hp₁⟩
    | moved _ hl =>
      have hw : ConnTask.Act.written _ = false := hw rfl
      cases hl with
      | activity => exact ⟨_, rfl, hp₁⟩
      | step1Sent | step1Failed => cases hw
      | abort h => obtain h | ⟨_, h⟩ := h <;> simp [hp₁] at h
      | leave h => obtain h | ⟨_, h | h⟩ := h <;> simp [hp₁] at h
      | _ h => simp [hp₁] at h
    | fetched h | refused h | entered h | step1 h | handled h | rejected h | announced h
    | unannounced h | finished h => simp [hp₁] at h

/-- A write that nobody gives up goes on to its end. -/
theorem step_sending {act : ConnTask.Act P} {b : Bool}
    {f : Option (Frame P)} (h : m.step (.conn e act) = some m') (ht : m.conns e = some t)
    (hp : t.phase = .sending r b f) (hh : t.hangup = false) : act.written = true := by
  simp only [step] at h
  split at h
  · obtain ⟨-, ht'⟩ := runnable_eq_some.mp ‹_›
    rw [ht] at ht'
    cases ht'
    obtain ⟨t', hs, -⟩ := Option.map_eq_some_iff.mp h
    cases act <;> simp [ConnTask.step, hp, hh] at hs
    rfl
  · cases h

/-- A frame written into such a socket holds the task until a hangup is signalled, however long
the peer has been silent. -/
theorem write_stuck {b : Bool} {f : Option (Frame P)} (ht : m.conns e = some t)
    (hp : t.phase = .sending r b f) (hh : t.hangup = false)
    (h : (((system D P device).startingAt m).restrict fun m a _ => Withheld e a ∧
      ∀ i cs, a = .call i → m.calls i ≠ .hangup e :: cs).Reachable m') :
    ∃ t', m'.conns e = some t' ∧ t'.phase = .sending r b f ∧ t'.hangup = false := by
  refine h.invariant (I := fun m' => ∃ t', m'.conns e = some t' ∧ t'.phase = .sending r b f ∧
    t'.hangup = false) ?_ fun m₁ a m₂ _ hI hs => ?_
  · rintro m rfl
    exact ⟨t, ht, hp, hh⟩
  · obtain ⟨t₁, ht₁, hp₁, hh₁⟩ := hI
    have hstep := (step_cases hs.1).connStep e
    obtain ⟨hw, hcall⟩ := hs.2
    rw [ht₁] at hstep
    generalize m₂.conns e = o at hstep ⊢
    cases hstep with
    | idle | queued => exact ⟨_, rfl, hp₁, hh₁⟩
    | hungUp hc => exact absurd hc (hcall _ _ rfl)
    | moved =>
      have hact := step_sending hs.1 ht₁ hp₁ hh₁
      rw [hw rfl] at hact
      cases hact
    | fetched h | refused h | entered h | step1 h | handled h | rejected h | announced h
    | unannounced h | finished h => simp [hp₁] at h

end Stuck

section Runs

/-- "b" connects and reads no further: the connection has started to write its SYNC_STEP_1. -/
def connecting (e : EndId) : List (Action GrowSet) :=
  [.handleInbound e, .conn e (.recv (.frame (some (.hello ⟨"b", "B", 2, .devices⟩)))),
    .conn e (.sendHello ⟨"a", "A", 2, .devices⟩), .fetchDoc e, .register e, .sendStep1 e ∅]

/-- "b" is distrusted while the connection writes its SYNC_STEP_1. The hangup is signalled, and yet
neither trigger ends the task; as long as "b" reads nothing, no step at all does. -/
theorem step1_ignores_triggers :
    ∃ (m : Manager GrowSet GrowSet) (e : EndId) (t : ConnTask GrowSet),
      (system GrowSet GrowSet ⟨"a", "A"⟩).Reachable m ∧ m.conns e = some t ∧
        t.phase.suspended = true ∧ t.hangup = true ∧ (∀ g, ¬ m.Exits e g) ∧
        ∀ m', (((system GrowSet GrowSet ⟨"a", "A"⟩).startingAt m).restrict
          fun _ a _ => Withheld e a).Reachable m' →
            ∃ t', m'.conns e = some t' ∧ t'.phase = t.phase := by
  let e : EndId := ⟨0, false⟩
  let start : Manager GrowSet GrowSet := .new ⟨"a", "A"⟩ ⟨false, ∅, ∅⟩ []
  let acts : List (Action GrowSet) := connecting e ++
    [.invoke 0 (.setTrusted "b" false), .call (.caller 0), .call (.caller 0)]
  let r : Registered := ⟨⟨"b", "B", 2, .devices⟩, 0, 0⟩
  obtain ⟨m, hm, ht⟩ := System.exists_of_exec
    (show (System.exec Manager.step start acts).any (fun m =>
      decide (m.conns e = some ⟨none, none, .step1Sending r, [], true, true⟩)) = true
      by decide +kernel)
  rw [decide_eq_true_eq] at ht
  have hr := (run_of_exec hm).reachable
  refine ⟨m, e, _, hr, ht, rfl, rfl, fun g => ?_, fun m' h => step1_stuck ht rfl h⟩
  cases g with
  | hangup =>
    rw [exits_hangup_iff hr ht rfl]
    exact fun hn => hn r rfl
  | idle =>
    rw [exits_idle_iff hr ht rfl]
    simp

/-- The same connection, once the write has come to its end. -/
theorem teardown_possible_selecting :
    ∃ (m : Manager GrowSet GrowSet) (e : EndId), ∀ g, m.Exits e g := by
  let e : EndId := ⟨0, false⟩
  let start : Manager GrowSet GrowSet := .new ⟨"a", "A"⟩ ⟨false, ∅, ∅⟩ []
  let acts : List (Action GrowSet) := connecting e ++ [.conn e (.step1Sent true)]
  let r : Registered := ⟨⟨"b", "B", 2, .devices⟩, 0, 0⟩
  obtain ⟨m, hm, ht⟩ := System.exists_of_exec
    (show (System.exec Manager.step start acts).any (fun m =>
      decide (m.conns e = some ⟨none, none, .select r false, [], true, false⟩)) = true
      by decide +kernel)
  rw [decide_eq_true_eq] at ht
  exact ⟨m, e, (teardown_possible_iff (run_of_exec hm).reachable ht rfl).mpr ⟨r, false, rfl⟩⟩

end Runs

end Manager

end Yoink
