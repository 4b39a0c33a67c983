import Yoink.Sync.Manager

/-!
# What a step can do

`ConnTask.Local` and `Manager.Step` list the steps once, with their guards; every later
induction over a run splits on them. Steps that differ only in ways no invariant of the
registry reads are one case.
-/

namespace Yoink

variable {D P : Type}

/-- The local steps of a connection task. -/
inductive ConnTask.Local (device : DeviceInfo) :
    ConnTask P → ConnTask.Act P → ConnTask P → Prop where
  | helloSent {t : ConnTask P} {scope : Scope} (hp : t.phase = .helloSend)
      (hs : t.dialedScope = some scope) :
      Local device t (.sendHello (helloFrame device scope)) { t with phase := .helloWait }
  | helloFailed {t : ConnTask P} (hp : t.phase = .helloSend) :
      Local device t .sendHelloFailed { t with phase := .ended .failed, rxOpen := false }
  | helloEchoed {t : ConnTask P} {peer : Hello} (hp : t.phase = .helloEcho peer) :
      Local device t (.sendHello (helloFrame device peer.scope))
        { t with phase := validate device t.dialedScope peer }
  | helloAnswered {t : ConnTask P} {peer : Hello} (hp : t.phase = .helloWait)
      (hs : t.dialedScope.isSome) :
      Local device t (.recv (.frame (some (.hello peer))))
        { t with phase := validate device t.dialedScope peer }
  | helloArrived {t : ConnTask P} {peer : Hello} (hp : t.phase = .helloWait)
      (hs : t.dialedScope = none) :
      Local device t (.recv (.frame (some (.hello peer)))) { t with phase := .helloEcho peer }
  | notHello {t : ConnTask P} {payload : Option (Frame P)} (hp : t.phase = .helloWait) :
      Local device t (.recv (.frame payload)) { t with phase := .aborting }
  | abort {t : ConnTask P} {act : ConnTask.Act P}
      (hp : t.phase = .helloWait ∨ ∃ peer, t.phase = .helloEcho peer)
      (hs : act.sends = none) (hr : act.reads = none) (hn : ∀ f, act ≠ .startSend f) :
      Local device t act { t with phase := .aborting }
  | activity {t : ConnTask P} : Local device t (.recv .activity) t
  | step1Sent {t : ConnTask P} {r : Registered} (hp : t.phase = .step1Sending r) :
      Local device t (.step1Sent true) { t with phase := .select r false }
  | step1Failed {t : ConnTask P} {r : Registered} (hp : t.phase = .step1Sending r) :
      Local device t (.step1Sent false) { t with phase := .closing r false }
  | leave {t : ConnTask P} {act : ConnTask.Act P} {r : Registered} {a : Bool}
      (hp : t.phase = .select r a ∨ ∃ f, t.phase = .sendOrHangup r a f ∨ t.phase = .sending r a f)
      (hs : act.sends = none) (hr : act.reads = none) (hn : ∀ f, act ≠ .startSend f) :
      Local device t act (t.breakLoop r a)
  | ping {t : ConnTask P} {r : Registered} {a : Bool} (hp : t.phase = .select r a) :
      Local device t .pingTick { t with phase := .sendOrHangup r a none }
  | dequeue {t : ConnTask P} {r : Registered} {a : Bool} {f : Frame P} {rest : List (Frame P)}
      (hp : t.phase = .select r a) (hq : t.outbound = f :: rest) :
      Local device t (.dequeue f) { t with phase := .sendOrHangup r a (some f), outbound := rest }
  | recvFrame {t : ConnTask P} {r : Registered} {a : Bool} {payload : Option (Frame P)}
      (hp : t.phase = .select r a) :
      Local device t (.recv (.frame payload)) { t with phase := .received r a payload }
  | allowed {t : ConnTask P} {r : Registered} {a : Bool} {f : Option (Frame P)}
      (hp : t.phase = .sendOrHangup r a f) (hh : t.hangup = false) :
      Local device t .sendAllowed { t with phase := .starting r a f }
  | startSend {t : ConnTask P} {r : Registered} {a : Bool} {f : Option (Frame P)}
      (hp : t.phase = .starting r a f) :
      Local device t (.startSend f) { t with phase := .sending r a f }
  | sent {t : ConnTask P} {r : Registered} {a : Bool} {f : Option (Frame P)}
      (hp : t.phase = .sending r a f) : Local device t (.sent true) { t with phase := .select r a }
  | abortClosed {t : ConnTask P} (hp : t.phase = .aborting) :
      Local device t .closed { t with phase := .ended .failed, rxOpen := false }
  | closed {t : ConnTask P} {r : Registered} {a : Bool} (hp : t.phase = .closing r a) :
      Local device t .closed { t with phase := .finishing r a }
  | returned {t : ConnTask P} {a : Bool} (hp : t.phase = .finished a) :
      Local device t .returned
        { t with phase := .ended (if a then .established else .failed), rxOpen := false }

theorem ConnTask.step_local [DecidableEq P] {device : DeviceInfo} {t t' : ConnTask P}
    {act : ConnTask.Act P} (h : t.step device act = some t') : Local device t act t' := by
  cases act with
  | sendHello hello =>
    simp only [step] at h
    split at h <;> try split at h
    · cases h; subst hello; exact .helloSent ‹_› ‹_›
    · cases h
    · cases h; subst hello; exact .helloEchoed ‹_›
    all_goals cases h
  | sendHelloFailed =>
    simp only [step] at h
    split at h <;> cases h
    · exact .helloFailed ‹_›
    · exact .abort (.inr ⟨_, ‹_›⟩) rfl rfl (by simp)
  | recv incoming =>
    simp only [step] at h
    split at h <;> cases h
    · exact .activity
    · split <;> rename_i hs
      · exact .helloAnswered ‹_› hs
      · exact .helloArrived ‹_› (by simpa using hs)
    · exact .notHello ‹_›
    · exact .activity
    · exact .recvFrame ‹_›
  | recvNone | timeout =>
    simp only [step] at h
    split at h <;> cases h
    · exact .abort (.inl ‹_›) rfl rfl (by simp)
    · exact .leave (.inl ‹_›) rfl rfl (by simp)
  | step1Sent ok =>
    simp only [step] at h
    split at h <;> cases h
    cases ok
    · exact .step1Failed ‹_›
    · exact .step1Sent ‹_›
  | hangupSignalled =>
    simp only [step] at h
    split at h <;> try split at h
    all_goals cases h
    exact .leave (.inl ‹_›) rfl rfl (by simp)
  | pingTick =>
    simp only [step] at h
    split at h <;> cases h
    exact .ping ‹_›
  | dequeue frame =>
    simp only [step] at h
    split at h <;> try split at h
    all_goals cases h
    subst frame
    exact .dequeue ‹_› ‹_›
  | sendRefused =>
    simp only [step] at h
    split at h <;> try split at h
    all_goals cases h
    exact .leave (.inr ⟨_, .inl ‹_›⟩) rfl rfl (by simp)
  | sendAllowed =>
    simp only [step] at h
    split at h <;> try split at h
    all_goals cases h
    rename_i hh
    exact .allowed ‹_› (Bool.eq_false_of_not_eq_true hh)
  | startSend frame =>
    simp only [step] at h
    split at h <;> try split at h
    all_goals cases h
    subst frame
    exact .startSend ‹_›
  | sent ok =>
    simp only [step] at h
    split at h <;> cases h
    cases ok
    · exact .leave (.inr ⟨_, .inr ‹_›⟩) rfl rfl (by simp)
    · exact .sent ‹_›
  | sendHangup =>
    simp only [step] at h
    split at h <;> try split at h
    all_goals cases h
    exact .leave (.inr ⟨_, .inr ‹_›⟩) rfl rfl (by simp)
  | closed =>
    simp only [step] at h
    split at h <;> cases h
    · exact .abortClosed ‹_›
    · exact .closed ‹_›
  | returned =>
    simp only [step] at h
    split at h <;> cases h
    exact .returned ‹_›

theorem ConnTask.validate_cases (device : DeviceInfo) (scope : Option Scope) (peer : Hello) :
    (validatePeer device scope peer = true ∧
      (validate device scope peer : Phase P) = .validated peer) ∨
    (validate device scope peer : Phase P) = .aborting := by
  unfold validate
  split
  · exact .inl ⟨‹_›, rfl⟩
  · exact .inr rfl

/-- A local move keeps the registration a task drives. -/
theorem ConnTask.Local.registered {device : DeviceInfo} {act : ConnTask.Act P}
    {t t' : ConnTask P} (h : t.Local device act t') :
    t'.phase.registered = t.phase.registered := by
  cases h with
  | helloEchoed hp | helloAnswered hp =>
    obtain ⟨-, h⟩ | h := validate_cases (P := P) device t.dialedScope ‹Hello› <;>
      simp [hp, h, Phase.registered]
  | abort hp =>
    obtain hp | ⟨_, hp⟩ := hp <;> simp [hp, Phase.registered]
  | leave hp =>
    obtain hp | ⟨_, hp | hp⟩ := hp <;> simp [hp, Phase.registered, breakLoop]
  | activity => rfl
  | _ hp => simp [hp, Phase.registered]

theorem ConnTask.Local.generation {device : DeviceInfo} {act : ConnTask.Act P}
    {t t' : ConnTask P} (h : t.Local device act t') :
    t'.phase.generation = t.phase.generation := by
  cases h with
  | helloEchoed hp | helloAnswered hp =>
    obtain ⟨-, h⟩ | h := validate_cases (P := P) device t.dialedScope ‹Hello› <;>
      simp [hp, h, Phase.generation, Phase.registered]
  | abort hp =>
    obtain hp | ⟨_, hp⟩ := hp <;> simp [hp, Phase.generation, Phase.registered]
  | leave hp =>
    obtain hp | ⟨_, hp | hp⟩ := hp <;> simp [hp, Phase.generation, Phase.registered, breakLoop]
  | activity => rfl
  | _ hp => simp [hp, Phase.generation, Phase.registered]

/-- A local move never leads back to before registration. -/
theorem ConnTask.Local.pending {device : DeviceInfo} {act : ConnTask.Act P} {t t' : ConnTask P}
    (h : t.Local device act t') (hp : t'.phase.pending = true) : t.phase.pending = true := by
  cases h with
  | activity => exact hp
  | helloSent h | helloFailed h | helloEchoed h | helloAnswered h | helloArrived h
  | notHello h => simp [h, Phase.pending]
  | abort h => obtain h | ⟨_, h⟩ := h <;> simp [h, Phase.pending]
  | _ => simp [Phase.pending, breakLoop] at hp

theorem ConnTask.Local.hangup {device : DeviceInfo} {act : ConnTask.Act P}
    {t t' : ConnTask P} (h : t.Local device act t') : t'.hangup = t.hangup := by
  cases h <;> rfl

theorem ConnTask.Local.dialedScope {device : DeviceInfo} {act : ConnTask.Act P}
    {t t' : ConnTask P} (h : t.Local device act t') : t'.dialedScope = t.dialedScope := by
  cases h <;> rfl

theorem ConnTask.Local.owningDialer {device : DeviceInfo} {act : ConnTask.Act P}
    {t t' : ConnTask P} (h : t.Local device act t') : t'.owningDialer = t.owningDialer := by
  cases h <;> rfl

/-- The steps of a dial loop that change nothing else. -/
inductive DialLoop.Local (m : Manager D P) (i : TaskId) (l : DialLoop) :
    Action P → DialLoop → Prop where
  | wake (hp : l.phase = .sleeping) : Local m i l (.dialWake i) { l with phase := .awake }
  | cancelled (hc : l.cancelled = true) (hp : l.phase = .sleeping ∨ l.phase = .connecting) :
      Local m i l (.dialCancelled i) { l with phase := .returned }
  | target (hp : l.phase = .awake) (ht : (m.state.dialTarget l.peerId l.scope).isSome) :
      Local m i l (.dialTarget i) { l with phase := .connecting }
  | noTarget (hp : l.phase = .awake) (ht : m.state.dialTarget l.peerId l.scope = none) :
      Local m i l (.dialTarget i) { l with phase := .targetless }
  | connectFailed (hp : l.phase = .connecting) : Local m i l (.connectFailed i) (l.again none)
  | redial {e : EndId} {t : ConnTask P} {outcome : ConnectionOutcome}
      (hp : l.phase = .running e) (ht : m.conns e = some t) (ho : t.phase = .ended outcome) :
      Local m i l (.redial i) (l.again (some outcome))

/-- The steps of a fan-out that change nothing else. -/
inductive FanOut.Local [Yrs D P] (m : Manager D P) (i : TaskId) (f : FanOut P) :
    Action P → FanOut P → Prop where
  | cancelled (hc : f.cancelled = true) (hp : f.phase = .recv) :
      Local m i f (.fanCancelled i) { f with phase := .returned }
  | lagged (hp : f.phase = .recv) (hl : f.lagged = true) :
      Local m i f (.fanRecv i) { f with
        lagged := false
        phase := .send (.syncStep2 (Yrs.snapshot (m.docs.heap f.doc))) none true }
  | update {u : DocUpdate P} {rest : List (DocUpdate P)} (hp : f.phase = .recv)
      (hl : f.lagged = false) (hb : f.backlog = u :: rest) :
      Local m i f (.fanRecv i) { f with
        backlog := rest
        phase := .send (.update u.update) u.origin false }
  | targets {frame : Frame P} {skip : Option DeviceId} {lag : Bool}
      (hp : f.phase = .send frame skip lag) :
      Local m i f (.fanTargets i)
        { f with phase := .push frame (m.state.targets f.scope skip) lag }
  | pushed {frame : Frame P} {lag : Bool} (hp : f.phase = .push frame [] lag)
      (hc : m.calls (.fan i) = []) :
      Local m i f (.fanNext i) { f with phase := if lag then .step1 else .recv }
  | step1 (hp : f.phase = .step1) :
      Local m i f (.fanNext i) { f with
        phase := .send (.syncStep1 (Yrs.stateVector (m.docs.heap f.doc))) none false }

/-- The steps of an instance. -/
inductive Manager.Step [Yrs D P] [DecidableEq P] (m : Manager D P) :
    Action P → Manager D P → Prop where
  | invoke {i : Nat} {command : Command} (hc : m.calls (.caller i) = []) :
      Step m (.invoke i command) (m.setCalls (.caller i) command.calls)
  | call {t : ThreadId} {c : Call} {cs : List Call} (hc : m.calls t = c :: cs) :
      Step m (.call t) ((m.perform c).1.setCalls t ((m.perform c).2 ++ cs))
  | handleInbound {e : EndId} (hd : e.dialed = false) (hn : m.conns e = none) :
      Step m (.handleInbound e) (m.setConn e .inbound)
  | conn {e : EndId} {act : ConnTask.Act P} {t t' : ConnTask P} (ht : m.conns e = some t)
      (hc : m.calls (.conn e) = []) (hs : t.Local m.device act t') :
      Step m (.conn e act) (m.setConn e t')
  | fetchDoc {e : EndId} {t : ConnTask P} {peer : Hello} (ht : m.conns e = some t)
      (hc : m.calls (.conn e) = []) (hp : t.phase = .validated peer) :
      Step m (.fetchDoc e)
        { m.setConn e
          { t with phase := .fetched peer (m.docs.get peer.scope) m.generation } with
          generation := m.generation + 1 }
  | register {e : EndId} {t : ConnTask P} {peer : Hello} {doc : Option DocId} {g : Nat}
      (ht : m.conns e = some t) (hc : m.calls (.conn e) = [])
      (hp : t.phase = .fetched peer doc g) :
      Step m (.register e) (m.register e t peer doc g)
  | sendStep1 {e : EndId} {t : ConnTask P} {r : Registered} (ht : m.conns e = some t)
      (hc : m.calls (.conn e) = []) (hp : t.phase = .ready r) :
      Step m (.sendStep1 e (Yrs.stateVector (m.docs.heap r.doc)))
        (m.setConn e { t with phase := .step1Sending r })
  | handleFrame {e : EndId} {t : ConnTask P} {r : Registered} {a : Bool}
      {payload : Option (Frame P)} (ht : m.conns e = some t) (hc : m.calls (.conn e) = [])
      (hp : t.phase = .received r a payload) :
      Step m (.handleFrame e) (m.handle e t r a payload)
  | tryAnnounce {e : EndId} {t : ConnTask P} {r : Registered} {reply : Option (Frame P)}
      (ht : m.conns e = some t) (hc : m.calls (.conn e) = []) (hp : t.phase = .handled r reply) :
      Step m (.tryAnnounce e) (m.announce e t r reply)
  | finishConnection {e : EndId} {t : ConnTask P} {r : Registered} {a : Bool}
      (ht : m.conns e = some t) (hc : m.calls (.conn e) = []) (hp : t.phase = .finishing r a) :
      Step m (.finishConnection e)
        (((m.setState (m.state.finishConnection r.key r.generation).1).setConn e
          { t with phase := .finished a }).setCalls (.conn e)
            ((m.state.finishConnection r.key r.generation).2 ++
              [.maybeSpawnDialer r.key.1 r.key.2 redialDelay]))
  | dial {i : TaskId} {act : Action P} {l l' : DialLoop} (hl : m.loops i = some l)
      (hs : l.Local m i act l') : Step m act (m.setLoop i l')
  | removeDialerEntry {i : TaskId} {l : DialLoop} (hl : m.loops i = some l)
      (hp : l.phase = .targetless) :
      Step m (.removeDialerEntry i)
        ((m.setState (m.state.removeDialerEntry l.key l.generation)).setLoop i
          { l with phase := .returned })
  | connected {i : TaskId} {e : EndId} {l : DialLoop} (hl : m.loops i = some l)
      (hp : l.phase = .connecting) (hd : e.dialed = true) (hn : m.conns e = none) :
      Step m (.connected i e)
        ((m.setLoop i { l with phase := .running e }).setConn e (.dialed l.scope l.generation))
  | fan {i : TaskId} {act : Action P} {f f' : FanOut P} (hf : m.fans i = some f)
      (hs : f.Local m i act f') : Step m act (m.setFan i f')
  | fanPush {i : TaskId} {f : FanOut P} {frame : Frame P}
      {target : ConnKey × ConnectionHandle} {rest : List (ConnKey × ConnectionHandle)}
      {lag : Bool} (hf : m.fans i = some f) (hp : f.phase = .push frame (target :: rest) lag)
      (hc : m.calls (.fan i) = []) :
      Step m (.fanPush i)
        ((m.trySend i frame target).setFan i { f with phase := .push frame rest lag })
  | rehash {peers : FinMap DeviceId PeerInfo} {connections : FinMap ConnKey ConnectionHandle}
      {dialers : FinMap ConnKey DialerHandle} (hp : m.state.peers.SameLookups peers)
      (hc : m.state.connections.SameLookups connections)
      (hd : m.state.dialers.SameLookups dialers) :
      Step m (.rehash peers connections dialers)
        (m.setState { m.state with peers, connections, dialers })

theorem Manager.step_cases [Yrs D P] [DecidableEq P] {m m' : Manager D P} {a : Action P}
    (h : m.step a = some m') : m.Step a m' := by
  cases a with
  | invoke i command =>
    simp only [step] at h
    split at h <;> cases h
    exact .invoke ‹_›
  | call t =>
    simp only [step] at h
    split at h <;> cases h
    exact .call ‹_›
  | handleInbound e =>
    simp only [step] at h
    split at h <;> cases h
    rename_i hc
    exact .handleInbound hc.1 (by simpa using hc.2)
  | conn e act =>
    simp only [step] at h
    split at h
    · obtain ⟨hc, ht⟩ := runnable_eq_some.mp ‹_›
      obtain ⟨t', hs, rfl⟩ := Option.map_eq_some_iff.mp h
      exact .conn ht hc (ConnTask.step_local hs)
    · cases h
  | fetchDoc e | register e | handleFrame e | tryAnnounce e | finishConnection e =>
    simp only [step] at h
    split at h
    · obtain ⟨hc, ht⟩ := runnable_eq_some.mp ‹_›
      split at h <;> cases h
      constructor <;> assumption
    · cases h
  | sendStep1 e sv =>
    simp only [step] at h
    split at h
    · obtain ⟨hc, ht⟩ := runnable_eq_some.mp ‹_›
      split at h <;> try split at h
      all_goals cases h
      subst sv
      exact .sendStep1 ht hc ‹_›
    · cases h
  | dialWake i =>
    simp only [step] at h
    split at h <;> try split at h
    all_goals cases h
    exact .dial ‹_› (.wake ‹_›)
  | dialCancelled i =>
    simp only [step] at h
    split at h <;> try split at h
    all_goals cases h
    rename_i hc
    exact .dial ‹_› (.cancelled hc.1 hc.2)
  | dialTarget i =>
    simp only [step] at h
    split at h <;> try split at h
    · cases h
      split <;> rename_i ht
      · exact .dial ‹_› (.target ‹_› ht)
      · exact .dial ‹_› (.noTarget ‹_› (by simpa using ht))
    all_goals cases h
  | removeDialerEntry i =>
    simp only [step] at h
    split at h <;> try split at h
    all_goals cases h
    exact .removeDialerEntry ‹_› ‹_›
  | connectFailed i =>
    simp only [step] at h
    split at h <;> try split at h
    all_goals cases h
    exact .dial ‹_› (.connectFailed ‹_›)
  | connected i e =>
    simp only [step] at h
    split at h <;> try split at h
    all_goals cases h
    rename_i hc
    exact .connected ‹_› hc.1 hc.2.1 (by simpa using hc.2.2)
  | redial i =>
    simp only [step] at h
    repeat' split at h
    all_goals cases h
    exact .dial ‹_› (.redial ‹_› ‹_› ‹_›)
  | fanCancelled i =>
    simp only [step] at h
    split at h <;> try split at h
    all_goals cases h
    rename_i hc
    exact .fan ‹_› (.cancelled hc.1 hc.2)
  | fanRecv i =>
    simp only [step] at h
    repeat' split at h
    all_goals cases h
    · exact .fan ‹_› (.lagged ‹_› ‹_›)
    · exact .fan ‹_› (.update ‹_› (Bool.eq_false_iff.mpr ‹_›) ‹_›)
  | fanTargets i =>
    simp only [step] at h
    repeat' split at h
    all_goals cases h
    exact .fan ‹_› (.targets ‹_›)
  | fanPush i =>
    simp only [step] at h
    repeat' split at h
    all_goals cases h
    exact .fanPush ‹_› ‹_› ‹_›
  | fanNext i =>
    simp only [step] at h
    split at h <;> try split at h
    · split at h <;> cases h
      exact .fan ‹_› (.pushed ‹_› ‹_›)
    · cases h
      exact .fan ‹_› (.step1 ‹_›)
    all_goals cases h
  | rehash peers connections dialers =>
    simp only [step] at h
    split at h <;> cases h
    rename_i hc
    exact .rehash hc.1 hc.2.1 hc.2.2

namespace Manager.Step

variable [Yrs D P] [DecidableEq P] {m m' : Manager D P} {e : EndId}

theorem of_call {t : ThreadId} (h : m.Step (.call t) m') :
    ∃ c cs, m.calls t = c :: cs ∧ m' = (m.perform c).1.setCalls t ((m.perform c).2 ++ cs) := by
  cases h with
  | call hc => exact ⟨_, _, hc, rfl⟩
  | dial _ hs | fan _ hs => cases hs

theorem of_conn {act : ConnTask.Act P} (h : m.Step (.conn e act) m') :
    ∃ t t', m.conns e = some t ∧ m.calls (.conn e) = [] ∧ t.Local m.device act t' ∧
      m' = m.setConn e t' := by
  cases h with
  | conn ht hc hl => exact ⟨_, _, ht, hc, hl, rfl⟩
  | dial _ hs | fan _ hs => cases hs

theorem of_register (h : m.Step (.register e) m') :
    ∃ t peer doc g, m.conns e = some t ∧ m.calls (.conn e) = [] ∧
      t.phase = .fetched peer doc g ∧ m' = m.register e t peer doc g := by
  cases h with
  | register ht hc hp => exact ⟨_, _, _, _, ht, hc, hp, rfl⟩
  | dial _ hs | fan _ hs => cases hs

theorem of_sendStep1 {sv : P} (h : m.Step (.sendStep1 e sv) m') :
    ∃ t r, m.conns e = some t ∧ m.calls (.conn e) = [] ∧ t.phase = .ready r ∧
      sv = Yrs.stateVector (m.docs.heap r.doc) ∧
      m' = m.setConn e { t with phase := .step1Sending r } := by
  cases h with
  | sendStep1 ht hc hp => exact ⟨_, _, ht, hc, hp, rfl, rfl⟩
  | dial _ hs | fan _ hs => cases hs

theorem of_handleFrame (h : m.Step (.handleFrame e) m') :
    ∃ t r a payload, m.conns e = some t ∧ m.calls (.conn e) = [] ∧
      t.phase = .received r a payload ∧ m' = m.handle e t r a payload := by
  cases h with
  | handleFrame ht hc hp => exact ⟨_, _, _, _, ht, hc, hp, rfl⟩
  | dial _ hs | fan _ hs => cases hs

theorem of_connected {i : TaskId} (h : m.Step (.connected i e) m') :
    ∃ l, m.loops i = some l ∧ l.phase = .connecting ∧ e.dialed = true ∧ m.conns e = none ∧
      m' = (m.setLoop i { l with phase := .running e }).setConn e
        (.dialed l.scope l.generation) := by
  cases h with
  | connected hl hp hd hn => exact ⟨_, hl, hp, hd, hn, rfl⟩
  | dial _ hs | fan _ hs => cases hs

theorem of_tryAnnounce (h : m.Step (.tryAnnounce e) m') :
    ∃ t r reply, m.conns e = some t ∧ m.calls (.conn e) = [] ∧ t.phase = .handled r reply ∧
      m' = m.announce e t r reply := by
  cases h with
  | tryAnnounce ht hc hp => exact ⟨_, _, _, ht, hc, hp, rfl⟩
  | dial _ hs | fan _ hs => cases hs

end Manager.Step

end Yoink
