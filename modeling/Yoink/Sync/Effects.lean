import Yoink.Sync.Inversion
import Yoink.Sync.Registry

/-!
# What an operation leaves alone

The operations of a `Manager` as equations on its fields, and the effect of one call as
a whole: `perform` never touches the task tables beyond the flag a hangup or a cancel
sets, and what it takes out of the registry is what it owes a hangup or a cancel.
-/

namespace Yoink

variable {D P : Type}

/-- Setting a flag at one index of a table, if the index is there. -/
theorem update_flag {I T : Type} [DecidableEq I] (f : I → Option T) (i : I) (g : Bool → T → T)
    (hg : ∀ t, g false t = t) :
    (match f i with
      | some t => Function.update f i (some (g true t))
      | none => f) = fun j => (f j).map (g (decide (j = i))) := by
  funext j
  by_cases h : j = i
  · subst h
    cases hj : f j <;> simp [hj]
  · have hid : (f j).map (g false) = f j := by
      rw [show g false = id from funext hg]; simp
    cases hi : f i <;> simp [h, hid]

namespace Manager

section Signals

theorem signalHangup_eq (m : Manager D P) (e : EndId) :
    m.signalHangup e = { m with conns := fun e' => (m.conns e').map fun t =>
      { t with hangup := t.hangup || decide (e' = e) } } := by
  rw [← update_flag m.conns e (fun b t => { t with hangup := t.hangup || b }) (by simp)]
  unfold signalHangup
  cases m.conns e <;> simp [setConn]

theorem cancelLoop_eq (m : Manager D P) (i : TaskId) :
    m.cancelLoop i = { m with loops := fun i' => (m.loops i').map fun l =>
      { l with cancelled := l.cancelled || decide (i' = i) } } := by
  rw [← update_flag m.loops i (fun b l => { l with cancelled := l.cancelled || b }) (by simp)]
  unfold cancelLoop
  cases m.loops i <;> simp [setLoop]

theorem cancelFan_eq (m : Manager D P) (i : TaskId) :
    m.cancelFan i = { m with fans := fun i' => (m.fans i').map fun f =>
      { f with cancelled := f.cancelled || decide (i' = i) } } := by
  rw [← update_flag m.fans i (fun b f => { f with cancelled := f.cancelled || b }) (by simp)]
  unfold cancelFan
  cases m.fans i <;> simp [setFan]

end Signals

section Operations

/-- A commit touches the documents and the backlogs of the fan-outs. -/
theorem commit_eq (m : Manager D P) (doc : DocId) (d : D) (update : Option P)
    (origin : Option DeviceId) :
    m.commit doc d update origin = { m with
      docs := m.docs.write doc d
      fans := fun i => (m.fans i).map fun f =>
        match update with
        | some u => if f.doc = doc then f.publish ⟨u, origin⟩ else f
        | none => f } := by
  cases update <;> simp [commit, publish]

/-- Spawning a dial loop, or nothing. -/
theorem maybeSpawnDialer_cases (m : Manager D P) (peerId : DeviceId) (scope : Scope)
    (delay : Nat) :
    m.maybeSpawnDialer peerId scope delay = m ∨
      (m.device.id < peerId ∧ m.state.wantsDialer peerId scope ∧
        m.maybeSpawnDialer peerId scope delay =
          { m with
            loops := Function.update m.loops m.spawned
              (some (.spawn peerId scope m.generation delay))
            state := { m.state with
              dialers := m.state.dialers.insert (peerId, scope) ⟨m.generation, m.spawned⟩ }
            generation := m.generation + 1
            spawned := m.spawned + 1 }) := by
  unfold maybeSpawnDialer
  split
  · exact .inl rfl
  · split
    · exact .inr ⟨not_le.mp ‹_›, ‹_›, rfl⟩
    · exact .inl rfl

variable [Yrs D P]

/-- Opening a room, or nothing. -/
theorem joinRoom_cases (m : Manager D P) (name : String) :
    m.joinRoom name = (m, []) ∨
      (Canonical name ∧ name ∉ m.state.joined ∧
        (m.joinRoom name).1 = { m with
          docs := (m.docs.getOrCreate (.room name)).1
          fans := Function.update m.fans m.spawned
            (some (.spawn (.room name) (m.docs.getOrCreate (.room name)).2))
          state := { m.state with
            joined := insert name m.state.joined
            fanOuts := m.state.fanOuts.insert (.room name) m.spawned }
          spawned := m.spawned + 1 } ∧
        ∀ c ∈ (m.joinRoom name).2, ∃ d, c = .maybeSpawnDialer d (.room name) 0) := by
  unfold joinRoom
  split
  · exact .inl rfl
  · rename_i h
    push Not at h
    refine .inr ⟨h.1, h.2, rfl, fun c hc => ?_⟩
    obtain ⟨p, -, rfl⟩ := List.mem_map.mp hc
    exact ⟨_, rfl⟩

end Operations

end Manager

/-- The connections a call takes out of the registry. -/
def Call.gone (s : State) : Call → ConnKey → Bool
  | .setTrusted d b => s.revokedBy d b
  | .leaveRoom name => s.leftBy name
  | .forceClose key g => fun k => decide (k = key) && s.identifies key g
  | _ => fun _ => false

/-- The dialers a call takes out of the registry. -/
def Call.undialed (s : State) : Call → ConnKey → Bool
  | .setTrusted d b => s.revokedBy d b
  | .leaveRoom name => s.leftBy name
  | .peerLost d => fun k => decide (k.1 = d)
  | _ => fun _ => false

/-- The event a call emits. -/
def Call.event : Call → Option SyncEvent
  | .emit event => some event
  | _ => none

/-- The calls a critical section may leave to its caller. -/
def Call.isEffect : Call → Bool
  | .cancelDialer _ | .dropFanOut _ | .hangup _ | .emit _ | .maybeSpawnDialer _ _ _ => true
  | _ => false

theorem Command.calls_isEffect (command : Command) : ∀ c ∈ command.calls, c.isEffect = false := by
  cases command with
  | appJoinRoom name | appLeaveRoom name =>
    simp only [Command.calls]
    split <;> simp [Call.isEffect]
  | _ => simp [Command.calls, Call.isEffect]

namespace Manager

section Perform

variable [Yrs D P]

/-- What a call leaves alone, and the event it may emit. -/
theorem perform_frame (m : Manager D P) (c : Call) :
    (m.perform c).1.calls = m.calls ∧ (m.perform c).1.device = m.device ∧
      (m.perform c).1.events = m.events ++ c.event.toList ∧
      m.spawned ≤ (m.perform c).1.spawned := by
  cases c with
  | maybeSpawnDialer d s n =>
    obtain h | ⟨-, -, h⟩ := m.maybeSpawnDialer_cases d s n <;> simp [perform, h, Call.event]
  | joinRoom name =>
    obtain h | ⟨-, -, h, -⟩ := m.joinRoom_cases name <;> simp [perform, h, Call.event]
  | addEntry scope entry =>
    simp only [perform]
    cases m.docs.get scope <;> simp [commit_eq, Call.event]
  | _ => simp [perform, signalHangup_eq, cancelLoop_eq, cancelFan_eq, setState, emit, Call.event]

@[simp] theorem perform_calls (m : Manager D P) (c : Call) : (m.perform c).1.calls = m.calls :=
  (m.perform_frame c).1

@[simp] theorem perform_device (m : Manager D P) (c : Call) :
    (m.perform c).1.device = m.device := (m.perform_frame c).2.1

theorem perform_events (m : Manager D P) (c : Call) :
    (m.perform c).1.events = m.events ++ c.event.toList := (m.perform_frame c).2.2.1

theorem spawned_le_perform (m : Manager D P) (c : Call) :
    m.spawned ≤ (m.perform c).1.spawned := (m.perform_frame c).2.2.2

/-- A call changes nothing about a connection task but its hangup flag. -/
theorem perform_conns (m : Manager D P) (c : Call) (e : EndId) :
    (m.perform c).1.conns e =
      (m.conns e).map fun t => { t with hangup := t.hangup || decide (c = .hangup e) } := by
  cases c with
  | maybeSpawnDialer d s n =>
    obtain h | ⟨-, -, h⟩ := m.maybeSpawnDialer_cases d s n <;> simp [perform, h]
  | joinRoom name =>
    obtain h | ⟨-, -, h, -⟩ := m.joinRoom_cases name <;> simp [perform, h]
  | addEntry scope entry =>
    simp only [perform]
    cases m.docs.get scope <;> simp [commit_eq]
  | hangup e' => simp [perform, signalHangup_eq, eq_comm]
  | _ => simp [perform, cancelLoop_eq, cancelFan_eq, setState, emit]

/-- The only call that takes part in the connection table besides the three that release. -/
theorem perform_connections (m : Manager D P) (c : Call) (k : ConnKey) :
    (m.perform c).1.state.connections.lookup k =
      if c.gone m.state k then none else m.state.connections.lookup k := by
  cases c with
  | maybeSpawnDialer d s n =>
    obtain h | ⟨-, -, h⟩ := m.maybeSpawnDialer_cases d s n <;> simp [perform, h, Call.gone]
  | joinRoom name =>
    obtain h | ⟨-, -, h, -⟩ := m.joinRoom_cases name <;> simp [perform, h, Call.gone]
  | addEntry scope entry =>
    simp only [perform]
    cases m.docs.get scope <;> simp [commit_eq, Call.gone]
  | setTrusted d b => exact m.state.setTrusted_connections d b k
  | leaveRoom name => exact m.state.leaveRoom_connections name k
  | forceClose key g =>
    simpa [Call.gone, perform, setState] using m.state.forceClose_connections key k g
  | peerDiscovered peer =>
    obtain ⟨_, h⟩ := m.state.peerDiscovered_eq m.device.id peer
    simp [perform, setState, h, Call.gone]
  | _ => simp [perform, signalHangup_eq, cancelLoop_eq, cancelFan_eq, setState, emit, Call.gone,
      State.peerLost]

theorem perform_releases (m : Manager D P) (c : Call) :
    m.state.Releases (c.gone m.state) (c.undialed m.state) (m.perform c).2 := by
  cases c with
  | setTrusted d b => exact m.state.setTrusted_releases d b
  | leaveRoom name => exact m.state.leaveRoom_releases name
  | forceClose key g => exact m.state.forceClose_releases key g
  | peerLost d => exact m.state.peerLost_releases d
  | joinRoom name =>
    refine .none m.state fun c hc => ?_
    obtain h | ⟨-, -, -, h⟩ := m.joinRoom_cases name
    · simp [perform, h] at hc
    · obtain ⟨d, rfl⟩ := h c hc
      exact ⟨_, _, _, rfl⟩
  | peerDiscovered peer =>
    refine .none m.state fun c hc => ?_
    simp only [perform, State.peerDiscovered] at hc
    split at hc
    · simp at hc
    · obtain ⟨scope, -, rfl⟩ := List.mem_map.mp hc
      exact ⟨_, _, _, rfl⟩
  | addEntry scope entry =>
    refine .none m.state fun c hc => ?_
    simp only [perform] at hc
    split at hc <;> simp at hc
  | _ => exact .none m.state (by simp [perform])

theorem perform_isEffect (m : Manager D P) (c : Call) : ∀ c' ∈ (m.perform c).2, c'.isEffect := by
  have hdrop : ∀ {k h c'}, c' ∈ dropConnection k h → c'.isEffect = true := fun hc => by
    obtain rfl | rfl := State.mem_dropConnection hc <;> rfl
  have hdial : ∀ {ds : List DialerHandle} {c'}, c' ∈ (ds.map fun d => Call.cancelDialer d.loop) →
      c'.isEffect = true := fun hc => by
    obtain ⟨_, -, rfl⟩ := List.mem_map.mp hc; rfl
  intro c' hc
  cases c with
  | setTrusted d b =>
    simp only [perform, State.setTrusted] at hc
    split at hc
    · obtain rfl := List.mem_singleton.mp hc; rfl
    · obtain hc | hc := List.mem_append.mp hc
      · exact hdial hc
      · obtain ⟨_, -, hc⟩ := List.mem_flatMap.mp hc
        exact hdrop hc
  | leaveRoom name =>
    simp only [perform, State.leaveRoom] at hc
    split at hc
    · simp only [List.mem_append, List.mem_flatMap, List.mem_map] at hc
      obtain (⟨_, -, rfl⟩ | ⟨_, -, rfl⟩) | ⟨_, -, hc⟩ := hc
      · rfl
      · rfl
      · exact hdrop hc
    · simp at hc
  | forceClose key g =>
    simp only [perform, State.forceClose] at hc
    split at hc
    · split at hc
      · exact hdrop hc
      · simp at hc
    · simp at hc
  | peerLost d =>
    obtain ⟨_, -, rfl⟩ := List.mem_map.mp hc
    rfl
  | joinRoom name =>
    obtain h | ⟨-, -, -, h⟩ := m.joinRoom_cases name
    · simp [perform, h] at hc
    · obtain ⟨d, rfl⟩ := h c' hc
      rfl
  | peerDiscovered peer =>
    simp only [perform, State.peerDiscovered] at hc
    split at hc
    · simp at hc
    · obtain ⟨scope, -, rfl⟩ := List.mem_map.mp hc
      rfl
  | addEntry scope entry =>
    simp only [perform] at hc
    split at hc <;> simp at hc
  | _ => simp [perform] at hc

/-- Besides the calls that take dialers out, only `maybe_spawn_dialer` touches them. -/
theorem perform_dialers (m : Manager D P) {c : Call}
    (hc : ∀ d s n, c ≠ .maybeSpawnDialer d s n) (k : ConnKey) :
    (m.perform c).1.state.dialers.lookup k =
      if c.undialed m.state k then none else m.state.dialers.lookup k := by
  cases c with
  | maybeSpawnDialer d s n => exact absurd rfl (hc d s n)
  | joinRoom name =>
    obtain h | ⟨-, -, h, -⟩ := m.joinRoom_cases name <;> simp [perform, h, Call.undialed]
  | addEntry scope entry =>
    simp only [perform]
    cases m.docs.get scope <;> simp [commit_eq, Call.undialed]
  | setTrusted d b => exact m.state.setTrusted_dialers d b k
  | leaveRoom name => exact m.state.leaveRoom_dialers name k
  | peerLost d => simpa [Call.undialed, perform, setState] using m.state.peerLost_dialers d k
  | forceClose key g =>
    obtain ⟨_, h⟩ := m.state.forceClose_eq key g
    simp [perform, setState, h, Call.undialed]
  | peerDiscovered peer =>
    obtain ⟨_, h⟩ := m.state.peerDiscovered_eq m.device.id peer
    simp [perform, setState, h, Call.undialed]
  | _ => simp [perform, signalHangup_eq, cancelLoop_eq, cancelFan_eq, emit, Call.undialed]

/-- Besides spawning one, a call changes nothing about a dial loop but its cancel flag. -/
theorem perform_loops (m : Manager D P) {c : Call}
    (hc : ∀ d s n, c ≠ .maybeSpawnDialer d s n) (i : TaskId) :
    (m.perform c).1.loops i =
      (m.loops i).map fun l =>
        { l with cancelled := l.cancelled || decide (c = .cancelDialer i) } := by
  cases c with
  | maybeSpawnDialer d s n => exact absurd rfl (hc d s n)
  | joinRoom name =>
    obtain h | ⟨-, -, h, -⟩ := m.joinRoom_cases name <;> simp [perform, h]
  | addEntry scope entry =>
    simp only [perform]
    cases m.docs.get scope <;> simp [commit_eq]
  | cancelDialer i' => simp [perform, cancelLoop_eq, eq_comm]
  | _ => simp [perform, signalHangup_eq, cancelFan_eq, setState, emit]

theorem perform_generation (m : Manager D P) {c : Call}
    (hc : ∀ d s n, c ≠ .maybeSpawnDialer d s n) :
    (m.perform c).1.generation = m.generation := by
  cases c with
  | maybeSpawnDialer d s n => exact absurd rfl (hc d s n)
  | joinRoom name =>
    obtain h | ⟨-, -, h, -⟩ := m.joinRoom_cases name <;> simp [perform, h]
  | addEntry scope entry =>
    simp only [perform]
    cases m.docs.get scope <;> simp [commit_eq]
  | _ => simp [perform, signalHangup_eq, cancelLoop_eq, cancelFan_eq, setState, emit]

theorem perform_admitted {m : Manager D P} (h : m.state.Admitted m.device.id) (c : Call) :
    (m.perform c).1.state.Admitted m.device.id := by
  cases c with
  | maybeSpawnDialer d s n =>
    obtain heq | ⟨ho, hw, heq⟩ := m.maybeSpawnDialer_cases d s n
    · simpa [perform, heq] using h
    · simp only [perform, heq]
      exact h.spawnDialer ho hw _
  | joinRoom name =>
    obtain heq | ⟨-, -, heq, -⟩ := m.joinRoom_cases name
    · simpa [perform, heq] using h
    · simp only [perform, heq]
      exact h.joinRoom name m.spawned
  | addEntry scope entry =>
    simp only [perform]
    cases m.docs.get scope <;> simpa [commit_eq] using h
  | setTrusted d b => exact h.setTrusted d b
  | leaveRoom name => exact h.leaveRoom name
  | forceClose key g => exact h.forceClose key g
  | peerDiscovered peer => exact h.peerDiscovered peer
  | peerLost d => exact h.peerLost d
  | _ => simpa [perform, signalHangup_eq, cancelLoop_eq, cancelFan_eq, emit] using h

end Perform

section Sections

/-- Registration of a connection that is accepted and has its document. -/
theorem register_accepted (m : Manager D P) (e : EndId) (t : ConnTask P) {peer : Hello}
    (d : DocId) (g : Nat) (ha : m.state.accepts peer.key = true) :
    m.register e t peer (some d) g = { m with
      state := m.state.register peer.key e g t.owningDialer
      conns := Function.update m.conns e (some { t with phase := .ready ⟨peer, d, g⟩ })
      loops := fun i => (m.loops i).map fun l => { l with
        cancelled := l.cancelled ||
          decide (m.state.redundantDialer peer.key t.owningDialer = some i) }
      calls := Function.update m.calls (.conn e)
        ((m.state.connections.lookup peer.key).toList.map fun old => .hangup old.task) } := by
  unfold register
  cases hr : m.state.redundantDialer peer.key t.owningDialer with
  | none => simp [ha, hr, setState, setConn, setCalls, Option.map_id']
  | some i => simp [ha, hr, cancelLoop_eq, setState, setConn, setCalls, eq_comm]

/-- Registration either closes the socket, or enters the connection. -/
theorem register_cases (m : Manager D P) (e : EndId) (t : ConnTask P) (peer : Hello)
    (doc : Option DocId) (g : Nat) :
    m.register e t peer doc g = m.setConn e { t with phase := .aborting } ∨
      ∃ d, doc = some d ∧ m.state.accepts peer.key ∧
        m.register e t peer doc g = { m with
          state := m.state.register peer.key e g t.owningDialer
          conns := Function.update m.conns e (some { t with phase := .ready ⟨peer, d, g⟩ })
          loops := fun i => (m.loops i).map fun l => { l with
            cancelled := l.cancelled ||
              decide (m.state.redundantDialer peer.key t.owningDialer = some i) }
          calls := Function.update m.calls (.conn e)
            ((m.state.connections.lookup peer.key).toList.map
              fun old => .hangup old.task) } := by
  by_cases ha : m.state.accepts peer.key = true
  · cases doc with
    | none => exact .inl (by simp [register, ha])
    | some d => exact .inr ⟨d, rfl, ha, m.register_accepted e t d g ha⟩
  · exact .inl (by simp [register, ha])

theorem announce_cases (m : Manager D P) (e : EndId) (t : ConnTask P) (r : Registered)
    (reply : Option (Frame P)) :
    (m.state.identifies r.key r.generation = false ∧
      m.announce e t r reply = m.setConn e (t.breakLoop r false)) ∨
    ∃ c, m.state.connections.lookup r.key = some c ∧ c.generation = r.generation ∧
      m.announce e t r reply = { m with
        state := { m.state with
          connections := m.state.connections.insert r.key { c with announced := true } }
        events := m.events ++
          [.peerConnected r.peer.deviceId r.peer.deviceName r.peer.scope]
        conns := Function.update m.conns e
          (some { t with phase := ConnTask.replyOrSelect r reply }) } := by
  unfold announce
  cases h : m.state.tryAnnounce r.key r.generation with
  | none => exact .inl ⟨State.tryAnnounce_none h, rfl⟩
  | some s =>
    obtain ⟨c, hl, hg, rfl⟩ := State.tryAnnounce_eq h
    exact .inr ⟨c, hl, hg, by simp [setState, emit, setConn]⟩

/-- `try_send`: the frame is queued, the queue's task is gone, or the queue is full. -/
theorem trySend_cases (m : Manager D P) (i : TaskId) (frame : Frame P)
    (target : ConnKey × ConnectionHandle) :
    m.trySend i frame target = m ∨
    (∃ t, m.conns target.2.task = some t ∧ t.rxOpen = true ∧ t.outbound.length < outboundQueue ∧
      m.trySend i frame target =
        m.setConn target.2.task { t with outbound := t.outbound ++ [frame] }) ∨
    (∃ t, m.conns target.2.task = some t ∧ t.rxOpen = true ∧
      m.trySend i frame target =
        m.setCalls (.fan i) [.forceClose target.1 target.2.generation]) := by
  unfold trySend
  split
  · split
    · split
      · exact .inr (.inl ⟨_, ‹_›, ‹_›, ‹_›, rfl⟩)
      · exact .inr (.inr ⟨_, ‹_›, ‹_›, rfl⟩)
    · exact .inl rfl
  · exact .inl rfl

variable [Yrs D P]

/-- A handled frame leaves the manager alone, or its update is applied and published. -/
theorem handleFrame_cases {m m' : Manager D P} {doc : DocId} {peerId : DeviceId}
    {payload : Option (Frame P)} {reply : Option (Frame P)}
    (h : m.handleFrame doc peerId payload = some (m', reply)) :
    (m' = m ∧ ∀ f, payload = some f → f.isContent = false) ∨
      ∃ f u d ev, payload = some f ∧ (f = .syncStep2 u ∨ f = .update u) ∧
        Yrs.applyUpdate (m.docs.heap doc) u = some (d, ev) ∧
        m' = m.commit doc d ev (some peerId) ∧ reply = none := by
  unfold handleFrame at h
  split at h
  · cases h
    exact .inl ⟨rfl, fun f hf => by cases hf; rfl⟩
  · obtain ⟨diff, -, h⟩ := Option.map_eq_some_iff.mp h
    cases h
    exact .inl ⟨rfl, fun f hf => by cases hf; rfl⟩
  · obtain ⟨⟨d, ev⟩, ha, h⟩ := Option.map_eq_some_iff.mp h
    cases h
    exact .inr ⟨_, _, d, ev, rfl, .inl rfl, ha, rfl, rfl⟩
  · obtain ⟨⟨d, ev⟩, ha, h⟩ := Option.map_eq_some_iff.mp h
    cases h
    exact .inr ⟨_, _, d, ev, rfl, .inr rfl, ha, rfl, rfl⟩
  · cases h

/-- A reply is never a HELLO. -/
theorem handleFrame_reply {m m' : Manager D P} {doc : DocId} {peerId : DeviceId}
    {payload : Option (Frame P)} {f : Frame P}
    (h : m.handleFrame doc peerId payload = some (m', some f)) : f.isHello = false := by
  unfold handleFrame at h
  split at h
  · cases h
  · obtain ⟨diff, -, h⟩ := Option.map_eq_some_iff.mp h
    cases h
    rfl
  · obtain ⟨_, -, h⟩ := Option.map_eq_some_iff.mp h
    cases h
  · obtain ⟨_, -, h⟩ := Option.map_eq_some_iff.mp h
    cases h
  · cases h

/-- Handling a frame touches only the documents and the backlogs. -/
theorem handleFrame_eq {m m' : Manager D P} {doc : DocId} {peerId : DeviceId}
    {payload reply : Option (Frame P)} (h : m.handleFrame doc peerId payload = some (m', reply)) :
    ∃ docs fans, m' = { m with docs, fans } := by
  obtain ⟨rfl, -⟩ | ⟨_, _, d, ev, -, -, -, rfl, -⟩ := handleFrame_cases h
  · exact ⟨_, _, rfl⟩
  · exact ⟨_, _, commit_eq m doc d ev (some peerId)⟩

theorem handle_cases (m : Manager D P) (e : EndId) (t : ConnTask P) (r : Registered) (a : Bool)
    (payload : Option (Frame P)) :
    (m.handleFrame r.doc r.peer.deviceId payload = none ∧
      m.handle e t r a payload = m.setConn e (t.breakLoop r a)) ∨
    ∃ m' reply, m.handleFrame r.doc r.peer.deviceId payload = some (m', reply) ∧
      m.handle e t r a payload = m'.setConn e { t with
        phase := if a then ConnTask.replyOrSelect r reply else .handled r reply } := by
  unfold handle
  cases h : m.handleFrame r.doc r.peer.deviceId payload with
  | none => exact .inl ⟨rfl, rfl⟩
  | some p => exact .inr ⟨p.1, p.2, rfl, rfl⟩

end Sections

end Manager

end Yoink
