import Yoink.Sync.Tasks
import Mathlib.Tactic.Simps.Basic
import Yoink.Library.System

/-!
# One instance: the sync manager and its tasks

`Manager` is everything a running instance shares between its tasks: the locked registry,
the documents, the generation counter, the events emitted so far, and the tasks themselves.
A step is one access to shared state or one local move of one task; `Action` names it
together with what the environment chose (a frame that arrived, a write that failed, the
branch of a select, a spawned task's id). `system` collects the runs.

A thread is a caller of the public operations, a connection task or a fan-out. `calls`
holds what a thread has to do before anything else, so an operation has returned when its
thread's list is empty.
-/

namespace Yoink

/-- The operations a caller may start. -/
inductive Command where
  | setTrusted (deviceId : DeviceId) (trusted : Bool)
  | joinRoom (name : String)
  | leaveRoom (name : String)
  | peerDiscovered (peer : PeerInfo)
  | peerLost (deviceId : DeviceId)
  /-- `App::join_room` and `App::leave_room`, which also own the room's document. -/
  | appJoinRoom (name : String)
  | appLeaveRoom (name : String)
  | addEntry (scope : Scope) (entry : ClipEntry)
  deriving DecidableEq, Repr

/-- The calls a command makes, in order. The app's commands sanitize their name first; their
check against `config.rooms` only skips calls that change nothing here. -/
def Command.calls : Command → List Call
  | .setTrusted d b => [.setTrusted d b]
  | .joinRoom name => [.joinRoom name]
  | .leaveRoom name => [.leaveRoom name]
  | .peerDiscovered peer => [.peerDiscovered peer]
  | .peerLost d => [.peerLost d]
  | .appJoinRoom name =>
    match sanitizeRoomName name with
    | some name => [.docsGetOrCreate (.room name), .joinRoom name]
    | none => []
  | .appLeaveRoom name =>
    match sanitizeRoomName name with
    | some name => [.leaveRoom name, .docsRemove (.room name)]
    | none => []
  | .addEntry scope entry => [.addEntry scope entry]

/-- A thread of control that makes calls. -/
inductive ThreadId where
  | caller (i : Nat)
  | conn (e : EndId)
  | fan (f : TaskId)
  deriving DecidableEq, Repr

structure Manager (D P : Type) where
  device : DeviceInfo
  state : State
  docs : Docs D
  /-- The shared counter behind `next_generation`. -/
  generation : Nat
  /-- Everything sent on the event queue, which is assumed never to fill. -/
  events : List SyncEvent
  calls : ThreadId → List Call
  conns : EndId → Option (ConnTask P)
  loops : TaskId → Option DialLoop
  fans : TaskId → Option (FanOut P)
  /-- The id of the next spawned task. -/
  spawned : TaskId

/-- What a step is, and what the environment chose in it. -/
inductive Action (P : Type) where
  /-- A caller starts an operation. -/
  | invoke (i : Nat) (command : Command)
  /-- A thread makes its next call. -/
  | call (t : ThreadId)
  /-- The `/sync` route hands over an upgraded socket. -/
  | handleInbound (e : EndId)
  | conn (e : EndId) (act : ConnTask.Act P)
  /-- `docs.get` and `next_generation`. -/
  | fetchDoc (e : EndId)
  /-- The registration section of `run_connection`. -/
  | register (e : EndId)
  /-- Take the state vector and start the write of SYNC_STEP_1. -/
  | sendStep1 (e : EndId) (stateVector : P)
  | handleFrame (e : EndId)
  | tryAnnounce (e : EndId)
  | finishConnection (e : EndId)
  | dialWake (l : TaskId)
  | dialCancelled (l : TaskId)
  | dialTarget (l : TaskId)
  | removeDialerEntry (l : TaskId)
  | connectFailed (l : TaskId)
  /-- `try_connect` yields a socket. -/
  | connected (l : TaskId) (e : EndId)
  /-- `run_connection` has returned to its dial loop. -/
  | redial (l : TaskId)
  | fanCancelled (f : TaskId)
  | fanRecv (f : TaskId)
  | fanTargets (f : TaskId)
  | fanPush (f : TaskId)
  | fanNext (f : TaskId)
  /-- The hash maps may iterate in any order, and in another one next time. -/
  | rehash (peers : FinMap DeviceId PeerInfo) (connections : FinMap ConnKey ConnectionHandle)
      (dialers : FinMap ConnKey DialerHandle)

namespace Action

variable {P : Type}

/-- The protocol frame an action starts to write on `e`. -/
def sends (e : EndId) : Action P → Option (Frame P)
  | .conn e' act => if e' = e then act.sends else none
  | .sendStep1 e' stateVector => if e' = e then some (.syncStep1 stateVector) else none
  | _ => none

/-- The binary message an action takes from `e`. -/
def reads (e : EndId) : Action P → Option (Option (Frame P))
  | .conn e' act => if e' = e then act.reads else none
  | _ => none

/-- An action does no input or output on `e`. -/
def Silent (a : Action P) (e : EndId) : Prop := a.sends e = none ∧ a.reads e = none

/-- After the HELLO, a frame goes out through `send_or_hangup` or as the bare SYNC_STEP_1. -/
theorem sends_cases {a : Action P} {e : EndId} {f : Frame P} (h : a.sends e = some f)
    (hf : f.isHello = false) :
    a = .conn e (.startSend (some f)) ∨ ∃ sv, a = .sendStep1 e sv ∧ f = .syncStep1 sv := by
  cases a with
  | conn e' act =>
    simp only [sends] at h
    split at h
    · subst e'
      cases act <;> simp_all [ConnTask.Act.sends]
      cases h
      simp at hf
    · cases h
  | sendStep1 e' sv =>
    simp only [sends] at h
    split at h
    · subst e'
      cases h
      exact .inr ⟨sv, rfl, rfl⟩
    · cases h
  | _ => cases h

/-- What writes a HELLO: the handshake, or a queue that held one. -/
theorem sends_hello {a : Action P} {e : EndId} {hello : Hello}
    (h : a.sends e = some (.hello hello)) :
    a = .conn e (.sendHello hello) ∨ a = .conn e (.startSend (some (.hello hello))) := by
  cases a with
  | conn e' act =>
    simp only [sends] at h
    split at h
    · subst e'
      cases act <;> simp_all [ConnTask.Act.sends]
    · cases h
  | sendStep1 e' sv =>
    simp only [sends] at h
    split at h <;> cases h
  | _ => cases h

end Action

namespace Manager

variable {D P : Type}

section Setters

@[simps]
def setCalls (m : Manager D P) (t : ThreadId) (cs : List Call) : Manager D P :=
  { m with calls := Function.update m.calls t cs }

@[simps]
def setConn (m : Manager D P) (e : EndId) (t : ConnTask P) : Manager D P :=
  { m with conns := Function.update m.conns e (some t) }

@[simps]
def setLoop (m : Manager D P) (i : TaskId) (l : DialLoop) : Manager D P :=
  { m with loops := Function.update m.loops i (some l) }

@[simps]
def setFan (m : Manager D P) (i : TaskId) (f : FanOut P) : Manager D P :=
  { m with fans := Function.update m.fans i (some f) }

@[simps]
def setState (m : Manager D P) (s : State) : Manager D P := { m with state := s }

@[simps]
def emit (m : Manager D P) (event : SyncEvent) : Manager D P :=
  { m with events := m.events ++ [event] }

/-- The watch of a connection task turns true. -/
def signalHangup (m : Manager D P) (e : EndId) : Manager D P :=
  match m.conns e with
  | some t => m.setConn e { t with hangup := true }
  | none => m

/-- The cancel channel of a dial loop fires or closes. -/
def cancelLoop (m : Manager D P) (i : TaskId) : Manager D P :=
  match m.loops i with
  | some l => m.setLoop i { l with cancelled := true }
  | none => m

/-- The watch sender of a fan-out is dropped. -/
def cancelFan (m : Manager D P) (i : TaskId) : Manager D P :=
  match m.fans i with
  | some f => m.setFan i { f with cancelled := true }
  | none => m

end Setters

/-- Every fan-out subscribed to `doc` gets the update. -/
def publish (m : Manager D P) (doc : DocId) (u : DocUpdate P) : Manager D P :=
  { m with fans := fun i => (m.fans i).map fun f => if f.doc = doc then f.publish u else f }

/-- Commit a transaction on `doc`: store the result and publish the update event. -/
def commit (m : Manager D P) (doc : DocId) (d : D) (update : Option P)
    (origin : Option DeviceId) : Manager D P :=
  let m := { m with docs := m.docs.write doc d }
  match update with
  | some u => m.publish doc ⟨u, origin⟩
  | none => m

/-- `spawn_fan_out`: subscribe, spawn the task and register its cancel handle. -/
def spawnFanOut (m : Manager D P) (scope : Scope) (doc : DocId) : Manager D P :=
  { m.setFan m.spawned (.spawn scope doc) with
    state := { m.state with fanOuts := m.state.fanOuts.insert scope m.spawned }
    spawned := m.spawned + 1 }

/-- `maybe_spawn_dialer_after`; only the side with the smaller device id dials. -/
def maybeSpawnDialer (m : Manager D P) (peerId : DeviceId) (scope : Scope) (delay : Nat) :
    Manager D P :=
  if peerId ≤ m.device.id then m
  else if m.state.wantsDialer peerId scope then
    { m.setLoop m.spawned (.spawn peerId scope m.generation delay) with
      state := { m.state with
        dialers := m.state.dialers.insert (peerId, scope) ⟨m.generation, m.spawned⟩ }
      generation := m.generation + 1
      spawned := m.spawned + 1 }
  else m

variable [Yrs D P]

/-- `join_room`: open the room, create its document when missing, start its fan-out, and
dial every discovered peer that advertises it. -/
def joinRoom (m : Manager D P) (name : String) : Manager D P × List Call :=
  if ¬ Canonical name ∨ name ∈ m.state.joined then (m, [])
  else
    let (docs, doc) := m.docs.getOrCreate (.room name)
    let m := { m with docs, state := { m.state with joined := insert name m.state.joined } }
    (m.spawnFanOut (.room name) doc,
      ((m.state.peers.toPairs.map Prod.snd).filter fun p => p.rooms.any (· == name)).map
        fun p => .maybeSpawnDialer p.deviceId (.room name) 0)

/-- Make one call: its effect, and the calls it leaves to be made next. -/
def perform (m : Manager D P) : Call → Manager D P × List Call
  | .cancelDialer l => (m.cancelLoop l, [])
  | .dropFanOut f => (m.cancelFan f, [])
  | .hangup e => (m.signalHangup e, [])
  | .emit event => (m.emit event, [])
  | .maybeSpawnDialer peerId scope delay => (m.maybeSpawnDialer peerId scope delay, [])
  | .forceClose key generation =>
    let (s, cs) := m.state.forceClose key generation
    (m.setState s, cs)
  | .setTrusted deviceId trusted =>
    let (s, cs) := m.state.setTrusted deviceId trusted
    (m.setState s, cs)
  | .joinRoom name => m.joinRoom name
  | .leaveRoom name =>
    let (s, cs) := m.state.leaveRoom name
    (m.setState s, cs)
  | .peerDiscovered peer =>
    let (s, cs) := m.state.peerDiscovered m.device.id peer
    (m.setState s, cs)
  | .peerLost deviceId =>
    let (s, cs) := m.state.peerLost deviceId
    (m.setState s, cs)
  | .docsGetOrCreate scope => ({ m with docs := (m.docs.getOrCreate scope).1 }, [])
  | .docsRemove scope => ({ m with docs := m.docs.remove scope }, [])
  | .addEntry scope entry =>
    match m.docs.get scope with
    | some doc =>
      let (d, u) := Yrs.addEntry (m.docs.heap doc) entry
      (m.commit doc d (some u) none, [])
    | none => (m, [])

/-- The registration section for connection `e`, whose task is at `fetched`. -/
def register (m : Manager D P) (e : EndId) (t : ConnTask P) (peer : Hello)
    (doc : Option DocId) (generation : Nat) : Manager D P :=
  let key := peer.key
  if m.state.accepts key then
    match doc with
    | some doc =>
      let displaced := m.state.connections.lookup key
      let m' := match m.state.redundantDialer key t.owningDialer with
        | some l => m.cancelLoop l
        | none => m
      ((m'.setState (m.state.register key e generation t.owningDialer)).setConn e
        { t with phase := .ready ⟨peer, doc, generation⟩ }).setCalls (.conn e)
          (displaced.toList.map fun old => .hangup old.task)
    -- A joined room has a document, so a miss means it was torn down mid-leave.
    | none => m.setConn e { t with phase := .aborting }
  else m.setConn e { t with phase := .aborting }

/-- `handle_frame`: the reply it demands, or `none` for a hangup. `doc` is the document
of the connection's scope. -/
def handleFrame (m : Manager D P) (doc : DocId) (peerId : DeviceId) :
    Option (Frame P) → Option (Manager D P × Option (Frame P))
  | some (.hello _) => some (m, none)
  | some (.syncStep1 stateVector) =>
    (Yrs.diff (m.docs.heap doc) stateVector).map fun diff => (m, some (.syncStep2 diff))
  | some (.syncStep2 update) | some (.update update) =>
    (Yrs.applyUpdate (m.docs.heap doc) update).map fun (d, event) =>
      (m.commit doc d event (some peerId), none)
  | none => none

/-- The body of the frame branch of `pump`, up to `try_announce`. -/
def handle (m : Manager D P) (e : EndId) (t : ConnTask P) (r : Registered) (announced : Bool)
    (payload : Option (Frame P)) : Manager D P :=
  match m.handleFrame r.doc r.peer.deviceId payload with
  | some (m, reply) =>
    m.setConn e { t with phase :=
      if announced then ConnTask.replyOrSelect r reply else .handled r reply }
  | none => m.setConn e (t.breakLoop r announced)

/-- `try_announce`, and what the frame branch of `pump` does with its answer. -/
def announce (m : Manager D P) (e : EndId) (t : ConnTask P) (r : Registered)
    (reply : Option (Frame P)) : Manager D P :=
  match m.state.tryAnnounce r.key r.generation with
  | some s =>
    ((m.setState s).emit (.peerConnected r.peer.deviceId r.peer.deviceName r.peer.scope)).setConn
      e { t with phase := ConnTask.replyOrSelect r reply }
  | none => m.setConn e (t.breakLoop r false)

/-- `try_send` to one target of `send_to_peers`. -/
def trySend (m : Manager D P) (f : TaskId) (frame : Frame P)
    (target : ConnKey × ConnectionHandle) : Manager D P :=
  match m.conns target.2.task with
  | some t =>
    if t.rxOpen then
      if t.outbound.length < outboundQueue then
        m.setConn target.2.task { t with outbound := t.outbound ++ [frame] }
      else m.setCalls (.fan f) [.forceClose target.1 target.2.generation]
    else m
  | none => m

/-- The task of connection `e`, once its thread has no call left to make. -/
def runnable (m : Manager D P) (e : EndId) : Option (ConnTask P) :=
  if m.calls (.conn e) = [] then m.conns e else none

omit [Yrs D P] in
theorem runnable_eq_some {m : Manager D P} {e : EndId} {t : ConnTask P} :
    m.runnable e = some t ↔ m.calls (.conn e) = [] ∧ m.conns e = some t := by
  unfold runnable
  split <;> simp [*]

variable [DecidableEq P]

/-- One step. -/
def step (m : Manager D P) : Action P → Option (Manager D P)
  | .invoke i command =>
    if m.calls (.caller i) = [] then some (m.setCalls (.caller i) command.calls) else none
  | .call t =>
    match m.calls t with
    | c :: cs => some ((m.perform c).1.setCalls t ((m.perform c).2 ++ cs))
    | [] => none
  | .handleInbound e =>
    if e.dialed = false ∧ (m.conns e).isNone then some (m.setConn e .inbound) else none
  | .conn e act =>
    match m.runnable e with
    | some t => (t.step m.device act).map (m.setConn e)
    | none => none
  | .fetchDoc e =>
    match m.runnable e with
    | some t =>
      match t.phase with
      | .validated peer =>
        some { m.setConn e
          { t with phase := .fetched peer (m.docs.get peer.scope) m.generation } with
          generation := m.generation + 1 }
      | _ => none
    | none => none
  | .register e =>
    match m.runnable e with
    | some t =>
      match t.phase with
      | .fetched peer doc generation => some (m.register e t peer doc generation)
      | _ => none
    | none => none
  | .sendStep1 e stateVector =>
    match m.runnable e with
    | some t =>
      match t.phase with
      | .ready r =>
        if stateVector = Yrs.stateVector (m.docs.heap r.doc) then
          some (m.setConn e { t with phase := .step1Sending r })
        else none
      | _ => none
    | none => none
  | .handleFrame e =>
    match m.runnable e with
    | some t =>
      match t.phase with
      | .received r announced payload => some (m.handle e t r announced payload)
      | _ => none
    | none => none
  | .tryAnnounce e =>
    match m.runnable e with
    | some t =>
      match t.phase with
      | .handled r reply => some (m.announce e t r reply)
      | _ => none
    | none => none
  | .finishConnection e =>
    match m.runnable e with
    | some t =>
      match t.phase with
      | .finishing r announced =>
        let (s, cs) := m.state.finishConnection r.key r.generation
        some (((m.setState s).setConn e { t with phase := .finished announced }).setCalls (.conn e)
          (cs ++ [.maybeSpawnDialer r.key.1 r.key.2 redialDelay]))
      | _ => none
    | none => none
  | .dialWake i =>
    match m.loops i with
    | some l => if l.phase = .sleeping then some (m.setLoop i { l with phase := .awake }) else none
    | none => none
  | .dialCancelled i =>
    match m.loops i with
    | some l =>
      if l.cancelled ∧ (l.phase = .sleeping ∨ l.phase = .connecting) then
        some (m.setLoop i { l with phase := .returned })
      else none
    | none => none
  | .dialTarget i =>
    match m.loops i with
    | some l =>
      if l.phase = .awake then
        some (m.setLoop i { l with phase :=
          if (m.state.dialTarget l.peerId l.scope).isSome then .connecting else .targetless })
      else none
    | none => none
  | .removeDialerEntry i =>
    match m.loops i with
    | some l =>
      if l.phase = .targetless then
        some ((m.setState (m.state.removeDialerEntry l.key l.generation)).setLoop i
          { l with phase := .returned })
      else none
    | none => none
  | .connectFailed i =>
    match m.loops i with
    | some l => if l.phase = .connecting then some (m.setLoop i (l.again none)) else none
    | none => none
  | .connected i e =>
    match m.loops i with
    | some l =>
      if l.phase = .connecting ∧ e.dialed ∧ (m.conns e).isNone then
        some ((m.setLoop i { l with phase := .running e }).setConn e (.dialed l.scope l.generation))
      else none
    | none => none
  | .redial i =>
    match m.loops i with
    | some l =>
      match l.phase with
      | .running e =>
        match m.conns e with
        | some t =>
          match t.phase with
          | .ended outcome => some (m.setLoop i (l.again (some outcome)))
          | _ => none
        | none => none
      | _ => none
    | none => none
  | .fanCancelled i =>
    match m.fans i with
    | some f =>
      if f.cancelled ∧ f.phase = .recv then some (m.setFan i { f with phase := .returned })
      else none
    | none => none
  | .fanRecv i =>
    match m.fans i with
    | some f =>
      if f.phase = .recv then
        if f.lagged then
          some (m.setFan i { f with
            lagged := false
            phase := .send (.syncStep2 (Yrs.snapshot (m.docs.heap f.doc))) none true })
        else
          match f.backlog with
          | u :: rest =>
            some (m.setFan i { f with
              backlog := rest
              phase := .send (.update u.update) u.origin false })
          | [] => none
      else none
    | none => none
  | .fanTargets i =>
    match m.fans i with
    | some f =>
      match f.phase with
      | .send frame skip lag =>
        some (m.setFan i { f with phase := .push frame (m.state.targets f.scope skip) lag })
      | _ => none
    | none => none
  | .fanPush i =>
    match m.fans i with
    | some f =>
      match f.phase with
      | .push frame (target :: rest) lag =>
        if m.calls (.fan i) = [] then
          some ((m.trySend i frame target).setFan i { f with phase := .push frame rest lag })
        else none
      | _ => none
    | none => none
  | .fanNext i =>
    match m.fans i with
    | some f =>
      match f.phase with
      | .push _ [] lag =>
        if m.calls (.fan i) = [] then
          some (m.setFan i { f with phase := if lag then .step1 else .recv })
        else none
      | .step1 =>
        some (m.setFan i { f with
          phase := .send (.syncStep1 (Yrs.stateVector (m.docs.heap f.doc))) none false })
      | _ => none
    | none => none
  | .rehash peers connections dialers =>
    if m.state.peers.SameLookups peers ∧ m.state.connections.SameLookups connections ∧
        m.state.dialers.SameLookups dialers then
      some (m.setState { m.state with peers, connections, dialers })
    else none

/-- The fields `SyncManager::new` starts from. -/
def initial (device : DeviceInfo) (trust : TrustSettings) : Manager D P where
  device
  state := ⟨trust.requirePairing, trust.allowed, trust.blocked, ∅, ∅, ∅, ∅, ∅⟩
  docs := .new
  generation := 0
  events := []
  calls _ := []
  conns _ := none
  loops _ := none
  fans _ := none
  spawned := 0

/-- `SyncManager::new`: the devices fan-out, then every seeded room joined. -/
def new (device : DeviceInfo) (trust : TrustSettings) (rooms : List String) : Manager D P :=
  rooms.foldl (fun m name => (m.joinRoom name).1) ((initial device trust).spawnFanOut .devices 0)

end Manager

/-- The runs of an instance. -/
def system (D P : Type) [Yrs D P] [DecidableEq P] (device : DeviceInfo) :
    System (Manager D P) (Action P) where
  init m := ∃ trust rooms, m = .new device trust rooms
  step m a m' := m.step a = some m'

/-- Executing actions from a new manager is a run. -/
theorem run_of_exec {D P : Type} [Yrs D P] [DecidableEq P] {device : DeviceInfo}
    {trust : TrustSettings} {rooms : List String} {as : List (Action P)} {m : Manager D P}
    (h : System.exec Manager.step (.new device trust rooms) as = some m) :
    (system D P device).Run (System.trace Manager.step (.new device trust rooms) as) m := by
  have h₀ : (system D P device).Run [] (.new device trust rooms) := .start ⟨trust, rooms, rfl⟩
  exact h₀.exec (fun _ _ _ hs => hs) h

end Yoink
