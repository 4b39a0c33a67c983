import Yoink.Sync.Frames
import Mathlib.Data.Finset.Basic

/-!
# The registry behind the state lock

`State` is what the manager's mutex protects. A critical section is a function on it
that also returns the calls its caller still has to make once the lock is released: hanging
up a connection it removed, cancelling a dial loop, emitting an event, dialing. A caller
makes them one at a time, so another task may run between any two of them.

Channels are named by the task that holds the receiving half: a connection handle by
its socket end, a dial loop and a fan-out by the id of the spawned task.
-/

namespace Yoink

/-- One end of a socket: `dialed` at the instance that opened it. -/
structure EndId where
  sock : Nat
  dialed : Bool
  deriving DecidableEq, Repr

/-- The other end of the socket. -/
def EndId.flip (e : EndId) : EndId := ⟨e.sock, !e.dialed⟩

@[simp] theorem EndId.flip_sock (e : EndId) : e.flip.sock = e.sock := rfl
@[simp] theorem EndId.flip_dialed (e : EndId) : e.flip.dialed = !e.dialed := rfl
@[simp] theorem EndId.flip_flip (e : EndId) : e.flip.flip = e := by simp [EndId.flip]

/-- Id of a spawned task. -/
abbrev TaskId := Nat

/-- Connections and dial loops are keyed per peer and scope. -/
abbrev ConnKey := DeviceId × Scope

/-- What discovery reports of a peer, as far as dialing decisions read it. -/
structure PeerInfo where
  deviceId : DeviceId
  rooms : List String
  deriving DecidableEq, Repr

structure ConnectionHandle where
  generation : Nat
  /-- The connection task holding the receivers of `outbound` and `hangup`. -/
  task : EndId
  announced : Bool
  deriving DecidableEq, Repr

structure DialerHandle where
  generation : Nat
  /-- The dial loop holding the receiver of `cancel`. -/
  loop : TaskId
  deriving DecidableEq, Repr

/-- The personal-scope trust model and its persisted lists. -/
structure TrustSettings where
  requirePairing : Bool
  allowed : Finset DeviceId
  blocked : Finset DeviceId

structure State where
  requirePairing : Bool
  allowed : Finset DeviceId
  blocked : Finset DeviceId
  joined : Finset String
  peers : FinMap DeviceId PeerInfo
  connections : FinMap ConnKey ConnectionHandle
  dialers : FinMap ConnKey DialerHandle
  fanOuts : FinMap Scope TaskId

/-- What a caller does outside the lock, one step at a time. The first group are the
effects a critical section leaves to its caller, the second the operations themselves. -/
inductive Call where
  /-- `dialer.cancel.send(())`, then the handle is dropped. -/
  | cancelDialer (loop : TaskId)
  /-- Dropping a fan-out's watch sender. -/
  | dropFanOut (fan : TaskId)
  /-- `handle.hangup.send(true)`. -/
  | hangup (task : EndId)
  | emit (event : SyncEvent)
  | maybeSpawnDialer (peerId : DeviceId) (scope : Scope) (delay : Nat)
  | forceClose (key : ConnKey) (generation : Nat)
  | setTrusted (deviceId : DeviceId) (trusted : Bool)
  | joinRoom (name : String)
  | leaveRoom (name : String)
  | peerDiscovered (peer : PeerInfo)
  | peerLost (deviceId : DeviceId)
  | docsGetOrCreate (scope : Scope)
  | docsRemove (scope : Scope)
  | addEntry (scope : Scope) (entry : ClipEntry)
  deriving DecidableEq, Repr

/-- `drop_connection`: hang the connection up, and emit the disconnect it owes. -/
def dropConnection (key : ConnKey) (handle : ConnectionHandle) : List Call :=
  .hangup handle.task ::
    if handle.announced then [.emit (.peerDisconnected key.1 key.2)] else []

namespace State

/-- Whether `deviceId` may sync the personal clipboard under the active trust model. -/
def devicesTrusted (s : State) (deviceId : DeviceId) : Bool :=
  if s.requirePairing then decide (deviceId ∈ s.allowed) else decide (deviceId ∉ s.blocked)

/-- The admission rule of registration: trust for `devices`, membership for a room. -/
def accepts (s : State) (key : ConnKey) : Bool :=
  match key.2 with
  | .devices => s.devicesTrusted key.1
  | .room name => decide (name ∈ s.joined)

/-- Whether `scope` should be dialed for `peer` at all. -/
def scopeEligible (s : State) (peer : PeerInfo) (scope : Scope) : Bool :=
  match scope with
  | .devices => s.devicesTrusted peer.deviceId
  | .room name => decide (name ∈ s.joined) && peer.rooms.any (· == name)

/-- The list edit of `set_trusted`. -/
def setTrust (s : State) (deviceId : DeviceId) (trusted : Bool) : State :=
  if s.requirePairing then
    if trusted then { s with allowed := insert deviceId s.allowed }
    else { s with allowed := s.allowed.erase deviceId }
  else if trusted then { s with blocked := s.blocked.erase deviceId }
  else { s with blocked := insert deviceId s.blocked }

/-- `set_trusted`: edit the active list; when the device ends up distrusted, take its
devices connection and dialer out of the registry. -/
def setTrusted (s : State) (deviceId : DeviceId) (trusted : Bool) : State × List Call :=
  let key : ConnKey := (deviceId, .devices)
  let s := s.setTrust deviceId trusted
  if s.devicesTrusted deviceId then (s, [.maybeSpawnDialer deviceId .devices 0])
  else
    ({ s with connections := s.connections.erase key, dialers := s.dialers.erase key },
      ((s.dialers.lookup key).toList.map fun d => Call.cancelDialer d.loop) ++
        (s.connections.lookup key).toList.flatMap (dropConnection key))

/-- `leave_room`: close the room and take everything keyed by its scope out. -/
def leaveRoom (s : State) (name : String) : State × List Call :=
  let scope : Scope := .room name
  if name ∈ s.joined then
    ({ s with
        joined := s.joined.erase name
        fanOuts := s.fanOuts.erase scope
        dialers := s.dialers.filter fun k => !decide (k.2 = scope)
        connections := s.connections.filter fun k => !decide (k.2 = scope) },
      ((s.fanOuts.lookup scope).toList.map .dropFanOut) ++
        ((s.dialers.filter fun k => decide (k.2 = scope)).toPairs.map
          fun d => Call.cancelDialer d.2.loop) ++
        (s.connections.filter fun k => decide (k.2 = scope)).toPairs.flatMap
          fun c => dropConnection c.1 c.2)
  else (s, [])

/-- `peer_discovered`: remember the peer; dial it in `devices` and every room it shares. -/
def peerDiscovered (s : State) (ownId : DeviceId) (peer : PeerInfo) : State × List Call :=
  if peer.deviceId = ownId then (s, [])
  else
    ({ s with peers := s.peers.insert peer.deviceId peer },
      (Scope.devices :: (peer.rooms.filter (· ∈ s.joined)).map .room).map
        fun scope => .maybeSpawnDialer peer.deviceId scope 0)

/-- `peer_lost`: forget the peer and stop its dial loops; connections are left alone. -/
def peerLost (s : State) (deviceId : DeviceId) : State × List Call :=
  ({ s with
      peers := s.peers.erase deviceId
      dialers := s.dialers.filter fun k => !decide (k.1 = deviceId) },
    (s.dialers.filter fun k => decide (k.1 = deviceId)).toPairs.map
      fun d => .cancelDialer d.2.loop)

/-- `force_close`: take the connection out if `generation` still identifies it. -/
def forceClose (s : State) (key : ConnKey) (generation : Nat) : State × List Call :=
  match s.connections.lookup key with
  | some handle =>
    if handle.generation = generation then
      ({ s with connections := s.connections.erase key }, dropConnection key handle)
    else (s, [])
  | none => (s, [])

/-- The registry part of `finish_connection`: a task removes only its own entry. -/
def finishConnection (s : State) (key : ConnKey) (generation : Nat) : State × List Call :=
  match s.connections.lookup key with
  | some handle =>
    if handle.generation = generation then
      ({ s with connections := s.connections.erase key },
        if handle.announced then [.emit (.peerDisconnected key.1 key.2)] else [])
    else (s, [])
  | none => (s, [])

/-- `try_announce`: mark the entry announced iff it is still this connection's. -/
def tryAnnounce (s : State) (key : ConnKey) (generation : Nat) : Option State :=
  match s.connections.lookup key with
  | some handle =>
    if handle.generation = generation then
      some { s with connections := s.connections.insert key { handle with announced := true } }
    else none
  | none => none

/-- Registration of an accepted connection that found its document. The displaced entry's
`announced` carries over, and a dial loop other than the one driving us is dropped. -/
def register (s : State) (key : ConnKey) (task : EndId) (generation : Nat)
    (owningDialer : Option Nat) : State :=
  let announced := (s.connections.lookup key).any (·.announced)
  let redundant := (s.dialers.lookup key).any fun d => some d.generation ≠ owningDialer
  { s with
    connections := (s.connections.erase key).insert key ⟨generation, task, announced⟩
    dialers := if redundant then s.dialers.erase key else s.dialers }

/-- The dial loop whose handle registration drops. -/
def redundantDialer (s : State) (key : ConnKey) (owningDialer : Option Nat) : Option TaskId :=
  match s.dialers.lookup key with
  | some d => if some d.generation ≠ owningDialer then some d.loop else none
  | none => none

/-- Whether `maybe_spawn_dialer_after` finds the pair eligible, unconnected and undialed. -/
def wantsDialer (s : State) (peerId : DeviceId) (scope : Scope) : Bool :=
  (s.peers.lookup peerId).any (fun peer => s.scopeEligible peer scope) &&
    (s.connections.lookup (peerId, scope)).isNone && (s.dialers.lookup (peerId, scope)).isNone

/-- `dial_target`: the peer as it is known now, iff dialing it should continue. -/
def dialTarget (s : State) (peerId : DeviceId) (scope : Scope) : Option PeerInfo :=
  if (s.connections.lookup (peerId, scope)).isSome then none
  else (s.peers.lookup peerId).filter fun peer => s.scopeEligible peer scope

/-- `remove_dialer_entry`: a loop removes only its own entry. -/
def removeDialerEntry (s : State) (key : ConnKey) (generation : Nat) : State :=
  if (s.dialers.lookup key).any fun d => d.generation = generation then
    { s with dialers := s.dialers.erase key }
  else s

/-- `connected`: device ids with an announced connection in `scope`. -/
def connected (s : State) (scope : Scope) : Finset DeviceId :=
  ((s.connections.toPairs.filter fun c => c.1.2 = scope && c.2.announced).map
    fun c => c.1.1).toFinset

/-- The targets `send_to_peers` collects: every connection in `scope` except to
`skipOrigin`. -/
def targets (s : State) (scope : Scope) (skipOrigin : Option DeviceId) :
    List (ConnKey × ConnectionHandle) :=
  s.connections.toPairs.filter fun c => c.1.2 = scope && decide (skipOrigin ≠ some c.1.1)

end State

end Yoink
