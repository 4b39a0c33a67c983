import Yoink.Sync.State

/-!
# Tasks and the points where they are suspended

A connection task (`run_connection` with `handshake` and `pump`), a dial loop and a
fan-out are records with a phase: the point of the function the task is at. A phase is
entered when the previous await, lock section or document access is over, so every
access to shared state is a step of its own. `ConnTask.step` collects the steps
that touch nothing but the task and its socket; the others are in the manager.

Timers are not modelled: a timeout or a tick may come at any time.
-/

namespace Yoink

variable {P : Type}

/-- The registry key of a connection whose peer announced `peer`. -/
abbrev Hello.key (peer : Hello) : ConnKey := (peer.deviceId, peer.scope)

/-- Identity and document of a validated connection, for the frame loop. -/
structure Registered where
  peer : Hello
  doc : DocId
  generation : Nat
  deriving DecidableEq, Repr

/-- The registry key a registered connection was entered under. -/
def Registered.key (r : Registered) : ConnKey := r.peer.key

/-- How a connection ended, from the dialer's perspective. -/
inductive ConnectionOutcome where
  | established
  | failed
  deriving DecidableEq, Repr

/-- Where `run_connection` is. `announced` is the local of `pump`. -/
inductive Phase (P : Type) where
  /-- Dialed: the HELLO is to be sent. -/
  | helloSend
  /-- `await_hello`. -/
  | helloWait
  /-- Inbound: the peer's HELLO is in, ours is to be sent. -/
  | helloEcho (peer : Hello)
  /-- `validate_peer` passed; the document is to be fetched. -/
  | validated (peer : Hello)
  /-- Document and generation in hand; the registration section is next. -/
  | fetched (peer : Hello) (doc : Option DocId) (generation : Nat)
  /-- Refused before or at registration: the socket is being closed. -/
  | aborting
  /-- Registered; the state vector for SYNC_STEP_1 is to be taken. -/
  | ready (r : Registered)
  /-- The write of SYNC_STEP_1 is in progress. -/
  | step1Sending (r : Registered)
  /-- `pump` waits in its select. -/
  | select (r : Registered) (announced : Bool)
  /-- A binary message was read; `handle_frame` is next. -/
  | received (r : Registered) (announced : Bool) (payload : Option (Frame P))
  /-- The first frame was handled; `try_announce` is next. -/
  | handled (r : Registered) (reply : Option (Frame P))
  /-- `send_or_hangup` entered; a `none` frame is a ping. -/
  | sendOrHangup (r : Registered) (announced : Bool) (frame : Option (Frame P))
  /-- Its select has not seen the hangup; the write is about to be started. -/
  | starting (r : Registered) (announced : Bool) (frame : Option (Frame P))
  /-- The write inside `send_or_hangup` is in progress. -/
  | sending (r : Registered) (announced : Bool) (frame : Option (Frame P))
  /-- `pump` returned or was never entered; the socket is being closed. -/
  | closing (r : Registered) (announced : Bool)
  /-- The socket is closed; `finish_connection` is next. -/
  | finishing (r : Registered) (announced : Bool)
  /-- The entry is dealt with; the event and the redial are still to be made. -/
  | finished (announced : Bool)
  | ended (outcome : ConnectionOutcome)
  deriving DecidableEq, Repr

namespace Phase

/-- The registered connection a phase between registration and teardown drives. -/
def registered : Phase P → Option Registered
  | .ready r | .step1Sending r | .select r _ | .received r _ _ | .handled r _
  | .sendOrHangup r _ _ | .starting r _ _ | .sending r _ _ | .closing r _ | .finishing r _ =>
    some r
  | _ => none

/-- The generation the task holds. -/
def generation : Phase P → Option Nat
  | .fetched _ _ g => some g
  | p => p.registered.map (·.generation)

/-- The peer's HELLO, once it is in. -/
def hello : Phase P → Option Hello
  | .helloEcho peer | .validated peer | .fetched peer _ _ => some peer
  | p => p.registered.map (·.peer)

/-- The frame a task holds and is about to write, or is writing. -/
def frame : Phase P → Option (Frame P)
  | .handled _ reply => reply
  | .sendOrHangup _ _ frame | .starting _ _ frame | .sending _ _ frame => frame
  | _ => none

/-- The phases before registration. -/
def pending : Phase P → Bool
  | .helloSend | .helloWait | .helloEcho _ | .validated _ | .fetched _ _ _ => true
  | _ => false

/-- The frame loop: registered, SYNC_STEP_1 on its way or out, and not yet tearing down. -/
def live : Phase P → Bool
  | .ready _ | .step1Sending _ | .select _ _ | .received _ _ _ | .handled _ _
  | .sendOrHangup _ _ _ | .starting _ _ _ | .sending _ _ _ => true
  | _ => false

end Phase

/-- A task running `run_connection`. -/
structure ConnTask (P : Type) where
  dialedScope : Option Scope
  owningDialer : Option Nat
  phase : Phase P
  /-- The `outbound` queue between the registry handle and the frame loop. -/
  outbound : List (Frame P)
  /-- Whether the queue's receiver still exists. -/
  rxOpen : Bool
  /-- The value of the `hangup` watch. -/
  hangup : Bool
  deriving DecidableEq, Repr

/-- `OUTBOUND_QUEUE`. -/
def outboundQueue : Nat := 256

/-- The capacity of a document's broadcast channel. -/
def updateBacklog : Nat := 256

namespace ConnTask

/-- `handle_inbound`. -/
def inbound : ConnTask P := ⟨none, none, .helloWait, [], true, false⟩

/-- The connection of a dial loop. -/
def dialed (scope : Scope) (owner : Nat) : ConnTask P :=
  ⟨some scope, some owner, .helloSend, [], true, false⟩

/-- `hello_frame`. -/
def helloFrame (device : DeviceInfo) (scope : Scope) : Hello :=
  ⟨device.id, device.name, protocolVersion, scope⟩

/-- `validate_peer`: the version, our own id looping back, the scope we dialed. -/
def validatePeer (device : DeviceInfo) (dialedScope : Option Scope) (peer : Hello) : Bool :=
  decide (peer.proto = protocolVersion) && decide (peer.deviceId ≠ device.id) &&
    dialedScope.all (· = peer.scope)

/-- Where a completed HELLO exchange leads. -/
def validate (device : DeviceInfo) (dialedScope : Option Scope) (peer : Hello) : Phase P :=
  if validatePeer device dialedScope peer then .validated peer else .aborting

/-- Leaving the frame loop drops the queue's receiver. -/
def breakLoop (t : ConnTask P) (r : Registered) (announced : Bool) : ConnTask P :=
  { t with phase := .closing r announced, rxOpen := false }

/-- After a handled frame: send the reply it demands, or wait for the next event. -/
def replyOrSelect (r : Registered) (reply : Option (Frame P)) : Phase P :=
  match reply with
  | some frame => .sendOrHangup r true (some frame)
  | none => .select r true

/-- Steps of a connection task that involve only its own socket, timers and channels. -/
inductive Act (P : Type) where
  /-- `socket.send` of our HELLO succeeds. -/
  | sendHello (hello : Hello)
  /-- It fails. -/
  | sendHelloFailed
  /-- `socket.recv` yields. -/
  | recv (incoming : Incoming P)
  /-- `socket.recv` returns `None`. -/
  | recvNone
  /-- HELLO_TIMEOUT, or the keepalive deadline in the frame loop. -/
  | timeout
  /-- The bare write of SYNC_STEP_1 ends. -/
  | step1Sent (ok : Bool)
  /-- The hangup branch of the select. -/
  | hangupSignalled
  | pingTick
  /-- `outbound_rx.recv` yields a frame. -/
  | dequeue (frame : Frame P)
  /-- First poll of `send_or_hangup`: its biased select sees the hangup. -/
  | sendRefused
  /-- It sees none. -/
  | sendAllowed
  /-- The write is started, whatever the watch says by now. -/
  | startSend (frame : Option (Frame P))
  /-- The write inside `send_or_hangup` ends by itself. -/
  | sent (ok : Bool)
  /-- A later poll of `send_or_hangup` sees the hangup and gives the write up. -/
  | sendHangup
  /-- `close_socket` is done. -/
  | closed
  /-- `run_connection` returns. -/
  | returned
  deriving DecidableEq, Repr

/-- The protocol frame an act starts to write. -/
def Act.sends : Act P → Option (Frame P)
  | .sendHello hello => some (.hello hello)
  | .startSend frame => frame
  | _ => none

/-- The binary message an act takes from the socket. -/
def Act.reads : Act P → Option (Option (Frame P))
  | .recv (.frame payload) => some payload
  | _ => none

/-- One local step. The `None` branch of `outbound_rx.recv` needs every sender dropped, which
only happens after the hangup was signalled; it is then the hangup branch. -/
def step [DecidableEq P] (t : ConnTask P) (device : DeviceInfo) : Act P → Option (ConnTask P)
  | .sendHello hello =>
    match t.phase, t.dialedScope with
    | .helloSend, some scope =>
      if hello = helloFrame device scope then some { t with phase := .helloWait } else none
    | .helloEcho peer, _ =>
      if hello = helloFrame device peer.scope then
        some { t with phase := validate device t.dialedScope peer }
      else none
    | _, _ => none
  | .sendHelloFailed =>
    match t.phase with
    | .helloSend => some { t with phase := .ended .failed, rxOpen := false }
    | .helloEcho _ => some { t with phase := .aborting }
    | _ => none
  | .recv incoming =>
    match t.phase, incoming with
    | .helloWait, .activity => some t
    | .helloWait, .frame (some (.hello peer)) =>
      some { t with phase :=
        if t.dialedScope.isSome then validate device t.dialedScope peer else .helloEcho peer }
    | .helloWait, .frame _ => some { t with phase := .aborting }
    | .select _ _, .activity => some t
    | .select r a, .frame payload => some { t with phase := .received r a payload }
    | _, _ => none
  | .recvNone =>
    match t.phase with
    | .helloWait => some { t with phase := .aborting }
    | .select r a => some (t.breakLoop r a)
    | _ => none
  | .timeout =>
    match t.phase with
    | .helloWait => some { t with phase := .aborting }
    | .select r a => some (t.breakLoop r a)
    | _ => none
  | .step1Sent ok =>
    match t.phase with
    | .step1Sending r =>
      -- A failed write skips `pump`, whose return is what drops the receiver.
      some { t with phase := if ok then .select r false else .closing r false }
    | _ => none
  | .hangupSignalled =>
    match t.phase with
    | .select r a => if t.hangup then some (t.breakLoop r a) else none
    | _ => none
  | .pingTick =>
    match t.phase with
    | .select r a => some { t with phase := .sendOrHangup r a none }
    | _ => none
  | .dequeue frame =>
    match t.phase, t.outbound with
    | .select r a, f :: rest =>
      if frame = f then some { t with phase := .sendOrHangup r a (some f), outbound := rest }
      else none
    | _, _ => none
  | .sendRefused =>
    match t.phase with
    | .sendOrHangup r a _ => if t.hangup then some (t.breakLoop r a) else none
    | _ => none
  | .sendAllowed =>
    match t.phase with
    | .sendOrHangup r a f => if t.hangup then none else some { t with phase := .starting r a f }
    | _ => none
  | .startSend frame =>
    match t.phase with
    | .starting r a f => if frame = f then some { t with phase := .sending r a f } else none
    | _ => none
  | .sent ok =>
    match t.phase with
    | .sending r a _ => some (if ok then { t with phase := .select r a } else t.breakLoop r a)
    | _ => none
  | .sendHangup =>
    match t.phase with
    | .sending r a _ => if t.hangup then some (t.breakLoop r a) else none
    | _ => none
  | .closed =>
    match t.phase with
    | .aborting => some { t with phase := .ended .failed, rxOpen := false }
    | .closing r a => some { t with phase := .finishing r a }
    | _ => none
  | .returned =>
    match t.phase with
    | .finished a =>
      some { t with phase := .ended (if a then .established else .failed), rxOpen := false }
    | _ => none

end ConnTask

/-- Where `dial_loop` is. -/
inductive DialPhase where
  /-- The select between `cancelled` and the sleep. -/
  | sleeping
  /-- `dial_target` is next. -/
  | awake
  /-- There is no target any more: `remove_dialer_entry` is next. -/
  | targetless
  /-- The select between `cancelled` and `try_connect`. -/
  | connecting
  /-- Inside `run_connection`. -/
  | running (task : EndId)
  | returned
  deriving DecidableEq, Repr

/-- A running dial loop; durations are in seconds. -/
structure DialLoop where
  peerId : DeviceId
  scope : Scope
  generation : Nat
  /-- `cancel` was sent on or its sender dropped. -/
  cancelled : Bool
  delay : Nat
  backoff : Nat
  phase : DialPhase
  deriving DecidableEq, Repr

/-- `INITIAL_BACKOFF`, `MAX_BACKOFF` and `REDIAL_DELAY`. -/
def initialBackoff : Nat := 1
def maxBackoff : Nat := 30
def redialDelay : Nat := initialBackoff

namespace DialLoop

def key (l : DialLoop) : ConnKey := (l.peerId, l.scope)

/-- The start of `dial_loop`: a zero delay skips the first sleep. -/
def spawn (peerId : DeviceId) (scope : Scope) (generation delay : Nat) : DialLoop :=
  ⟨peerId, scope, generation, false, delay, initialBackoff,
    if delay = 0 then .awake else .sleeping⟩

section Spawn

variable (peerId : DeviceId) (scope : Scope) (generation delay : Nat)

@[simp] theorem spawn_key : (spawn peerId scope generation delay).key = (peerId, scope) := rfl

@[simp] theorem spawn_generation :
    (spawn peerId scope generation delay).generation = generation := rfl

@[simp] theorem spawn_cancelled : (spawn peerId scope generation delay).cancelled = false := rfl

@[simp] theorem spawn_phase_ne_running (e : EndId) :
    (spawn peerId scope generation delay).phase ≠ .running e := by
  unfold spawn
  split <;> simp

@[simp] theorem spawn_phase_ne_returned :
    (spawn peerId scope generation delay).phase ≠ .returned := by
  unfold spawn
  split <;> simp

end Spawn

/-- The end of an attempt: an established connection resets the backoff. -/
def again (l : DialLoop) (outcome : Option ConnectionOutcome) : DialLoop :=
  match outcome with
  | some .established =>
    { l with backoff := initialBackoff, delay := redialDelay, phase := .sleeping }
  | _ =>
    { l with delay := l.backoff, backoff := min (l.backoff * 2) maxBackoff, phase := .sleeping }

end DialLoop

/-- Where a fan-out is. `lag` marks the first of the two rounds of a lag repair. -/
inductive FanPhase (P : Type) where
  /-- The select between `cancel` and `updates.recv`. -/
  | recv
  /-- `send_to_peers` entered: the targets are to be collected. -/
  | send (frame : Frame P) (skipOrigin : Option DeviceId) (lag : Bool)
  /-- `try_send` to the remaining targets. -/
  | push (frame : Frame P) (targets : List (ConnKey × ConnectionHandle)) (lag : Bool)
  /-- Lag repair: the state vector for the second round is to be taken. -/
  | step1
  | returned
  deriving DecidableEq

/-- The frame a fan-out is handing out. -/
def FanPhase.frame : FanPhase P → Option (Frame P)
  | .send frame _ _ | .push frame _ _ => some frame
  | _ => none

/-- A fan-out task: `doc` is the document it subscribed to and `backlog` the updates its
receiver has not taken yet; `lagged` once the channel has overwritten some of them. -/
structure FanOut (P : Type) where
  scope : Scope
  doc : DocId
  cancelled : Bool
  backlog : List (DocUpdate P)
  lagged : Bool
  phase : FanPhase P
  deriving DecidableEq

namespace FanOut

def spawn (scope : Scope) (doc : DocId) : FanOut P := ⟨scope, doc, false, [], false, .recv⟩

/-- The broadcast channel keeps the newest `updateBacklog` updates a receiver has not taken. -/
def publish (f : FanOut P) (u : DocUpdate P) : FanOut P :=
  if f.backlog.length < updateBacklog then { f with backlog := f.backlog ++ [u] }
  else { f with backlog := f.backlog.tail ++ [u], lagged := true }

end FanOut

end Yoink
