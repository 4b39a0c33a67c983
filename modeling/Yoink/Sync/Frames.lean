import Yoink.Core.Doc

/-!
# Frames of the sync protocol

The payload of a document frame is opaque (`P`). What a socket delivers is an `Incoming`:
a binary message, decoded (`none` when `Frame::decode` rejects it), or traffic that only
proves the peer is alive.
-/

namespace Yoink

/-- Peers with a different version refuse to sync. -/
def protocolVersion : Nat := 2

/-- Handshake payload exchanged as the first frame on every connection. -/
structure Hello where
  deviceId : DeviceId
  deviceName : String
  proto : Nat
  scope : Scope
  deriving DecidableEq, Repr

inductive Frame (P : Type) where
  | hello (hello : Hello)
  | syncStep1 (stateVector : P)
  | syncStep2 (update : P)
  | update (update : P)
  deriving DecidableEq, Repr

inductive Incoming (P : Type) where
  /-- A binary message, decoded if it decodes. -/
  | frame (payload : Option (Frame P))
  /-- Ping, pong or stray text. -/
  | activity
  deriving DecidableEq, Repr

namespace Frame

variable {P : Type}

def isHello : Frame P → Bool
  | .hello _ => true
  | _ => false

/-- Frames that carry document content. -/
def isContent : Frame P → Bool
  | .syncStep2 _ | .update _ => true
  | _ => false

/-- The update a frame brings. -/
def content : Frame P → Option P
  | .syncStep2 u | .update u => some u
  | _ => none

theorem content_of_not_isContent {f : Frame P} (h : f.isContent = false) : f.content = none := by
  cases f <;> first | rfl | cases h

@[simp] theorem isHello_hello (h : Hello) : (hello h : Frame P).isHello = true := rfl
@[simp] theorem isHello_syncStep1 (p : P) : (syncStep1 p).isHello = false := rfl
@[simp] theorem isHello_syncStep2 (p : P) : (syncStep2 p).isHello = false := rfl
@[simp] theorem isHello_update (p : P) : (Frame.update p).isHello = false := rfl

end Frame

/-- Connection lifecycle notifications for the app loop. -/
inductive SyncEvent where
  | peerConnected (deviceId : DeviceId) (deviceName : String) (scope : Scope)
  | peerDisconnected (deviceId : DeviceId) (scope : Scope)
  deriving DecidableEq, Repr

end Yoink
