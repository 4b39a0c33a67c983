import Yoink.App.Config
import Yoink.Sync.Manager

/-!
# The handlers of the app loop

`App` is what the loop owns. A handler reads the documents and the sync manager
(`DocsView`, `SyncView`) and yields a `Reaction`: the loop's own fields afterwards, the operation
it performs on documents and sync, and the text it hands to the clipboard. Nobody else writes the
loop's own fields, so a handler's edits to them are one step.
-/

namespace Yoink

/-- How clipboard text moves between devices. -/
inductive ShareMode where
  | manual
  | autoShare
  | mirror
  deriving DecidableEq, Repr

namespace ShareMode

def capturesClipboard : ShareMode → Bool
  | .autoShare | .mirror => true
  | .manual => false

def autoApplies : ShareMode → Bool
  | .mirror => true
  | .manual | .autoShare => false

end ShareMode

/-- How many of the newest entries a clipboard copy is deduplicated against. -/
def copyDedupeWindow : Nat := 3

def isDuplicate (text : String) (recent : List String) : Bool := recent.any (· == text)

/-- Texts of the `n` most recent entries, newest first. -/
def recentTexts (entries : List ClipEntry) (n : Nat) : List String :=
  (entries.reverse.take n).map (·.text)

/-- Auto-apply freshness window, in milliseconds. -/
def autoApplyMaxAge : Nat := 30000

/-- Inputs for deciding whether the latest entry is written to the OS clipboard. -/
structure AutoApplyCheck where
  autoApply : Bool
  clipboardAvailable : Bool
  selfDeviceId : DeviceId
  entryDeviceId : DeviceId
  entryId : String
  lastAppliedEntryId : Option String
  entryCreatedAtMs : Nat
  nowMs : Nat

def AutoApplyCheck.shouldApply (check : AutoApplyCheck) : Bool :=
  -- `abs_diff`: an entry stamped in the future is treated the same.
  let fresh := decide (check.nowMs - check.entryCreatedAtMs +
    (check.entryCreatedAtMs - check.nowMs) ≤ autoApplyMaxAge)
  check.autoApply && check.clipboardAvailable && fresh &&
    decide (check.entryDeviceId ≠ check.selfDeviceId) &&
    decide (check.lastAppliedEntryId ≠ some check.entryId)

/-- What `AddEntry` does besides appending to the document of its scope. -/
structure AddEntryPlan where
  addToDoc : Bool
  mirrorToClipboard : Bool

def planAddEntry (scope : Scope) (duplicateOfLatest : Bool) : AddEntryPlan where
  addToDoc := !duplicateOfLatest
  mirrorToClipboard := scope.isDevices

/-- A peer as discovery announces it. -/
structure Announcement extends PeerInfo where
  name : String
  deriving DecidableEq, Repr

/-- A peer as the UI should see it. -/
structure PeerView where
  info : Announcement
  /-- Whether the peer is currently advertising on the network. -/
  online : Bool
  deriving DecidableEq, Repr

/-- Registry policy when a peer's announcement disappears. -/
def registryOnLost (peers : FinMap DeviceId PeerView) (deviceId : DeviceId) (keep : Bool) :
    FinMap DeviceId PeerView :=
  if keep then
    match peers.lookup deviceId with
    | some view => peers.insert deviceId { view with online := false }
    | none => peers
  else peers.erase deviceId

/-- The UI's only mutation path. -/
inductive AppCommand where
  | setDeviceTrusted (deviceId : DeviceId) (trusted : Bool)
  | addEntry (text : String) (scope : Scope)
  | copyEntry (id : String) (scope : Scope)
  | joinRoom (name : String)
  | leaveRoom (name : String)
  deriving DecidableEq, Repr

/-- What the loop selects over. -/
inductive Event (P : Type) where
  /-- `ClipboardEvent::Copied`. -/
  | copied (text : String)
  | docUpdate (scope : Scope) (update : DocUpdate P)
  | docLagged
  | found (peer : Announcement)
  | lost (deviceId : DeviceId)
  | sync (event : SyncEvent)
  | command (command : AppCommand)

/-- What a handler takes from its surroundings: the clock, the id of an entry it creates and
whether the clipboard worker is alive. -/
structure Env where
  nowMs : Nat
  entryId : String
  clipboardAvailable : Bool
  deriving DecidableEq, Repr

/-- The histories the handlers read. -/
structure DocsView where
  devices : List ClipEntry
  room : String → Option (List ClipEntry)

/-- `docs.get(scope)` and the entries of the document. -/
def DocsView.get (docs : DocsView) : Scope → Option (List ClipEntry)
  | .devices => some docs.devices
  | .room name => docs.room name

/-- What the handlers ask the sync manager. -/
structure SyncView where
  requirePairing : Bool
  isExplicitlyListed : DeviceId → Bool
  /-- `connected(&Scope::Devices)`. -/
  connected : Finset DeviceId

structure App where
  device : DeviceInfo
  autoCapture : Bool
  autoApply : Bool
  advertiseRooms : Bool
  peers : FinMap DeviceId PeerView
  /-- Mirror of the joined room names for the server. -/
  joinedRooms : Finset String
  config : Config
  /-- Id of the last remote entry written to the OS clipboard. -/
  lastAppliedEntryId : Option String
  configDirty : Bool
  /-- The scopes a forwarder task is running for. -/
  forwarders : Finset Scope
  /-- What `discovery` was last told to announce. -/
  advertised : List String

/-- What a handler does. -/
structure Reaction where
  app : App
  /-- The operation on documents and sync. -/
  command : Option Command := none
  /-- `clipboard.set_text`. -/
  setText : Option String := none

namespace App

def persistConfig (app : App) : App := { app with configDirty := true }

def announceRooms (app : App) : App :=
  { app with advertised := if app.advertiseRooms then app.config.rooms else [] }

/-- The entry `add_entry` creates. -/
def entry (app : App) (env : Env) (text : String) : ClipEntry where
  id := env.entryId
  deviceId := app.device.id
  deviceName := app.device.name
  text
  createdAtMs := env.nowMs

/-- Clipboard capture is hard-wired to the devices scope. -/
def onClipboard (app : App) (docs : DocsView) (env : Env) (text : String) : Reaction :=
  if !app.autoCapture then { app }
  else if isDuplicate text (recentTexts docs.devices copyDedupeWindow) then { app }
  else { app, command := some (.addEntry .devices (app.entry env text)) }

/-- Auto-apply: the latest entry of the devices document, if a peer's update brought it. -/
def onDocUpdate {P : Type} (app : App) (docs : DocsView) (env : Env) (scope : Scope)
    (update : DocUpdate P) : Reaction :=
  if scope.isDevices && update.origin.isSome then
    match docs.devices.getLast? with
    | some entry =>
      let check : AutoApplyCheck := {
        autoApply := app.autoApply
        clipboardAvailable := env.clipboardAvailable
        selfDeviceId := app.device.id
        entryDeviceId := entry.deviceId
        entryId := entry.id
        lastAppliedEntryId := app.lastAppliedEntryId
        entryCreatedAtMs := entry.createdAtMs
        nowMs := env.nowMs }
      if check.shouldApply then
        { app := { app with lastAppliedEntryId := some entry.id }, setText := some entry.text }
      else { app }
    | none => { app }
  else { app }

def onFound (app : App) (peer : Announcement) : Reaction where
  app := { app with peers := app.peers.insert peer.deviceId ⟨peer, true⟩ }
  command := some (.peerDiscovered peer.toPeerInfo)

/-- A peer worth keeping, by a live connection or an explicit listing, goes offline; anyone else
is removed. -/
def onLost (app : App) (sync : SyncView) (deviceId : DeviceId) : Reaction :=
  let keep := sync.isExplicitlyListed deviceId || decide (deviceId ∈ sync.connected)
  { app := { app with peers := registryOnLost app.peers deviceId keep }
    command := some (.peerLost deviceId) }

/-- A devices connection seeds the registry from its HELLO. -/
def onSync (app : App) : SyncEvent → Reaction
  | .peerConnected deviceId deviceName scope =>
    if scope.isDevices then
      let view : PeerView :=
        match app.peers.lookup deviceId with
        | some view => { view with info := { view.info with name := deviceName }, online := true }
        | none => ⟨⟨⟨deviceId, []⟩, deviceName⟩, true⟩
      { app := { app with peers := app.peers.insert deviceId view } }
    else { app }
  | .peerDisconnected _ _ => { app }

/-- Joining canonicalises the name and is idempotent. -/
def joinRoom (app : App) (raw : String) : Reaction :=
  match sanitizeRoomName raw with
  | none => { app }
  | some name =>
    if app.config.hasRoom name then { app }
    else
      let app := { app with
        forwarders := insert (Scope.room name) app.forwarders
        joinedRooms := insert name app.joinedRooms
        config := app.config.insertRoom name }
      { app := app.persistConfig.announceRooms, command := some (.appJoinRoom raw) }

def leaveRoom (app : App) (raw : String) : Reaction :=
  match sanitizeRoomName raw with
  | none => { app }
  | some name =>
    if !app.config.hasRoom name then { app }
    else
      let app := { app with
        forwarders := app.forwarders.erase (.room name)
        joinedRooms := app.joinedRooms.erase name
        config := app.config.removeRoom name }
      { app := app.persistConfig.announceRooms, command := some (.appLeaveRoom raw) }

def onCommand (app : App) (docs : DocsView) (sync : SyncView) (env : Env) : AppCommand → Reaction
  | .setDeviceTrusted deviceId trusted =>
    let app := { app with config := app.config.persistTrust sync.requirePairing deviceId trusted }
    { app := app.persistConfig, command := some (.setTrusted deviceId trusted) }
  | .addEntry text scope =>
    match docs.get scope with
    | none => { app }
    | some entries =>
      -- Deliberate adds only dedupe against the latest entry.
      let plan := planAddEntry scope (isDuplicate text (recentTexts entries 1))
      { app
        command := if plan.addToDoc then some (.addEntry scope (app.entry env text)) else none
        setText := if plan.mirrorToClipboard then some text else none }
  | .copyEntry id scope =>
    match docs.get scope with
    | none => { app }
    | some entries =>
      match entries.find? (·.id == id) with
      | some entry => { app, setText := some entry.text }
      | none => { app }
  | .joinRoom name => app.joinRoom name
  | .leaveRoom name => app.leaveRoom name

/-- One turn of the loop. -/
def handle {P : Type} (app : App) (docs : DocsView) (sync : SyncView) (env : Env) :
    Event P → Reaction
  | .copied text => app.onClipboard docs env text
  | .docUpdate scope update => app.onDocUpdate docs env scope update
  | .docLagged => { app }
  | .found peer => app.onFound peer
  | .lost deviceId => app.onLost sync deviceId
  | .sync event => app.onSync event
  | .command command => app.onCommand docs sync env command

/-- What the handler of an event makes of the loop's fields, and the operation it asks for. -/
inductive Reacts {P : Type} (app : App) (sync : SyncView) : Event P → Reaction → Prop where
  | nothing {event : Event P} (text : Option String) :
      Reacts app sync event { app, setText := text }
  | add {event : Event P} (scope : Scope) (entry : ClipEntry) (text : Option String) :
      Reacts app sync event { app, command := some (.addEntry scope entry), setText := text }
  | applied {scope : Scope} {update : DocUpdate P} (entry : ClipEntry) :
      Reacts app sync (.docUpdate scope update)
        { app := { app with lastAppliedEntryId := some entry.id }, setText := some entry.text }
  | found (peer : Announcement) : Reacts app sync (.found peer) (app.onFound peer)
  | lost (deviceId : DeviceId) : Reacts app sync (.lost deviceId) (app.onLost sync deviceId)
  | renamed {deviceId : DeviceId} {view : PeerView} (name : String)
      (h : app.peers.lookup deviceId = some view) :
      Reacts app sync (.sync (.peerConnected deviceId name .devices))
        { app := { app with
            peers := app.peers.insert deviceId
              { view with info := { view.info with name }, online := true } } }
  | seeded {deviceId : DeviceId} (name : String) (h : app.peers.lookup deviceId = none) :
      Reacts app sync (.sync (.peerConnected deviceId name .devices))
        { app := { app with peers := app.peers.insert deviceId ⟨⟨⟨deviceId, []⟩, name⟩, true⟩ } }
  | trusted (deviceId : DeviceId) (b : Bool) :
      Reacts app sync (.command (.setDeviceTrusted deviceId b))
        { app := { app with
            config := app.config.persistTrust sync.requirePairing deviceId b }.persistConfig
          command := some (.setTrusted deviceId b) }
  | joined {raw name : String} (hs : sanitizeRoomName raw = some name)
      (hn : app.config.hasRoom name = false) :
      Reacts app sync (.command (.joinRoom raw))
        { app := { app with
            forwarders := insert (Scope.room name) app.forwarders
            joinedRooms := insert name app.joinedRooms
            config := app.config.insertRoom name }.persistConfig.announceRooms
          command := some (.appJoinRoom raw) }
  | left {raw name : String} (hs : sanitizeRoomName raw = some name)
      (hn : app.config.hasRoom name = true) :
      Reacts app sync (.command (.leaveRoom raw))
        { app := { app with
            forwarders := app.forwarders.erase (.room name)
            joinedRooms := app.joinedRooms.erase name
            config := app.config.removeRoom name }.persistConfig.announceRooms
          command := some (.appLeaveRoom raw) }

/-- The inversion of a turn: the branches of the handlers, one by one. -/
theorem handle_reacts {P : Type} (app : App) (docs : DocsView) (sync : SyncView) (env : Env)
    (event : Event P) : app.Reacts sync event (app.handle docs sync env event) := by
  cases event with
  | copied text =>
    simp only [handle, onClipboard]
    split
    · exact .nothing none
    · split
      · exact .nothing none
      · exact .add _ _ none
  | docUpdate scope update =>
    simp only [handle, onDocUpdate]
    split
    · split
      · split
        · exact .applied _
        · exact .nothing none
      · exact .nothing none
    · exact .nothing none
  | docLagged => exact .nothing none
  | found peer => exact .found peer
  | lost deviceId => exact .lost deviceId
  | sync event =>
    cases event with
    | peerConnected deviceId name scope =>
      cases scope with
      | devices =>
        simp only [handle, onSync, Scope.isDevices, if_true]
        cases hl : app.peers.lookup deviceId with
        | some view => exact .renamed name hl
        | none => exact .seeded name hl
      | room => exact .nothing none
    | peerDisconnected => exact .nothing none
  | command command =>
    cases command with
    | setDeviceTrusted deviceId b => exact .trusted deviceId b
    | addEntry text scope =>
      simp only [handle, onCommand]
      split
      · exact .nothing none
      · rename_i entries _
        cases hp : (planAddEntry scope (isDuplicate text (recentTexts entries 1))).addToDoc with
        | true => exact .add _ _ _
        | false => exact .nothing _
    | copyEntry id scope =>
      simp only [handle, onCommand]
      split
      · exact .nothing none
      · split <;> exact .nothing _
    | joinRoom raw =>
      simp only [handle, onCommand, joinRoom]
      split
      · exact .nothing none
      · split
        · exact .nothing none
        · exact .joined ‹_› (eq_false_of_ne_true ‹_›)
    | leaveRoom raw =>
      simp only [handle, onCommand, leaveRoom]
      split
      · exact .nothing none
      · rename_i hs
        split
        · exact .nothing none
        · rename_i hn
          exact .left hs (by simpa using hn)

/-- What the handler of an event may ask of documents and sync. -/
inductive Requests {P : Type} : Event P → Option Command → Prop where
  | nothing {event : Event P} : Requests event none
  | add {event : Event P} (scope : Scope) (entry : ClipEntry) :
      Requests event (some (.addEntry scope entry))
  | discovered (peer : Announcement) :
      Requests (.found peer) (some (.peerDiscovered peer.toPeerInfo))
  | lost (deviceId : DeviceId) : Requests (.lost deviceId) (some (.peerLost deviceId))
  | trusted (deviceId : DeviceId) (b : Bool) :
      Requests (.command (.setDeviceTrusted deviceId b)) (some (.setTrusted deviceId b))
  | joined (raw : String) : Requests (.command (.joinRoom raw)) (some (.appJoinRoom raw))
  | left (raw : String) : Requests (.command (.leaveRoom raw)) (some (.appLeaveRoom raw))

theorem handle_requests {P : Type} (app : App) (docs : DocsView) (sync : SyncView) (env : Env)
    (event : Event P) : Requests event (app.handle docs sync env event).command := by
  have h := app.handle_reacts docs sync env event
  generalize app.handle docs sync env event = r at h ⊢
  cases h with
  | nothing | applied | renamed | seeded => exact .nothing
  | add scope entry text => exact .add scope entry
  | found peer => exact .discovered peer
  | lost deviceId => exact .lost deviceId
  | trusted deviceId b => exact .trusted deviceId b
  | joined => exact .joined _
  | left => exact .left _

/-- The registry after an announcement is lost. -/
theorem lookup_registryOnLost (peers : FinMap DeviceId PeerView) (d d' : DeviceId) (keep : Bool) :
    (registryOnLost peers d keep).lookup d' =
      if d' = d then
        if keep then (peers.lookup d).map fun view => { view with online := false } else none
      else peers.lookup d' := by
  unfold registryOnLost
  cases keep with
  | false => simp [FinMap.lookup_erase_ite]
  | true =>
    cases hl : peers.lookup d with
    | none =>
      by_cases hd : d' = d
      · subst hd
        simpa using hl
      · simp [hd]
    | some view => simp [FinMap.lookup_insert_ite]

/-- Where a row comes from that the registry has after a turn. -/
inductive RowFrom {P : Type} (app : App) (sync : SyncView) :
    Event P → DeviceId → PeerView → Prop where
  | old {event : Event P} {d : DeviceId} {view : PeerView}
      (h : app.peers.lookup d = some view) (hlost : event ≠ .lost d) : RowFrom app sync event d view
  | found (peer : Announcement) : RowFrom app sync (.found peer) peer.deviceId ⟨peer, true⟩
  | offline {d : DeviceId} {view : PeerView} (h : app.peers.lookup d = some view)
      (hkeep : (sync.isExplicitlyListed d || decide (d ∈ sync.connected)) = true) :
      RowFrom app sync (.lost d) d { view with online := false }
  | renamed {d : DeviceId} {view : PeerView} (name : String)
      (h : app.peers.lookup d = some view) :
      RowFrom app sync (.sync (.peerConnected d name .devices)) d
        { view with info := { view.info with name }, online := true }
  | seeded (d : DeviceId) (name : String) :
      RowFrom app sync (.sync (.peerConnected d name .devices)) d ⟨⟨⟨d, []⟩, name⟩, true⟩

/-- The inversion of a turn for a row. -/
theorem handle_row {P : Type} {app : App} {docs : DocsView} {sync : SyncView} {env : Env}
    {event : Event P} {d : DeviceId} {view : PeerView}
    (h : (app.handle docs sync env event).app.peers.lookup d = some view) :
    app.RowFrom sync event d view := by
  by_cases hlost : event = .lost d
  · subst hlost
    simp only [handle, onLost, lookup_registryOnLost, if_true] at h
    split at h
    · obtain ⟨old, hold, rfl⟩ := Option.map_eq_some_iff.mp h
      exact .offline hold ‹_›
    · cases h
  · have hr := app.handle_reacts docs sync env event
    generalize app.handle docs sync env event = r at h hr
    cases hr with
    | found peer =>
      simp only [onFound, FinMap.lookup_insert_ite] at h
      split at h
      · subst d
        obtain rfl := Option.some.inj h
        exact .found peer
      · exact .old h hlost
    | lost d' =>
      have hne : d ≠ d' := fun heq => hlost (heq ▸ rfl)
      simp only [onLost, lookup_registryOnLost, if_neg hne] at h
      exact .old h hlost
    | renamed name hview =>
      simp only [FinMap.lookup_insert_ite] at h
      split at h
      · subst d
        obtain rfl := Option.some.inj h
        exact .renamed name hview
      · exact .old h hlost
    | seeded name =>
      simp only [FinMap.lookup_insert_ite] at h
      split at h
      · subst d
        obtain rfl := Option.some.inj h
        exact .seeded _ name
      · exact .old h hlost
    | _ => exact .old h hlost

/-- Auto-apply does nothing, or it writes the latest entry, which is not the one it wrote last. -/
theorem onDocUpdate_cases {P : Type} (app : App) (docs : DocsView) (env : Env) (scope : Scope)
    (update : DocUpdate P) :
    ((app.onDocUpdate docs env scope update).app.lastAppliedEntryId = app.lastAppliedEntryId ∧
      (app.onDocUpdate docs env scope update).setText = none) ∨
    ∃ entry, docs.devices.getLast? = some entry ∧ app.lastAppliedEntryId ≠ some entry.id ∧
      (app.onDocUpdate docs env scope update).app.lastAppliedEntryId = some entry.id ∧
      (app.onDocUpdate docs env scope update).setText = some entry.text := by
  unfold onDocUpdate
  split
  · split
    · rename_i entry hlast
      simp only
      split
      · rename_i hcheck
        simp only [AutoApplyCheck.shouldApply, Bool.and_eq_true, decide_eq_true_eq] at hcheck
        exact .inr ⟨entry, hlast, hcheck.2, rfl, rfl⟩
      · exact .inl ⟨rfl, rfl⟩
    · exact .inl ⟨rfl, rfl⟩
  · exact .inl ⟨rfl, rfl⟩

/-- The other handlers leave the id alone. -/
theorem handle_lastApplied {P : Type} (app : App) (docs : DocsView) (sync : SyncView) (env : Env)
    (event : Event P) (h : ∀ scope update, event ≠ .docUpdate scope update) :
    (app.handle docs sync env event).app.lastAppliedEntryId = app.lastAppliedEntryId := by
  have hr := app.handle_reacts docs sync env event
  generalize app.handle docs sync env event = r at hr ⊢
  cases hr with
  | applied => exact absurd rfl (h _ _)
  | _ => rfl

/-- Trust is set by its command only. -/
theorem handle_setTrusted {P : Type} {app : App} {docs : DocsView} {sync : SyncView} {env : Env}
    {event : Event P} {command : Command} {d : DeviceId} {trusted : Bool}
    (h : (app.handle docs sync env event).command = some command)
    (hc : .setTrusted d trusted ∈ command.calls) :
    event = .command (.setDeviceTrusted d trusted) := by
  have hr := app.handle_requests docs sync env event
  rw [h] at hr
  cases hr with
  | trusted =>
    cases List.mem_singleton.mp hc
    rfl
  | joined raw | left raw =>
    simp only [Command.calls] at hc
    split at hc <;> simp at hc
  | _ => cases List.mem_singleton.mp hc

end App

end Yoink
