import Yoink.App.Handlers
import Yoink.Core.ScopeText
import Yoink.Library.Tally
import Mathlib.Data.Prod.Lex

/-!
# The UI state

`build` assembles what the browser shows from a snapshot of the shared state. The registry and
the explicit list come in an arbitrary order; what is shown is sorted. The lowercasing of names is
left open, as nothing depends on what it does.
-/

namespace Yoink

open SortedList

/-- UI cap; the document itself keeps up to `maxHistory` entries. -/
def maxUiEntries : Nat := 100

/-- UI-visible slice of the runtime configuration. -/
structure Settings where
  mode : ShareMode
  clipboardAvailable : Bool
  deriving DecidableEq, Repr

structure SettingsJson where
  clipboardAvailable : Bool
  mode : ShareMode
  requirePairing : Bool
  deriving DecidableEq, Repr

structure PeerJson where
  id : DeviceId
  name : String
  online : Bool
  connected : Bool
  /-- Whether the personal clipboard is synced with this device under the active model. -/
  trusted : Bool
  deriving DecidableEq, Repr

structure NetworkRoomJson where
  name : String
  devices : Nat
  deriving DecidableEq, Repr

structure RoomsJson where
  joined : List String
  network : List NetworkRoomJson
  deriving DecidableEq, Repr

structure MemberJson where
  id : DeviceId
  name : String
  connected : Bool
  deriving DecidableEq, Repr

structure StateJson where
  device : DeviceInfo
  scope : String
  settings : SettingsJson
  peers : List PeerJson
  rooms : RoomsJson
  members : List MemberJson
  entries : List ClipEntry
  deriving DecidableEq, Repr

/-- Everything the assembly reads. -/
structure StateSnapshot where
  device : DeviceInfo
  settings : Settings
  scope : Scope
  registry : FinMap DeviceId PeerView
  requirePairing : Bool
  /-- Paired devices under `requirePairing`, blocked ones otherwise. -/
  explicit : Finset DeviceId
  /-- The order in which `explicit` is iterated. -/
  order : Iteration explicit
  devicesConnected : Finset DeviceId
  scopeConnected : Finset DeviceId
  joined : Finset String
  /-- Oldest first. -/
  entries : List ClipEntry

/-- Rows are shown by lowercased name, then by id. -/
def sortKey (toLowercase : String → String) (name : String) (id : DeviceId) : String ×ₗ String :=
  toLex (toLowercase name, id)

namespace StateSnapshot

/-- The row of a registry entry. -/
def discovered (s : StateSnapshot) (view : PeerView) : PeerJson where
  id := view.info.deviceId
  name := view.info.name
  online := view.online
  connected := decide (view.info.deviceId ∈ s.devicesConnected)
  trusted := s.requirePairing == decide (view.info.deviceId ∈ s.explicit)

/-- The row of a listed device without a registry entry: the id is all there is to show. -/
def undiscovered (s : StateSnapshot) (id : DeviceId) : PeerJson where
  id
  name := id
  online := false
  connected := decide (id ∈ s.devicesConnected)
  trusted := s.requirePairing == decide (id ∈ s.explicit)

/-- The rows of `peers`, before they are sorted. -/
def rows (s : StateSnapshot) : List PeerJson :=
  s.registry.values.map s.discovered ++
    (s.order.list.filter fun id => (s.registry.lookup id).isNone).map s.undiscovered

/-- How many online peers advertise each room; a joined room counts from zero. -/
def network (s : StateSnapshot) : FinMap String Nat :=
  (s.registry.values.filter (·.online)).foldl (fun net view => view.info.rooms.foldl .bump net)
    ((s.joined.sort (· ≤ ·)).foldl (fun net name => net.insert name 0) ∅)

def member (s : StateSnapshot) (view : PeerView) : MemberJson where
  id := view.info.deviceId
  name := view.info.name
  connected := decide (view.info.deviceId ∈ s.scopeConnected)

/-- The rows of `members`, before they are sorted. -/
def memberRows (s : StateSnapshot) : List MemberJson :=
  match s.scope.roomName with
  | none => []
  | some room =>
    (s.registry.values.filter fun view => view.online && view.info.rooms.any (· == room)).map
      s.member

def build (toLowercase : String → String) (s : StateSnapshot) : StateJson where
  device := s.device
  scope := s.scope.toString
  settings := ⟨s.settings.clipboardAvailable, s.settings.mode, s.requirePairing⟩
  peers := sortOn (fun p => sortKey toLowercase p.name p.id) s.rows
  rooms := ⟨s.joined.sort (· ≤ ·), s.network.sortedPairs.map fun r => ⟨r.1, r.2⟩⟩
  members := sortOn (fun m => sortKey toLowercase m.name m.id) s.memberRows
  entries := s.entries.reverse.take maxUiEntries

end StateSnapshot

/-- What the server reads of the shared state. -/
structure ServerCtx where
  device : DeviceInfo
  docs : DocsView
  sync : State
  peers : FinMap DeviceId PeerView
  settings : Settings
  joinedRooms : Finset String

namespace ServerCtx

/-- The devices listed under the active model. -/
def explicit (ctx : ServerCtx) : Finset DeviceId :=
  if ctx.sync.requirePairing then ctx.sync.allowed else ctx.sync.blocked

def snapshot (ctx : ServerCtx) (scope : Scope) (order : Iteration ctx.explicit) :
    StateSnapshot where
  device := ctx.device
  settings := ctx.settings
  scope
  registry := ctx.peers
  requirePairing := ctx.sync.requirePairing
  explicit := ctx.explicit
  order
  -- `peers` always reports connections in the devices scope.
  devicesConnected := ctx.sync.connected .devices
  scopeConnected := ctx.sync.connected scope
  joined := ctx.joinedRooms
  -- A scope without a document shows an empty history.
  entries := (ctx.docs.get scope).getD []

def buildState (toLowercase : String → String) (ctx : ServerCtx) (scope : Scope)
    (order : Iteration ctx.explicit) : StateJson :=
  (ctx.snapshot scope order).build toLowercase

end ServerCtx

namespace StateSnapshot

theorem row_trusted (toLowercase : String → String) (s : StateSnapshot) {row : PeerJson}
    (h : row ∈ (s.build toLowercase).peers) :
    row.trusted = (s.requirePairing == decide (row.id ∈ s.explicit)) := by
  have hrow : row ∈ s.rows := (sortOn_perm _ _).mem_iff.mp h
  obtain hview | hlisted := List.mem_append.mp hrow
  · obtain ⟨view, -, rfl⟩ := List.mem_map.mp hview
    rfl
  · obtain ⟨id, -, rfl⟩ := List.mem_map.mp hlisted
    rfl

end StateSnapshot

/-- A row shows the verdict of the sync manager. -/
theorem ServerCtx.row_trusted (toLowercase : String → String) (ctx : ServerCtx) (scope : Scope)
    (order : Iteration ctx.explicit) {row : PeerJson}
    (h : row ∈ (ctx.buildState toLowercase scope order).peers) :
    row.trusted = ctx.sync.devicesTrusted row.id := by
  rw [StateSnapshot.row_trusted toLowercase _ h]
  show (ctx.sync.requirePairing == decide (row.id ∈ ctx.explicit)) = _
  cases hr : ctx.sync.requirePairing <;> simp [State.devicesTrusted, explicit, hr]

/-- The registry as discovery feeds it: rows are keyed by their device id and name no room
twice. -/
def KeyedRows (registry : FinMap DeviceId PeerView) : Prop :=
  ∀ id view, registry.lookup id = some view →
    view.info.deviceId = id ∧ view.info.rooms.Nodup

/-- The online rows advertising `room`. -/
def advertisers (registry : FinMap DeviceId PeerView) (room : String) : List PeerView :=
  registry.values.filter fun view => view.online && decide (room ∈ view.info.rooms)

section Registry

variable {registry : FinMap DeviceId PeerView}

theorem KeyedRows.insert (h : KeyedRows registry) {id : DeviceId} {view : PeerView}
    (hkey : view.info.deviceId = id) (hrooms : view.info.rooms.Nodup) :
    KeyedRows (AList.insert id view registry) := by
  intro id' view' hv
  rw [FinMap.lookup_insert_ite] at hv
  split at hv
  · obtain rfl := Option.some.inj hv
    exact ⟨hkey.trans (Eq.symm ‹_›), hrooms⟩
  · exact h id' view' hv

/-- The handlers keep the rows keyed, whatever announcements without repeated rooms they see. -/
theorem KeyedRows.handle {P : Type} {app : App} (h : KeyedRows app.peers) (docs : DocsView)
    (sync : SyncView) (env : Env) {event : Event P}
    (hfound : ∀ peer, event = .found peer → peer.rooms.Nodup) :
    KeyedRows (app.handle docs sync env event).app.peers := by
  intro id view hv
  cases App.handle_row hv with
  | old hold => exact h id view hold
  | found peer => exact ⟨rfl, hfound peer rfl⟩
  | offline hold | renamed _ hold =>
    obtain ⟨hid, hrooms⟩ := h id _ hold
    exact ⟨hid, hrooms⟩
  | seeded => exact ⟨rfl, List.nodup_nil⟩

theorem KeyedRows.ids (h : KeyedRows registry) :
    registry.values.map (·.info.deviceId) = registry.keys := by
  rw [FinMap.values, List.map_map, AList.keys, List.keys]
  refine List.map_congr_left fun e he => ?_
  exact (h e.1 e.2 (AList.mem_lookup_iff.mpr he)).1

theorem KeyedRows.rooms_nodup (h : KeyedRows registry) :
    ∀ view ∈ registry.values, view.info.rooms.Nodup := by
  intro view hv
  obtain ⟨id, hid⟩ := FinMap.mem_values.mp hv
  exact (h id view hid).2

/-- Rows name a room once, so its occurrences are its advertisers. -/
theorem count_rooms {views : List PeerView} (h : ∀ view ∈ views, view.info.rooms.Nodup)
    (room : String) :
    ((views.filter (·.online)).flatMap (·.info.rooms)).count room =
      (views.filter fun view => view.online && decide (room ∈ view.info.rooms)).length := by
  induction views with
  | nil => rfl
  | cons view views ih =>
    have ih := ih fun v hv => h v (List.mem_cons_of_mem _ hv)
    have hnodup := h view List.mem_cons_self
    cases hon : view.online with
    | false => simpa [hon] using ih
    | true =>
      rw [List.filter_cons_of_pos hon, List.flatMap_cons, List.count_append, ih]
      by_cases hroom : room ∈ view.info.rooms
      · rw [List.count_eq_one_of_mem hnodup hroom, List.filter_cons_of_pos (by simp [hon, hroom]),
          List.length_cons, Nat.add_comm]
      · rw [List.count_eq_zero_of_not_mem hroom, List.filter_cons_of_neg (by simp [hroom]),
          Nat.zero_add]

theorem advertisers_ne_nil {room : String} : advertisers registry room ≠ [] ↔
    ∃ id view, registry.lookup id = some view ∧ view.online = true ∧ room ∈ view.info.rooms := by
  have hmem (view : PeerView) : view ∈ advertisers registry room ↔
      (∃ id, registry.lookup id = some view) ∧ view.online = true ∧ room ∈ view.info.rooms := by
    simp [advertisers, FinMap.mem_values]
  constructor
  · intro hne
    obtain ⟨view, hview⟩ := List.exists_mem_of_ne_nil _ hne
    obtain ⟨⟨id, hid⟩, hon, hroom⟩ := (hmem view).mp hview
    exact ⟨id, view, hid, hon, hroom⟩
  · rintro ⟨id, view, hid, hon, hroom⟩
    exact List.ne_nil_of_mem ((hmem view).mpr ⟨⟨id, hid⟩, hon, hroom⟩)

end Registry

namespace StateSnapshot

variable {s : StateSnapshot}

section Peers

theorem rows_ids (h : KeyedRows s.registry) : s.rows.map (·.id) =
    s.registry.keys ++ s.order.list.filter fun id => (s.registry.lookup id).isNone := by
  rw [rows, List.map_append, List.map_map, List.map_map, ← h.ids]
  exact congrArg _ (List.map_id _)

theorem rows_nodup (h : KeyedRows s.registry) : (s.rows.map (·.id)).Nodup := by
  rw [rows_ids h]
  refine s.registry.keys_nodup.append (s.order.nodup.filter _) fun id hid hno => ?_
  have hnone := (List.mem_filter.mp hno).2
  rw [Option.isNone_iff_eq_none, AList.lookup_eq_none] at hnone
  exact hnone hid

theorem mem_rows (h : KeyedRows s.registry) (id : DeviceId) :
    id ∈ s.rows.map (·.id) ↔ (s.registry.lookup id).isSome ∨ id ∈ s.explicit := by
  rw [rows_ids h, List.mem_append, List.mem_filter, s.order.mem, ← AList.mem_keys,
    ← AList.lookup_isSome]
  cases s.registry.lookup id <;> simp

/-- No two rows have the same place. -/
theorem sortKey_nodup {α : Type} (toLowercase : String → String) {rows : List α}
    (name : α → String) (id : α → DeviceId) (h : (rows.map id).Nodup) :
    (rows.map fun row => sortKey toLowercase (name row) (id row)).Nodup := by
  refine List.Nodup.of_map (fun k => (ofLex k).2) ?_
  rw [List.map_map]
  exact h

end Peers

section Network

/-- What the joined rooms start the count with. -/
theorem lookup_foldl_zero (names : List String) (net : FinMap String Nat) (name : String) :
    (names.foldl (fun net name => net.insert name 0) net).lookup name =
      if name ∈ names then some 0 else net.lookup name := by
  induction names generalizing net with
  | nil => simp
  | cons n names ih =>
    rw [List.foldl_cons, ih, FinMap.lookup_insert_ite]
    by_cases hn : name = n <;> simp [hn]

theorem lookup_network (h : KeyedRows s.registry) (name : String) :
    s.network.lookup name =
      if name ∈ s.joined ∨ advertisers s.registry name ≠ [] then
        some (advertisers s.registry name).length
      else none := by
  have hcount : ((s.registry.values.filter (·.online)).flatMap (·.info.rooms)).count name =
      (advertisers s.registry name).length := count_rooms h.rooms_nodup name
  have hmem : name ∈ (s.registry.values.filter (·.online)).flatMap (·.info.rooms) ↔
      advertisers s.registry name ≠ [] := by
    rw [← List.count_pos_iff, hcount, List.length_pos_iff]
  rw [network, ← List.foldl_flatMap, FinMap.lookup_foldl_bump, lookup_foldl_zero, hcount]
  simp only [Finset.mem_sort, AList.lookup_empty, hmem]
  by_cases hj : name ∈ s.joined <;> by_cases ha : advertisers s.registry name = [] <;>
    simp [hj, ha]

/-- The list of rooms holds the entries of the count. -/
theorem mem_build_network (toLowercase : String → String) (room : NetworkRoomJson) :
    room ∈ (s.build toLowercase).rooms.network ↔
      s.network.lookup room.name = some room.devices := by
  rw [← FinMap.mem_sortedPairs]
  constructor
  · intro h
    obtain ⟨r, hr, rfl⟩ := List.mem_map.mp h
    exact hr
  · exact fun h => List.mem_map.mpr ⟨_, h, rfl⟩

end Network

section Members

theorem memberRows_eq {room : String} (h : s.scope = .room room) :
    s.memberRows = (advertisers s.registry room).map s.member := by
  have hany (view : PeerView) :
      view.info.rooms.any (· == room) = decide (room ∈ view.info.rooms) := by
    rw [Bool.eq_iff_iff, decide_eq_true_iff]
    simp
  simp only [memberRows, h, Scope.roomName, advertisers, hany]

theorem memberRows_nodup (h : KeyedRows s.registry) : (s.memberRows.map (·.id)).Nodup := by
  rw [memberRows]
  split
  · exact List.nodup_nil
  · rw [List.map_map]
    refine List.Nodup.sublist (List.filter_sublist.map _) ?_
    exact h.ids ▸ s.registry.keys_nodup

end Members

section Order

/-- The same snapshot, its maps and sets iterated in other orders. -/
def reorder (s : StateSnapshot) (registry : FinMap DeviceId PeerView)
    (order : Iteration s.explicit) : StateSnapshot :=
  { s with registry, order }

theorem SameLookups.values {registry registry' : FinMap DeviceId PeerView}
    (h : FinMap.SameLookups registry registry') : registry.values.Perm registry'.values :=
  List.Perm.map _ h

theorem rows_perm {registry : FinMap DeviceId PeerView}
    (h : FinMap.SameLookups s.registry registry) (order : Iteration s.explicit) :
    s.rows.Perm (s.reorder registry order).rows := by
  refine ((SameLookups.values h).map _).append (List.Perm.map _ ?_)
  have hnone : (fun id => (registry.lookup id).isNone) =
      fun id => (s.registry.lookup id).isNone := funext fun id => by rw [h.lookup id]
  simp only [reorder, hnone]
  exact (s.order.perm order).filter _

theorem memberRows_perm {registry : FinMap DeviceId PeerView}
    (h : FinMap.SameLookups s.registry registry) (order : Iteration s.explicit) :
    s.memberRows.Perm (s.reorder registry order).memberRows := by
  simp only [memberRows, reorder]
  split
  · exact .nil
  · exact ((SameLookups.values h).filter _).map _

theorem network_reorder {registry : FinMap DeviceId PeerView}
    (h : FinMap.SameLookups s.registry registry) (order : Iteration s.explicit) (name : String) :
    (s.reorder registry order).network.lookup name = s.network.lookup name := by
  have hperm := ((SameLookups.values h).filter (·.online)).flatMap_right (·.info.rooms)
  simp only [network, reorder, ← List.foldl_flatMap, FinMap.lookup_foldl_bump]
  simp only [hperm.mem_iff, hperm.count_eq]

theorem build_reorder (h : KeyedRows s.registry) (toLowercase : String → String)
    {registry : FinMap DeviceId PeerView} (hr : FinMap.SameLookups s.registry registry)
    (order : Iteration s.explicit) :
    (s.reorder registry order).build toLowercase = s.build toLowercase := by
  have hpeers := sortOn_congr (rows_perm hr order)
    (sortKey_nodup toLowercase PeerJson.name PeerJson.id (rows_nodup h))
  have hmembers := sortOn_congr (memberRows_perm hr order)
    (sortKey_nodup toLowercase MemberJson.name MemberJson.id (memberRows_nodup h))
  have hnetwork := FinMap.sortedPairs_congr (network_reorder hr order)
  simp only [build, hpeers, hmembers, hnetwork]
  rfl

end Order

/-- What the browser is shown of a snapshot. -/
structure Shows (toLowercase : String → String) (s : StateSnapshot) (state : StateJson) : Prop where
  /-- One row per device, discovered or listed. -/
  peers_nodup : (state.peers.map (·.id)).Nodup
  mem_peers : ∀ id, id ∈ state.peers.map (·.id) ↔
    (s.registry.lookup id).isSome ∨ id ∈ s.explicit
  peers_sorted : (state.peers.map fun p => sortKey toLowercase p.name p.id).SortedLT
  network_sorted : (state.rooms.network.map (·.name)).SortedLT
  /-- The joined rooms and the rooms of online rows. -/
  mem_network : ∀ name, name ∈ state.rooms.network.map (·.name) ↔ name ∈ s.joined ∨
    ∃ id view, s.registry.lookup id = some view ∧ view.online = true ∧ name ∈ view.info.rooms
  devices_eq : ∀ room ∈ state.rooms.network,
    room.devices = (advertisers s.registry room.name).length
  /-- In the scope of a room, exactly its advertisers. -/
  members_perm : ∀ name, s.scope = .room name →
    state.members.Perm ((advertisers s.registry name).map s.member)
  members_sorted : (state.members.map fun m => sortKey toLowercase m.name m.id).SortedLT
  members_length : ∀ room ∈ state.rooms.network, s.scope = .room room.name →
    state.members.length = room.devices
  /-- The newest entries come first. -/
  entries_eq : state.entries = (s.entries.drop (s.entries.length - maxUiEntries)).reverse
  entries_length : state.entries.length = min maxUiEntries s.entries.length

theorem build_shows (h : KeyedRows s.registry) (toLowercase : String → String) :
    s.Shows toLowercase (s.build toLowercase) := by
  have hids : ((s.build toLowercase).peers.map (·.id)).Perm (s.rows.map (·.id)) :=
    (sortOn_perm _ _).map _
  have hdevices (room) (hroom : room ∈ (s.build toLowercase).rooms.network) :
      room.devices = (advertisers s.registry room.name).length := by
    rw [mem_build_network, lookup_network h] at hroom
    split at hroom
    · exact (Option.some.inj hroom).symm
    · cases hroom
  have hmembers (name) (hs : s.scope = .room name) :
      (s.build toLowercase).members.Perm ((advertisers s.registry name).map s.member) :=
    memberRows_eq hs ▸ sortOn_perm _ _
  exact {
    peers_nodup := hids.nodup_iff.mpr (rows_nodup h)
    mem_peers := fun id => hids.mem_iff.trans (mem_rows h id)
    peers_sorted := sortedLT_sortOn
      (sortKey_nodup toLowercase PeerJson.name PeerJson.id (rows_nodup h))
    network_sorted := by
      simp only [build, List.map_map]
      exact s.network.sortedLT_sortedPairs
    mem_network := fun name => by
      rw [← advertisers_ne_nil, List.mem_map]
      constructor
      · rintro ⟨room, hroom, rfl⟩
        rw [mem_build_network, lookup_network h] at hroom
        exact (ite_ne_right_iff.mp (hroom ▸ Option.some_ne_none _)).1
      · intro hname
        refine ⟨⟨name, (advertisers s.registry name).length⟩, ?_, rfl⟩
        rw [mem_build_network, lookup_network h, if_pos hname]
    devices_eq := hdevices
    members_perm := hmembers
    members_sorted := sortedLT_sortOn
      (sortKey_nodup toLowercase MemberJson.name MemberJson.id (memberRows_nodup h))
    members_length := fun room hroom hs => by
      rw [(hmembers _ hs).length_eq, List.length_map, hdevices room hroom]
    entries_eq := List.take_reverse
    entries_length := by simp [build] }

/-- What is shown is exact, and does not show the order of any map or set. -/
theorem build_exact (toLowercase : String → String) (s : StateSnapshot)
    (h : KeyedRows s.registry) :
    s.Shows toLowercase (s.build toLowercase) ∧
      ∀ registry order, FinMap.SameLookups s.registry registry →
        (s.reorder registry order).build toLowercase = s.build toLowercase :=
  ⟨build_shows h toLowercase, fun _ order hr => build_reorder h toLowercase hr order⟩

/-- Ids in their order. -/
def byId (ids : Finset DeviceId) : Iteration ids := .sorted (· ≤ ·) ids

/-- Two peers of one name in one room, and a blocked device that is not around. -/
def attic : StateSnapshot where
  device := ⟨"self", "laptop"⟩
  settings := ⟨.manual, false⟩
  scope := .room "attic"
  registry := (AList.insert "m" ⟨⟨⟨"m", ["attic"]⟩, "Apple"⟩, true⟩ ∅).insert "z"
    ⟨⟨⟨"z", ["attic", "standup"]⟩, "apple"⟩, true⟩
  requirePairing := false
  explicit := {"gone"}
  order := byId _
  devicesConnected := ∅
  scopeConnected := {"z"}
  joined := {"attic", "solo"}
  entries := []

theorem attic_keyed : KeyedRows attic.registry := by
  have hempty : KeyedRows ∅ := fun _ _ hv => nomatch hv
  refine .insert (.insert hempty ?_ ?_) ?_ ?_ <;> decide

/-- The page of the room "attic" shows exactly these. -/
theorem build_exact_attic : attic.Shows String.toLower (attic.build String.toLower) :=
  (build_exact String.toLower attic attic_keyed).1

end StateSnapshot

end Yoink
