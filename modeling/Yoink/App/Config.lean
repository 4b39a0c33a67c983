import Yoink.Core.RoomName
import Yoink.Library.SortedList

/-!
# The persisted configuration

`config.toml` keeps the joined rooms as a sorted list of canonical names and, for each
trust model, the list of devices that are explicitly in it.
-/

namespace Yoink

structure Config where
  deviceId : DeviceId
  name : Option String
  /-- Device ids explicitly paired; consulted only under `--require-pairing`. -/
  allowed : List DeviceId
  /-- Device ids explicitly blocked; consulted in the default trust model. -/
  blocked : List DeviceId
  /-- Sanitized names of the joined rooms, kept sorted. -/
  rooms : List String
  deriving DecidableEq, Repr

/-- Canonicalize a persisted room list. -/
def sanitizeRooms (rooms : List String) : List String :=
  SortedList.sortDedup (rooms.filterMap sanitizeRoomName)

/-- A room list as the app keeps it. -/
structure RoomList (rooms : List String) : Prop where
  sorted : rooms.SortedLT
  canonical : ∀ name ∈ rooms, Canonical name

theorem sanitizeRooms_roomList (rooms : List String) : RoomList (sanitizeRooms rooms) where
  sorted := SortedList.sortedLT_sortDedup _
  canonical name hname := by
    obtain ⟨raw, -, h⟩ := List.mem_filterMap.mp (SortedList.mem_sortDedup.mp hname)
    exact canonical_of_sanitize h

namespace Config

/-- Whether `binary_search` finds the room. -/
def hasRoom (config : Config) (name : String) : Bool :=
  (SortedList.binarySearch config.rooms name).isOk

/-- Insert a room where `binary_search` says it belongs. -/
def insertRoom (config : Config) (name : String) : Config :=
  match SortedList.binarySearch config.rooms name with
  | .ok _ => config
  | .error pos => { config with rooms := config.rooms.insertIdx pos name }

/-- `rooms.retain`. -/
def removeRoom (config : Config) (name : String) : Config :=
  { config with rooms := config.rooms.filter (· ≠ name) }

/-- Record a trust change in the list the active model consults: a device joins it when
`requirePairing` and `trusted` agree and leaves it otherwise. -/
def persistTrust (config : Config) (requirePairing : Bool) (deviceId : DeviceId)
    (trusted : Bool) : Config :=
  let edit (list : List DeviceId) :=
    if requirePairing = trusted then
      if deviceId ∈ list then list else list ++ [deviceId]
    else list.filter (· ≠ deviceId)
  if requirePairing then { config with allowed := edit config.allowed }
  else { config with blocked := edit config.blocked }

theorem persistTrust_rooms (config : Config) (requirePairing : Bool) (d : DeviceId) (b : Bool) :
    (config.persistTrust requirePairing d b).rooms = config.rooms := by
  cases requirePairing <;> rfl

theorem insertRoom_lists (config : Config) (name : String) :
    (config.insertRoom name).allowed = config.allowed ∧
      (config.insertRoom name).blocked = config.blocked := by
  unfold insertRoom
  split <;> exact ⟨rfl, rfl⟩

section Rooms

variable {config : Config} {name : String}

theorem hasRoom_iff (h : config.rooms.SortedLT) : config.hasRoom name = true ↔
    name ∈ config.rooms := by
  unfold hasRoom
  cases hs : SortedList.binarySearch config.rooms name with
  | ok i => exact ⟨fun _ => SortedList.mem_of_binarySearch_ok hs, fun _ => rfl⟩
  | error i => exact ⟨nofun, fun hn => absurd hn (SortedList.not_mem_of_binarySearch_error h hs)⟩

theorem mem_insertRoom (h : config.rooms.SortedLT) {n : String} :
    n ∈ (config.insertRoom name).rooms ↔ n = name ∨ n ∈ config.rooms := by
  unfold insertRoom
  split
  · rename_i hs
    exact ⟨.inr, fun hn => hn.elim (· ▸ SortedList.mem_of_binarySearch_ok hs) id⟩
  · rename_i hs
    exact SortedList.mem_insertIdx h hs

theorem mem_removeRoom {n : String} :
    n ∈ (config.removeRoom name).rooms ↔ n ∈ config.rooms ∧ n ≠ name := by
  simp [removeRoom]

end Rooms

end Config

section RoomList

variable {config : Config} {name : String}

theorem RoomList.insertRoom (h : RoomList config.rooms) (hn : Canonical name) :
    RoomList (config.insertRoom name).rooms where
  sorted := by
    unfold Config.insertRoom
    split
    · exact h.sorted
    · exact SortedList.sortedLT_insertIdx h.sorted ‹_›
  canonical n hn' := by
    obtain rfl | hn' := (Config.mem_insertRoom h.sorted).mp hn'
    · exact hn
    · exact h.canonical n hn'

theorem RoomList.removeRoom (h : RoomList config.rooms) :
    RoomList (config.removeRoom name).rooms where
  sorted := List.sortedLT_iff_pairwise.mpr (h.sorted.pairwise.sublist List.filter_sublist)
  canonical n hn := h.canonical n (Config.mem_removeRoom.mp hn).1

end RoomList

end Yoink
