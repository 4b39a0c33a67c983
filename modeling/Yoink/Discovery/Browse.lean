import Yoink.Core.Scope
import Yoink.Library.Machine
import Yoink.Library.SortedList

/-!
# Browse events

The bridge translates what the mDNS daemon browses into events about devices. A device may be
announced under several fullnames, and a removal names a fullname only, so the state keeps two
maps: which device a fullname announces, and what was last emitted about a device.
-/

namespace Yoink

/-- `std::net::IpAddr`, IPv4 addresses first in its order. -/
inductive IpAddr where
  | v4 (bits : BitVec 32)
  | v6 (bits : BitVec 128)
  deriving DecidableEq, Repr

namespace IpAddr

/-- The place of an address in the order. -/
def rank : IpAddr → Nat
  | .v4 bits => bits.toNat
  | .v6 bits => 2 ^ 32 + bits.toNat

theorem rank_injective : Function.Injective rank := by
  rintro (a | a) (b | b) h
  · exact congrArg v4 (BitVec.eq_of_toNat_eq h)
  · have := a.isLt
    simp only [rank] at h
    omega
  · have := b.isLt
    simp only [rank] at h
    omega
  · exact congrArg v6 (BitVec.eq_of_toNat_eq (Nat.add_left_cancel h))

instance : LinearOrder IpAddr := LinearOrder.lift' rank rank_injective

end IpAddr

/-- `value.split(',')`. -/
def splitCommas (value : String) : List String := (value.toList.splitOn ',').map String.ofList

namespace Discovery

open SortedList

/-- A peer discovered on the local network. -/
structure PeerInfo where
  deviceId : DeviceId
  name : String
  addrs : List IpAddr
  port : UInt16
  rooms : List String
  deriving DecidableEq, Repr

inductive DiscoveryEvent where
  /-- A peer appeared or its announcement changed. -/
  | found (peer : PeerInfo)
  /-- A peer's announcement disappeared from the network. -/
  | lost (deviceId : DeviceId)
  deriving DecidableEq, Repr

def DiscoveryEvent.deviceId : DiscoveryEvent → DeviceId
  | .found peer => peer.deviceId
  | .lost deviceId => deviceId

/-- A resolved announcement. -/
structure Announcement where
  fullname : String
  /-- TXT `id`; `none` means the announcement is not a peer's. -/
  txtId : Option String
  txtName : Option String
  txtRooms : Option String
  addrs : List IpAddr
  port : UInt16
  deriving DecidableEq, Repr

/-- The room names of a TXT value, without empty segments, sorted and deduplicated. -/
def decodeRooms (value : String) : List String :=
  sortDedup ((splitCommas value).filter (· ≠ ""))

/-- The normalised data of an announcement of `deviceId`. -/
def Announcement.peerInfo (ann : Announcement) (deviceId : DeviceId) : PeerInfo where
  deviceId
  name := ann.txtName.getD deviceId
  addrs := sortDedup ann.addrs
  port := ann.port
  rooms := decodeRooms (ann.txtRooms.getD "")

/-- What the consumer was told about each peer. -/
structure BrowseState where
  selfId : DeviceId
  /-- Which device a fullname announces. -/
  byFullname : FinMap String DeviceId
  /-- What was last emitted about a device. -/
  lastEmitted : FinMap DeviceId PeerInfo

namespace BrowseState

def new (selfId : DeviceId) : BrowseState := ⟨selfId, ∅, ∅⟩

/-- A resolved announcement: `found`, unless it is our own, not a peer's, or nothing new. -/
def onResolved (s : BrowseState) (ann : Announcement) : BrowseState × Option DiscoveryEvent :=
  match ann.txtId with
  | none => (s, none)
  | some deviceId =>
    if deviceId = s.selfId then (s, none)
    else
      let peer := ann.peerInfo deviceId
      let s := { s with byFullname := s.byFullname.insert ann.fullname deviceId }
      if s.lastEmitted.lookup deviceId = some peer then (s, none)
      else ({ s with lastEmitted := s.lastEmitted.insert deviceId peer }, some (.found peer))

/-- A removed announcement: `lost`, unless another fullname still announces the device. -/
def onRemoved (s : BrowseState) (fullname : String) : BrowseState × Option DiscoveryEvent :=
  match s.byFullname.lookup fullname with
  | none => (s, none)
  | some deviceId =>
    let s := { s with byFullname := s.byFullname.erase fullname }
    if s.byFullname.toPairs.any (·.2 = deviceId) then (s, none)
    else ({ s with lastEmitted := s.lastEmitted.erase deviceId }, some (.lost deviceId))

end BrowseState

/-- What the daemon reports. -/
inductive BrowseEvent where
  | resolved (ann : Announcement)
  | removed (fullname : String)
  /-- Any other event is ignored. -/
  | other
  deriving DecidableEq, Repr

/-- One browse event, translated. -/
def translate (s : BrowseState) : BrowseEvent → BrowseState × Option DiscoveryEvent
  | .resolved ann => s.onResolved ann
  | .removed fullname => s.onRemoved fullname
  | .other => (s, none)

/-- The bridge task; it forwards each translated event while the consumer listens. -/
def bridgeEvents : Machine BrowseState BrowseEvent DiscoveryEvent where
  next s ev := (translate s ev).1
  out s ev := (translate s ev).2.toList

/-- The state of the bridge after some browse events. -/
def browsed (selfId : DeviceId) (evs : List BrowseEvent) : BrowseState :=
  bridgeEvents.after (.new selfId) evs

/-- The whole stream the bridge has emitted. -/
def emitted (selfId : DeviceId) (evs : List BrowseEvent) : List DiscoveryEvent :=
  bridgeEvents.outputs (.new selfId) evs

/-- The part of a stream about one device. -/
def eventsOf (d : DeviceId) (es : List DiscoveryEvent) : List DiscoveryEvent :=
  es.filter (·.deviceId = d)

/-- What an announcement counts as: nothing without an id, or with our own. -/
def Announcement.counted (selfId : DeviceId) (ann : Announcement) : Option PeerInfo :=
  (ann.txtId.filter (· ≠ selfId)).map ann.peerInfo

/-- What `fullname` announces: its latest counted resolve since its last removal. -/
def announces (selfId : DeviceId) (evs : List BrowseEvent) (fullname : String) : Option PeerInfo :=
  evs.foldl (fun cur ev =>
    match ev with
    | .resolved ann => if ann.fullname = fullname then (ann.counted selfId).or cur else cur
    | .removed f => if f = fullname then none else cur
    | .other => cur) none

namespace BrowseState

variable {s : BrowseState} {ann : Announcement} {fullname : String}

/-- What counts for nothing changes nothing. -/
theorem onResolved_of_none (h : ann.counted s.selfId = none) : s.onResolved ann = (s, none) := by
  unfold onResolved
  split
  · rfl
  · rename_i deviceId hid
    rw [if_pos]
    by_contra hne
    simp [Announcement.counted, hid, hne] at h

/-- A counted resolve is remembered under its fullname, and emitted if it brings news. -/
theorem onResolved_of_some {peer : PeerInfo} (h : ann.counted s.selfId = some peer) :
    (s.onResolved ann).1.selfId = s.selfId ∧
      (s.onResolved ann).1.byFullname = s.byFullname.insert ann.fullname peer.deviceId ∧
      ((s.lastEmitted.lookup peer.deviceId = some peer ∧ (s.onResolved ann).2 = none ∧
          (s.onResolved ann).1.lastEmitted = s.lastEmitted) ∨
        (s.lastEmitted.lookup peer.deviceId ≠ some peer ∧
          (s.onResolved ann).2 = some (.found peer) ∧
          (s.onResolved ann).1.lastEmitted = s.lastEmitted.insert peer.deviceId peer)) := by
  obtain ⟨deviceId, hid, rfl⟩ := Option.map_eq_some_iff.mp h
  obtain ⟨hid, hne⟩ := Option.filter_eq_some_iff.mp hid
  have hself : deviceId ≠ s.selfId := by simpa using hne
  simp only [onResolved, hid, if_neg hself]
  split
  · rename_i hsame
    exact ⟨rfl, rfl, .inl ⟨hsame, rfl, rfl⟩⟩
  · rename_i hnews
    exact ⟨rfl, rfl, .inr ⟨hnews, rfl, rfl⟩⟩

theorem onRemoved_of_none (h : s.byFullname.lookup fullname = none) :
    s.onRemoved fullname = (s, none) := by
  rw [onRemoved, h]

/-- The last fullname of a device takes the device with it. -/
theorem onRemoved_of_some {d : DeviceId} (h : s.byFullname.lookup fullname = some d) :
    (s.onRemoved fullname).1.selfId = s.selfId ∧
      (s.onRemoved fullname).1.byFullname = s.byFullname.erase fullname ∧
      (((∃ f, f ≠ fullname ∧ s.byFullname.lookup f = some d) ∧ (s.onRemoved fullname).2 = none ∧
          (s.onRemoved fullname).1.lastEmitted = s.lastEmitted) ∨
        ((∀ f, f ≠ fullname → s.byFullname.lookup f ≠ some d) ∧
          (s.onRemoved fullname).2 = some (.lost d) ∧
          (s.onRemoved fullname).1.lastEmitted = s.lastEmitted.erase d)) := by
  have hany : (FinMap.toPairs (s.byFullname.erase fullname)).any (·.2 = d) = true ↔
      ∃ f, f ≠ fullname ∧ s.byFullname.lookup f = some d := by
    simp only [List.any_eq_true, decide_eq_true_eq, Prod.exists]
    constructor
    · rintro ⟨f, _, hmem, rfl⟩
      rw [FinMap.mem_toPairs, FinMap.lookup_erase_ite] at hmem
      split at hmem
      · cases hmem
      · exact ⟨f, ‹_›, hmem⟩
    · rintro ⟨f, hne, hf⟩
      refine ⟨f, d, ?_, rfl⟩
      rwa [FinMap.mem_toPairs, FinMap.lookup_erase_ite, if_neg hne]
  simp only [onRemoved, h]
  split
  · rename_i hsome
    exact ⟨rfl, rfl, .inl ⟨hany.mp hsome, rfl, rfl⟩⟩
  · rename_i hnone
    exact ⟨rfl, rfl, .inr ⟨fun f hne hf => hnone (hany.mpr ⟨f, hne, hf⟩), rfl, rfl⟩⟩

end BrowseState

end Discovery

end Yoink
