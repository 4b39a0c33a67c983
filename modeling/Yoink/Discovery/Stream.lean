import Yoink.Discovery.Browse
import Yoink.Library.System

/-!
# The stream of discovery events

For each device the consumer sees rounds of `found`s closed by a `lost`. What the bridge
remembers as last emitted is what the stream ends with, so a `found` is never repeated and a
`lost` always answers a `found`. Announcements are normalised before anything else happens to
them, so the stream depends on the sets of addresses and rooms only.
-/

namespace Yoink.Discovery

open SortedList

/-- Events about one device: a word of `(Found⁺ Lost)*`, the last round perhaps still open, in
which two `found`s in succession differ. -/
structure WellFormed (es : List DiscoveryEvent) : Prop where
  answers : ∀ xs d ys, es = xs ++ .lost d :: ys → ∃ p, xs.getLast? = some (.found p)
  news : ∀ xs p q ys, es = xs ++ .found p :: .found q :: ys → p ≠ q

/-- Addresses and rooms are strictly sorted, and no room name is empty. -/
structure PeerInfo.Normal (peer : PeerInfo) : Prop where
  addrs : peer.addrs.SortedLT
  rooms : peer.rooms.SortedLT
  nonempty : "" ∉ peer.rooms

/-- The same announcement, with addresses and rooms listed in another order or repeated. -/
structure Announcement.Same (ann ann' : Announcement) : Prop where
  fullname : ann.fullname = ann'.fullname
  txtId : ann.txtId = ann'.txtId
  txtName : ann.txtName = ann'.txtName
  port : ann.port = ann'.port
  addrs : ∀ addr, addr ∈ ann.addrs ↔ addr ∈ ann'.addrs
  rooms : ∀ name, name ∈ splitCommas (ann.txtRooms.getD "") ↔
    name ∈ splitCommas (ann'.txtRooms.getD "")

inductive BrowseEvent.Same : BrowseEvent → BrowseEvent → Prop where
  | resolved {ann ann' : Announcement} : ann.Same ann' → Same (.resolved ann) (.resolved ann')
  | refl (ev : BrowseEvent) : Same ev ev

section Words

variable {es : List DiscoveryEvent}

theorem WellFormed.nil : WellFormed [] where
  answers xs d ys h := by simp at h
  news xs p q ys h := by simp at h

theorem WellFormed.found (h : WellFormed es) {p : PeerInfo}
    (hnew : es.getLast? ≠ some (.found p)) : WellFormed (es ++ [.found p]) where
  answers xs d ys heq := by
    obtain ⟨-, hd, -⟩ | ⟨zs, -, heq⟩ := System.concat_eq_append_cons heq
    · cases hd
    · exact h.answers xs d zs heq
  news xs q r ys heq := by
    rw [List.append_cons xs] at heq
    obtain ⟨rfl, hr, -⟩ | ⟨zs, -, heq⟩ := System.concat_eq_append_cons heq
    · cases hr
      rintro rfl
      exact hnew (by simp)
    · exact h.news xs q r zs (by rw [heq, List.append_assoc, List.singleton_append])

theorem WellFormed.lost (h : WellFormed es) {p : PeerInfo} (d : DeviceId)
    (hlast : es.getLast? = some (.found p)) : WellFormed (es ++ [.lost d]) where
  answers xs d' ys heq := by
    obtain ⟨rfl, -, -⟩ | ⟨zs, -, heq⟩ := System.concat_eq_append_cons heq
    · exact ⟨p, hlast⟩
    · exact h.answers xs d' zs heq
  news xs q r ys heq := by
    rw [List.append_cons xs] at heq
    obtain ⟨-, hr, -⟩ | ⟨zs, -, heq⟩ := System.concat_eq_append_cons heq
    · cases hr
    · exact h.news xs q r zs (by rw [heq, List.append_assoc, List.singleton_append])

theorem eventsOf_append (d : DeviceId) (es fs : List DiscoveryEvent) :
    eventsOf d (es ++ fs) = eventsOf d es ++ eventsOf d fs :=
  List.filter_append es fs

theorem eventsOf_singleton (d : DeviceId) (e : DiscoveryEvent) :
    eventsOf d [e] = if e.deviceId = d then [e] else [] := by
  simp [eventsOf, List.filter_singleton]

theorem mem_of_getLast?_eventsOf {d : DeviceId} {e : DiscoveryEvent}
    (h : (eventsOf d es).getLast? = some e) : e ∈ es ∧ e.deviceId = d := by
  have hmem := List.mem_filter.mp (List.mem_of_getLast? h)
  exact ⟨hmem.1, of_decide_eq_true hmem.2⟩

end Words

theorem Announcement.peerInfo_normal (ann : Announcement) (d : DeviceId) :
    (ann.peerInfo d).Normal where
  addrs := sortedLT_sortDedup _
  rooms := sortedLT_sortDedup _
  nonempty h := by simp [peerInfo, decodeRooms, mem_sortDedup] at h

theorem Announcement.counted_eq_some {selfId : DeviceId} {ann : Announcement} {peer : PeerInfo}
    (h : ann.counted selfId = some peer) : peer.deviceId ≠ selfId ∧ peer.Normal := by
  obtain ⟨d, hd, rfl⟩ := Option.map_eq_some_iff.mp h
  have hne : d ≠ selfId := by simpa using (Option.filter_eq_some_iff.mp hd).2
  exact ⟨hne, ann.peerInfo_normal d⟩

/-- The bridge's state against the stream it has emitted. -/
structure Tracks (selfId : DeviceId) (s : BrowseState) (out : List DiscoveryEvent) : Prop where
  self : s.selfId = selfId
  named : ∀ f d, s.byFullname.lookup f = some d → ∃ p, s.lastEmitted.lookup d = some p
  last : ∀ d p, (eventsOf d out).getLast? = some (.found p) ↔ s.lastEmitted.lookup d = some p
  wellFormed : ∀ d, WellFormed (eventsOf d out)
  foreign : ∀ e ∈ out, e.deviceId ≠ selfId
  normal : ∀ p, .found p ∈ out → p.Normal

section Tracks

variable {selfId : DeviceId} {s s' : BrowseState} {out : List DiscoveryEvent}

theorem Tracks.new (selfId : DeviceId) : Tracks selfId (.new selfId) [] where
  self := rfl
  named f d h := by simp [BrowseState.new] at h
  last d p := by simp [BrowseState.new, eventsOf]
  wellFormed d := WellFormed.nil
  foreign := by simp
  normal := by simp

/-- Without an event, only the fullnames of known devices may change. -/
theorem Tracks.silent (h : Tracks selfId s out) (hself : s'.selfId = s.selfId)
    (hlast : s'.lastEmitted = s.lastEmitted)
    (hnamed : ∀ f d, s'.byFullname.lookup f = some d → ∃ p, s.lastEmitted.lookup d = some p) :
    Tracks selfId s' out where
  self := hself.trans h.self
  named f d hf := hlast ▸ hnamed f d hf
  last d p := hlast ▸ h.last d p
  wellFormed := h.wellFormed
  foreign := h.foreign
  normal := h.normal

theorem Tracks.found (h : Tracks selfId s out) {peer : PeerInfo} {fullname : String}
    (hself : s'.selfId = s.selfId)
    (hby : s'.byFullname = s.byFullname.insert fullname peer.deviceId)
    (hlast : s'.lastEmitted = s.lastEmitted.insert peer.deviceId peer)
    (hnew : s.lastEmitted.lookup peer.deviceId ≠ some peer) (hpeer : peer.deviceId ≠ selfId)
    (hnormal : peer.Normal) : Tracks selfId s' (out ++ [.found peer]) where
  self := hself.trans h.self
  named f d hf := by
    rw [hby, FinMap.lookup_insert_ite] at hf
    rw [hlast, FinMap.lookup_insert_ite]
    split
    · exact ⟨peer, rfl⟩
    · rename_i hd
      split at hf
      · exact absurd (Option.some.inj hf).symm hd
      · exact h.named f d hf
  last d p := by
    rw [eventsOf_append, eventsOf_singleton, hlast, FinMap.lookup_insert_ite]
    split
    · rename_i hd
      simp [← show peer.deviceId = d from hd]
    · rename_i hd
      rw [List.append_nil, if_neg fun hd' => hd hd'.symm, h.last d p]
  wellFormed d := by
    rw [eventsOf_append, eventsOf_singleton]
    split
    · rename_i hd
      refine (h.wellFormed d).found fun hsame => hnew ?_
      rw [show peer.deviceId = d from hd]
      exact (h.last d peer).mp hsame
    · rw [List.append_nil]
      exact h.wellFormed d
  foreign e he := by
    obtain he | he := List.mem_append.mp he
    · exact h.foreign e he
    · obtain rfl := List.mem_singleton.mp he
      exact hpeer
  normal p hp := by
    obtain hp | hp := List.mem_append.mp hp
    · exact h.normal p hp
    · cases List.mem_singleton.mp hp
      exact hnormal

theorem Tracks.lost (h : Tracks selfId s out) {d : DeviceId} {fullname : String}
    (hself : s'.selfId = s.selfId) (hby : s'.byFullname = s.byFullname.erase fullname)
    (hlast : s'.lastEmitted = s.lastEmitted.erase d)
    (hd : s.byFullname.lookup fullname = some d)
    (hsole : ∀ f, f ≠ fullname → s.byFullname.lookup f ≠ some d) :
    Tracks selfId s' (out ++ [.lost d]) where
  self := hself.trans h.self
  named f d' hf := by
    rw [hby, FinMap.lookup_erase_ite] at hf
    rw [hlast, FinMap.lookup_erase_ite]
    split at hf
    · cases hf
    · rename_i hf'
      have hd' : d' ≠ d := by
        rintro rfl
        exact hsole f hf' hf
      rw [if_neg hd']
      exact h.named f d' hf
  last d' p := by
    rw [eventsOf_append, eventsOf_singleton, hlast, FinMap.lookup_erase_ite]
    split
    · rename_i hd'
      simp [← show d = d' from hd']
    · rename_i hd'
      rw [List.append_nil, if_neg fun hd => hd' hd.symm, h.last d' p]
  wellFormed d' := by
    rw [eventsOf_append, eventsOf_singleton]
    split
    · rename_i hd'
      obtain ⟨p, hp⟩ := h.named fullname d hd
      rw [show d = d' from hd'] at hp
      exact (h.wellFormed d').lost d ((h.last d' p).mpr hp)
    · rw [List.append_nil]
      exact h.wellFormed d'
  foreign e he := by
    obtain he | he := List.mem_append.mp he
    · exact h.foreign e he
    · -- A device that is lost was found before.
      obtain rfl := List.mem_singleton.mp he
      obtain ⟨p, hp⟩ := h.named fullname d hd
      obtain ⟨hmem, hid⟩ := mem_of_getLast?_eventsOf ((h.last d p).mpr hp)
      have := h.foreign _ hmem
      rwa [hid] at this
  normal p hp := by
    obtain hp | hp := List.mem_append.mp hp
    · exact h.normal p hp
    · cases List.mem_singleton.mp hp

theorem Tracks.step (h : Tracks selfId s out) (ev : BrowseEvent) :
    Tracks selfId (bridgeEvents.next s ev) (out ++ bridgeEvents.out s ev) := by
  cases ev with
  | resolved ann =>
    simp only [bridgeEvents, translate]
    cases hc : ann.counted s.selfId with
    | none => simpa [BrowseState.onResolved_of_none hc] using h
    | some peer =>
      obtain ⟨hself, hby, ⟨hsame, hev, hlast⟩ | ⟨hnew, hev, hlast⟩⟩ :=
        BrowseState.onResolved_of_some hc
      · rw [hev, Option.toList_none, List.append_nil]
        refine h.silent hself hlast fun f d hf => ?_
        rw [hby, FinMap.lookup_insert_ite] at hf
        split at hf
        · exact Option.some.inj hf ▸ ⟨peer, hsame⟩
        · exact h.named f d hf
      · rw [hev]
        obtain ⟨hpeer, hnormal⟩ := Announcement.counted_eq_some hc
        exact h.found hself hby hlast hnew (h.self ▸ hpeer) hnormal
  | removed fullname =>
    simp only [bridgeEvents, translate]
    cases hd : s.byFullname.lookup fullname with
    | none => simpa [BrowseState.onRemoved_of_none hd] using h
    | some d =>
      obtain ⟨hself, hby, ⟨-, hev, hlast⟩ | ⟨hsole, hev, hlast⟩⟩ := BrowseState.onRemoved_of_some hd
      · rw [hev, Option.toList_none, List.append_nil]
        refine h.silent hself hlast fun f d' hf => ?_
        rw [hby, FinMap.lookup_erase_ite] at hf
        split at hf
        · cases hf
        · exact h.named f d' hf
      · rw [hev]
        exact h.lost hself hby hlast hd hsole
  | other => simpa [bridgeEvents, translate] using h

/-- The run lemma. -/
theorem tracks (selfId : DeviceId) (evs : List BrowseEvent) :
    Tracks selfId (browsed selfId evs) (emitted selfId evs) :=
  bridgeEvents.history (I := fun _ s out => Tracks selfId s out) (Tracks.new selfId)
    (fun _ ev h => h.step ev) evs

end Tracks

section Same

theorem Announcement.Same.peerInfo {ann ann' : Announcement} (h : ann.Same ann') (d : DeviceId) :
    ann.peerInfo d = ann'.peerInfo d := by
  have hrooms : decodeRooms (ann.txtRooms.getD "") = decodeRooms (ann'.txtRooms.getD "") :=
    sortDedup_congr fun name => by simp only [List.mem_filter, h.rooms name]
  simp only [Announcement.peerInfo, h.txtName, h.port, sortDedup_congr h.addrs, hrooms]

theorem BrowseEvent.Same.translate {ev ev' : BrowseEvent} (h : ev.Same ev') (s : BrowseState) :
    translate s ev = Discovery.translate s ev' := by
  cases h with
  | resolved h =>
    simp only [Discovery.translate, BrowseState.onResolved, h.txtId, h.fullname, h.peerInfo]
  | refl => rfl

/-- Events that are the same one by one make the same stream, from any state. -/
theorem outputs_eq_of_same {evs evs' : List BrowseEvent}
    (h : List.Forall₂ BrowseEvent.Same evs evs') (s : BrowseState) :
    bridgeEvents.outputs s evs = bridgeEvents.outputs s evs' := by
  induction h generalizing s with
  | nil => rfl
  | cons hev _ ih =>
    simp only [Machine.outputs_cons, bridgeEvents, hev.translate]
    exact congrArg _ (ih _)

end Same

/-- The stream is well formed for each device, never about ourselves, carries normalised data
only, and does not depend on the order or multiplicity of addresses and rooms. -/
theorem stream_wellFormed (selfId : DeviceId) (evs : List BrowseEvent) :
    (∀ d, WellFormed (eventsOf d (emitted selfId evs))) ∧
    (∀ e ∈ emitted selfId evs, e.deviceId ≠ selfId) ∧
    (∀ peer, .found peer ∈ emitted selfId evs → peer.Normal) ∧
    ∀ evs', List.Forall₂ BrowseEvent.Same evs evs' → emitted selfId evs' = emitted selfId evs :=
  ⟨(tracks selfId evs).wellFormed, (tracks selfId evs).foreign, (tracks selfId evs).normal,
    fun _ h => (outputs_eq_of_same h (.new selfId)).symm⟩

end Yoink.Discovery
