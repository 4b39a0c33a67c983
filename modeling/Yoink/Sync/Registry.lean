import Yoink.Sync.State

/-!
# The registry's own invariant

`State.Admitted` collects what the maps under the state lock owe to the trust lists,
the joined rooms and the discovered peers. Every critical section keeps it. A critical
section that takes connections out of the registry also owes each of them a hangup, and
a disconnect event to each that was announced: `Releases` says so once for all of them.
-/

namespace Yoink

/-- The disconnect event of a key. -/
abbrev ConnKey.disconnected (key : ConnKey) : Call := .emit (.peerDisconnected key.1 key.2)

namespace State

/-- Whether the registry holds an announced connection for `key`. -/
def announced (s : State) (key : ConnKey) : Bool :=
  (s.connections.lookup key).any (·.announced)

section Lookups

/-- Device ids with an announced connection. -/
theorem mem_connected {s : State} {d : DeviceId} {scope : Scope} :
    d ∈ s.connected scope ↔ s.announced (d, scope) = true := by
  simp only [connected, List.mem_toFinset, List.mem_map, List.mem_filter, Bool.and_eq_true,
    decide_eq_true_eq, announced, Option.any_eq_true]
  constructor
  · rintro ⟨⟨⟨d', scope'⟩, c⟩, ⟨hm, rfl, ha⟩, rfl⟩
    exact ⟨c, FinMap.mem_toPairs.mp hm, ha⟩
  · rintro ⟨c, hl, ha⟩
    exact ⟨((d, scope), c), ⟨FinMap.mem_toPairs.mpr hl, rfl, ha⟩, rfl⟩

@[simp] theorem setTrust_joined (s : State) (d : DeviceId) (b : Bool) :
    (s.setTrust d b).joined = s.joined := by
  unfold setTrust; split_ifs <;> rfl

@[simp] theorem setTrust_peers (s : State) (d : DeviceId) (b : Bool) :
    (s.setTrust d b).peers = s.peers := by
  unfold setTrust; split_ifs <;> rfl

@[simp] theorem setTrust_connections (s : State) (d : DeviceId) (b : Bool) :
    (s.setTrust d b).connections = s.connections := by
  unfold setTrust; split_ifs <;> rfl

@[simp] theorem setTrust_dialers (s : State) (d : DeviceId) (b : Bool) :
    (s.setTrust d b).dialers = s.dialers := by
  unfold setTrust; split_ifs <;> rfl

@[simp] theorem setTrust_fanOuts (s : State) (d : DeviceId) (b : Bool) :
    (s.setTrust d b).fanOuts = s.fanOuts := by
  unfold setTrust; split_ifs <;> rfl

/-- The trust of any other device is left alone. -/
theorem devicesTrusted_setTrust_ne (s : State) {d d' : DeviceId} (b : Bool) (hd : d' ≠ d) :
    (s.setTrust d b).devicesTrusted d' = s.devicesTrusted d' := by
  unfold setTrust
  split_ifs <;> simp [devicesTrusted, *]

/-- `set_trusted(d, false)` leaves `d` distrusted, under either model. -/
theorem devicesTrusted_setTrust_false (s : State) (d : DeviceId) :
    (s.setTrust d false).devicesTrusted d = false := by
  unfold setTrust
  split_ifs <;> simp_all [devicesTrusted]

theorem setTrusted_eq (s : State) (d : DeviceId) (b : Bool) :
    ∃ cs ds, (s.setTrusted d b).1 = { s.setTrust d b with connections := cs, dialers := ds } := by
  simp only [setTrusted]; split <;> exact ⟨_, _, rfl⟩

theorem setTrusted_devicesTrusted (s : State) (d d' : DeviceId) (b : Bool) :
    (s.setTrusted d b).1.devicesTrusted d' = (s.setTrust d b).devicesTrusted d' := by
  obtain ⟨_, _, h⟩ := s.setTrusted_eq d b
  rw [h]; rfl

/-- Whether `set_trusted` takes the connection and the dialer of `key` out. -/
def revokedBy (s : State) (d : DeviceId) (b : Bool) (key : ConnKey) : Bool :=
  decide (key = (d, .devices)) && !(s.setTrust d b).devicesTrusted d

theorem setTrusted_connections (s : State) (d : DeviceId) (b : Bool) (k : ConnKey) :
    (s.setTrusted d b).1.connections.lookup k =
      if s.revokedBy d b k then none else s.connections.lookup k := by
  unfold setTrusted revokedBy
  by_cases ht : (s.setTrust d b).devicesTrusted d = true
  · simp [ht]
  · simp [ht, FinMap.lookup_erase_ite]

theorem setTrusted_dialers (s : State) (d : DeviceId) (b : Bool) (k : ConnKey) :
    (s.setTrusted d b).1.dialers.lookup k =
      if s.revokedBy d b k then none else s.dialers.lookup k := by
  unfold setTrusted revokedBy
  by_cases ht : (s.setTrust d b).devicesTrusted d = true
  · simp [ht]
  · simp [ht, FinMap.lookup_erase_ite]

/-- Whether `leave_room` takes the connection and the dialer of `key` out. -/
def leftBy (s : State) (name : String) (key : ConnKey) : Bool :=
  decide (name ∈ s.joined) && decide (key.2 = .room name)

theorem leaveRoom_joined (s : State) (name : String) :
    (s.leaveRoom name).1.joined = s.joined.erase name := by
  unfold leaveRoom
  split_ifs with h
  · rfl
  · simp [Finset.erase_eq_of_notMem h]

theorem leaveRoom_peers (s : State) (name : String) :
    (s.leaveRoom name).1.peers = s.peers := by
  unfold leaveRoom; split_ifs <;> rfl

theorem leaveRoom_devicesTrusted (s : State) (name : String) (d : DeviceId) :
    (s.leaveRoom name).1.devicesTrusted d = s.devicesTrusted d := by
  unfold leaveRoom; split_ifs <;> rfl

theorem leaveRoom_fanOuts (s : State) (name : String) (k : Scope) :
    (s.leaveRoom name).1.fanOuts.lookup k =
      if name ∈ s.joined ∧ k = .room name then none else s.fanOuts.lookup k := by
  unfold leaveRoom
  split_ifs with h h' h'
  · rw [h'.2]
    exact AList.lookup_erase _ _
  · exact AList.lookup_erase_ne fun hk => h' ⟨h, hk⟩
  · exact absurd h'.1 h
  · rfl

theorem leaveRoom_connections (s : State) (name : String) (k : ConnKey) :
    (s.leaveRoom name).1.connections.lookup k =
      if s.leftBy name k then none else s.connections.lookup k := by
  unfold leaveRoom leftBy
  by_cases h : name ∈ s.joined
  · by_cases hk : k.2 = .room name <;> simp [h, hk, FinMap.lookup_filter]
  · simp [h]

theorem leaveRoom_dialers (s : State) (name : String) (k : ConnKey) :
    (s.leaveRoom name).1.dialers.lookup k =
      if s.leftBy name k then none else s.dialers.lookup k := by
  unfold leaveRoom leftBy
  by_cases h : name ∈ s.joined
  · by_cases hk : k.2 = .room name <;> simp [h, hk, FinMap.lookup_filter]
  · simp [h]

/-- Whether `generation` still identifies the connection of `key`. -/
def identifies (s : State) (key : ConnKey) (generation : Nat) : Bool :=
  (s.connections.lookup key).any fun h => decide (h.generation = generation)

theorem forceClose_connections (s : State) (key k : ConnKey) (g : Nat) :
    (s.forceClose key g).1.connections.lookup k =
      if k = key ∧ s.identifies key g then none else s.connections.lookup k := by
  unfold forceClose identifies
  cases hl : s.connections.lookup key with
  | none => simp
  | some h =>
    by_cases hg : h.generation = g
    · simp [hg, FinMap.lookup_erase_ite]
    · simp [hg]

theorem finishConnection_connections (s : State) (key k : ConnKey) (g : Nat) :
    (s.finishConnection key g).1.connections.lookup k =
      if k = key ∧ s.identifies key g then none else s.connections.lookup k := by
  unfold finishConnection identifies
  cases hl : s.connections.lookup key with
  | none => simp
  | some h =>
    by_cases hg : h.generation = g
    · simp [hg, FinMap.lookup_erase_ite]
    · simp [hg]

/-- What `force_close` and `finish_connection` leave alone: everything but `connections`. -/
theorem forceClose_eq (s : State) (key : ConnKey) (g : Nat) :
    ∃ cs, (s.forceClose key g).1 = { s with connections := cs } := by
  unfold forceClose; split <;> try split
  all_goals exact ⟨_, rfl⟩

theorem finishConnection_eq (s : State) (key : ConnKey) (g : Nat) :
    ∃ cs, (s.finishConnection key g).1 = { s with connections := cs } := by
  unfold finishConnection; split <;> try split
  all_goals exact ⟨_, rfl⟩

theorem tryAnnounce_eq {s s' : State} {key : ConnKey} {g : Nat}
    (h : s.tryAnnounce key g = some s') :
    ∃ c, s.connections.lookup key = some c ∧ c.generation = g ∧
      s' = { s with connections := s.connections.insert key { c with announced := true } } := by
  unfold tryAnnounce at h
  split at h
  · split at h <;> cases h
    exact ⟨_, ‹_›, ‹_›, rfl⟩
  · cases h

theorem tryAnnounce_none {s : State} {key : ConnKey} {g : Nat} (h : s.tryAnnounce key g = none) :
    s.identifies key g = false := by
  unfold tryAnnounce at h
  unfold identifies
  split at h
  · split at h <;> simp_all
  · simp_all

theorem peerDiscovered_peers (s : State) (own : DeviceId) (peer : PeerInfo) (d : DeviceId) :
    (s.peerDiscovered own peer).1.peers.lookup d =
      if peer.deviceId ≠ own ∧ d = peer.deviceId then some peer else s.peers.lookup d := by
  unfold peerDiscovered
  by_cases h : peer.deviceId = own
  · simp [h]
  · simp [h, FinMap.lookup_insert_ite]

theorem peerDiscovered_eq (s : State) (own : DeviceId) (peer : PeerInfo) :
    ∃ ps, (s.peerDiscovered own peer).1 = { s with peers := ps } := by
  unfold peerDiscovered; split <;> exact ⟨_, rfl⟩

theorem peerLost_peers (s : State) (d d' : DeviceId) :
    (s.peerLost d).1.peers.lookup d' = if d' = d then none else s.peers.lookup d' :=
  FinMap.lookup_erase_ite _ _ _

theorem peerLost_dialers (s : State) (d : DeviceId) (k : ConnKey) :
    (s.peerLost d).1.dialers.lookup k = if k.1 = d then none else s.dialers.lookup k := by
  by_cases h : k.1 = d <;> simp [peerLost, FinMap.lookup_filter, h]

theorem register_connections (s : State) (key k : ConnKey) (e : EndId) (g : Nat)
    (owner : Option Nat) :
    (s.register key e g owner).connections.lookup k =
      if k = key then some ⟨g, e, s.announced key⟩ else s.connections.lookup k := by
  by_cases h : k = key <;>
    simp [register, announced, FinMap.lookup_insert_ite, h]

/-- Whether registration drops the dial loop of `key`. -/
def redundant (s : State) (key : ConnKey) (owner : Option Nat) : Bool :=
  (s.dialers.lookup key).any fun d => decide (some d.generation ≠ owner)

theorem register_dialers (s : State) (key k : ConnKey) (e : EndId) (g : Nat)
    (owner : Option Nat) :
    (s.register key e g owner).dialers.lookup k =
      if k = key ∧ s.redundant key owner then none else s.dialers.lookup k := by
  unfold register redundant
  by_cases h : (s.dialers.lookup key).any (fun d => decide (some d.generation ≠ owner)) = true
  · simp only [h, if_true, FinMap.lookup_erase_ite, and_true]
  · simp only [h, if_false, and_false, Bool.false_eq_true]

theorem redundantDialer_eq (s : State) (key : ConnKey) (owner : Option Nat) :
    s.redundantDialer key owner =
      if s.redundant key owner then (s.dialers.lookup key).map (·.loop) else none := by
  unfold redundantDialer redundant
  cases s.dialers.lookup key with
  | none => simp
  | some d => by_cases h : some d.generation = owner <;> simp [h]

theorem removeDialerEntry_dialers (s : State) (key k : ConnKey) (g : Nat) :
    (s.removeDialerEntry key g).dialers.lookup k =
      if k = key ∧ (s.dialers.lookup key).any (fun d => decide (d.generation = g)) then none
      else s.dialers.lookup k := by
  unfold removeDialerEntry
  by_cases h : (s.dialers.lookup key).any (fun d => decide (d.generation = g)) = true
  · simp only [h, if_true, FinMap.lookup_erase_ite, and_true]
  · simp only [h, if_false, and_false, Bool.false_eq_true]

theorem removeDialerEntry_eq (s : State) (key : ConnKey) (g : Nat) :
    ∃ ds, s.removeDialerEntry key g = { s with dialers := ds } := by
  unfold removeDialerEntry; split <;> exact ⟨_, rfl⟩

end Lookups

/-- The scopes an instance syncs: its personal clipboard and the rooms it has joined. -/
def Synced (s : State) : Scope → Prop
  | .devices => True
  | .room name => name ∈ s.joined

theorem synced_of_accepts {s : State} {k : ConnKey} (h : s.accepts k = true) : s.Synced k.2 := by
  cases hk : k.2 with
  | devices => trivial
  | room n => simpa [accepts, hk, Synced] using h

/-- What the registry owes to the trust lists, the joined rooms and the discovered peers. -/
structure Admitted (own : DeviceId) (s : State) : Prop where
  connections : ∀ key, (s.connections.lookup key).isSome → s.accepts key
  dialers : ∀ key, (s.dialers.lookup key).isSome →
    own < key.1 ∧ (s.peers.lookup key.1).isSome ∧ s.accepts key
  peers : ∀ d p, s.peers.lookup d = some p → p.deviceId = d
  fanOuts : ∀ scope, (s.fanOuts.lookup scope).isSome ↔ s.Synced scope

section Admitted

variable {own : DeviceId} {s s' : State}

/-- Entries may go, as long as what stays is still accepted. -/
theorem Admitted.shrink (h : s.Admitted own)
    (hc : ∀ k, (s'.connections.lookup k).isSome →
      (s.connections.lookup k).isSome ∧ (s.accepts k → s'.accepts k))
    (hd : ∀ k, (s'.dialers.lookup k).isSome → (s.dialers.lookup k).isSome ∧
      ((s.peers.lookup k.1).isSome → (s'.peers.lookup k.1).isSome) ∧
        (s.accepts k → s'.accepts k))
    (hp : ∀ d p, s'.peers.lookup d = some p → p.deviceId = d)
    (hf : ∀ scope, (s'.fanOuts.lookup scope).isSome ↔ s'.Synced scope) : s'.Admitted own where
  connections k hk := (hc k hk).2 (h.connections k (hc k hk).1)
  dialers k hk := by
    obtain ⟨hk, hp, ha⟩ := hd k hk
    obtain ⟨h1, h2, h3⟩ := h.dialers k hk
    exact ⟨h1, hp h2, ha h3⟩
  peers := hp
  fanOuts := hf

theorem Admitted.connections_shrink (h : s.Admitted own) {cs : FinMap ConnKey ConnectionHandle}
    (hc : ∀ k, (cs.lookup k).isSome → (s.connections.lookup k).isSome) :
    { s with connections := cs }.Admitted own :=
  h.shrink (fun k hk => ⟨hc k hk, id⟩) (fun _ hk => ⟨hk, id, id⟩) h.peers h.fanOuts

theorem Admitted.dialers_shrink (h : s.Admitted own) {ds : FinMap ConnKey DialerHandle}
    (hd : ∀ k, (ds.lookup k).isSome → (s.dialers.lookup k).isSome) :
    { s with dialers := ds }.Admitted own :=
  h.shrink (fun _ hk => ⟨hk, id⟩) (fun k hk => ⟨hd k hk, id, id⟩) h.peers h.fanOuts

theorem Admitted.setTrusted (h : s.Admitted own) (d : DeviceId) (b : Bool) :
    (s.setTrusted d b).1.Admitted own := by
  obtain ⟨cs, ds, heq⟩ := s.setTrusted_eq d b
  -- A key that stays is either another device's or the device ends up trusted.
  have hkeep : ∀ k, s.revokedBy d b k = false → s.accepts k → (s.setTrusted d b).1.accepts k := by
    intro k hk ha
    unfold accepts at ha ⊢
    split at ha <;> rename_i hk2
    · simp only [setTrusted_devicesTrusted]
      by_cases hd : k.1 = d
      · have : k = (d, .devices) := Prod.ext hd hk2
        simpa [revokedBy, this] using hk
      · rw [devicesTrusted_setTrust_ne _ _ hd]; exact ha
    · simpa [hk2, heq] using ha
  refine h.shrink (fun k hk => ?_) (fun k hk => ?_) (fun d' p hp => ?_) fun scope => ?_
  · rw [setTrusted_connections] at hk
    split at hk
    · simp at hk
    · exact ⟨hk, hkeep k (Bool.eq_false_iff.mpr ‹_›)⟩
  · rw [setTrusted_dialers] at hk
    split at hk
    · simp at hk
    · exact ⟨hk, by simp [heq], hkeep k (Bool.eq_false_iff.mpr ‹_›)⟩
  · exact h.peers d' p (by simpa [heq] using hp)
  · have := h.fanOuts scope
    cases scope <;> simpa [heq, Synced] using this

theorem Admitted.leaveRoom (h : s.Admitted own) (name : String) :
    (s.leaveRoom name).1.Admitted own := by
  have hkeep : ∀ k, s.leftBy name k = false → s.accepts k → (s.leaveRoom name).1.accepts k := by
    intro k hk ha
    unfold accepts at ha ⊢
    split at ha <;> rename_i n hk2
    · simpa only [hk2, leaveRoom_devicesTrusted] using ha
    · have hj : n ∈ s.joined := by simpa using ha
      have hn : n ≠ name := by
        rintro rfl
        simp [leftBy, hk2, hj] at hk
      simp [leaveRoom_joined, hj, hn]
  refine h.shrink (fun k hk => ?_) (fun k hk => ?_) (fun d p hp => ?_) fun scope => ?_
  · rw [leaveRoom_connections] at hk
    split at hk
    · simp at hk
    · exact ⟨hk, hkeep k (Bool.eq_false_iff.mpr ‹_›)⟩
  · rw [leaveRoom_dialers] at hk
    split at hk
    · simp at hk
    · exact ⟨hk, by rw [leaveRoom_peers]; exact id, hkeep k (Bool.eq_false_iff.mpr ‹_›)⟩
  · exact h.peers d p (by simpa [leaveRoom_peers] using hp)
  · have hs := h.fanOuts scope
    rw [leaveRoom_fanOuts]
    cases scope with
    | devices => simpa [Synced] using hs
    | room n =>
      simp only [Synced, leaveRoom_joined, Finset.mem_erase] at hs ⊢
      by_cases hn : n = name
      · subst hn
        by_cases hj : n ∈ s.joined <;> simp [hj, hs]
      · simp [hn, hs]

theorem Admitted.forceClose (h : s.Admitted own) (key : ConnKey) (g : Nat) :
    (s.forceClose key g).1.Admitted own := by
  obtain ⟨cs, heq⟩ := s.forceClose_eq key g
  rw [heq]
  refine h.connections_shrink fun k hk => ?_
  have := s.forceClose_connections key k g
  rw [heq] at this
  rw [this] at hk
  split at hk <;> simp_all

theorem Admitted.finishConnection (h : s.Admitted own) (key : ConnKey) (g : Nat) :
    (s.finishConnection key g).1.Admitted own := by
  obtain ⟨cs, heq⟩ := s.finishConnection_eq key g
  rw [heq]
  refine h.connections_shrink fun k hk => ?_
  have := s.finishConnection_connections key k g
  rw [heq] at this
  rw [this] at hk
  split at hk <;> simp_all

theorem Admitted.peerDiscovered (h : s.Admitted own) (peer : PeerInfo) :
    (s.peerDiscovered own peer).1.Admitted own := by
  obtain ⟨ps, heq⟩ := s.peerDiscovered_eq own peer
  have hps := s.peerDiscovered_peers own peer
  rw [heq] at hps ⊢
  refine h.shrink (fun k hk => ⟨hk, id⟩) (fun k hk => ⟨hk, fun hp => ?_, id⟩) (fun d p hp => ?_)
    h.fanOuts
  · rw [hps]
    split
    · rfl
    · exact hp
  · rw [hps] at hp
    split at hp
    · simp_all
    · exact h.peers d p hp

theorem Admitted.peerLost (h : s.Admitted own) (d : DeviceId) :
    (s.peerLost d).1.Admitted own := by
  refine h.shrink (fun k hk => ⟨hk, id⟩) (fun k hk => ?_) (fun d' p hp => ?_) h.fanOuts
  · rw [peerLost_dialers] at hk
    split at hk
    · simp at hk
    · exact ⟨hk, by simp [peerLost_peers, *], id⟩
  · rw [peerLost_peers] at hp
    split at hp
    · cases hp
    · exact h.peers d' p hp

theorem Admitted.register (h : s.Admitted own) {key : ConnKey} (ha : s.accepts key) (e : EndId)
    (g : Nat) (owner : Option Nat) : (s.register key e g owner).Admitted own where
  connections k hk := by
    rw [register_connections] at hk
    split at hk
    · subst k; exact ha
    · exact h.connections k hk
  dialers k hk := by
    rw [register_dialers] at hk
    split at hk
    · simp at hk
    · exact h.dialers k hk
  peers := h.peers
  fanOuts := h.fanOuts

theorem Admitted.removeDialerEntry (h : s.Admitted own) (key : ConnKey) (g : Nat) :
    (s.removeDialerEntry key g).Admitted own := by
  obtain ⟨ds, heq⟩ := s.removeDialerEntry_eq key g
  rw [heq]
  refine h.dialers_shrink fun k hk => ?_
  have := s.removeDialerEntry_dialers key k g
  rw [heq] at this
  rw [this] at hk
  split at hk <;> simp_all

/-- A dialer may be entered for a peer `maybe_spawn_dialer_after` wants dialed. -/
theorem Admitted.spawnDialer (h : s.Admitted own) {peerId : DeviceId} {scope : Scope}
    (ho : own < peerId) (hw : s.wantsDialer peerId scope) (d : DialerHandle) :
    { s with dialers := s.dialers.insert (peerId, scope) d }.Admitted own where
  connections := h.connections
  dialers k hk := by
    rw [FinMap.lookup_insert_ite] at hk
    split at hk
    · subst k
      simp only [wantsDialer, Bool.and_eq_true, Option.any_eq_true] at hw
      obtain ⟨⟨⟨p, hp, he⟩, -⟩, -⟩ := hw
      refine ⟨ho, by simp [hp], ?_⟩
      have hid := h.peers peerId p hp
      cases scope with
      | devices => simpa [accepts, scopeEligible, hid, devicesTrusted] using he
      | room n => simp_all [accepts, scopeEligible]
    · exact h.dialers k hk
  peers := h.peers
  fanOuts := h.fanOuts

theorem Admitted.joinRoom (h : s.Admitted own) (name : String) (f : TaskId) :
    { s with
      joined := insert name s.joined
      fanOuts := s.fanOuts.insert (.room name) f }.Admitted own := by
  have hkeep : ∀ k, s.accepts k → { s with
      joined := insert name s.joined
      fanOuts := s.fanOuts.insert (.room name) f }.accepts k := by
    intro k hk
    unfold accepts at hk ⊢
    split at hk <;> simp_all [devicesTrusted]
  refine h.shrink (fun k hk => ⟨hk, hkeep k⟩) (fun k hk => ⟨hk, id, hkeep k⟩) h.peers
    fun scope => ?_
  have hs := h.fanOuts scope
  rw [FinMap.lookup_insert_ite]
  cases scope with
  | devices => simpa [Synced] using hs
  | room n =>
    simp only [Synced, Finset.mem_insert] at hs ⊢
    by_cases hn : n = name <;> simp [hn, hs]

theorem Admitted.rehash (h : s.Admitted own) {ps : FinMap DeviceId PeerInfo}
    {cs : FinMap ConnKey ConnectionHandle} {ds : FinMap ConnKey DialerHandle}
    (hp : s.peers.SameLookups ps) (hc : s.connections.SameLookups cs)
    (hd : s.dialers.SameLookups ds) :
    { s with peers := ps, connections := cs, dialers := ds }.Admitted own := by
  refine h.shrink (fun k hk => ⟨by rwa [hc.lookup], id⟩)
    (fun k hk => ⟨by rwa [hd.lookup], by rw [hp.lookup]; exact id, id⟩) (fun d p hd => ?_) h.fanOuts
  exact h.peers d p (by rwa [hp.lookup])

end Admitted

/-- What a critical section leaves to its caller when it takes the connections `gone` and the
dialers `undialed` out: a hangup for each connection, a disconnect event for each announced
one, and a cancel for each dialer. -/
structure Releases (s : State) (gone undialed : ConnKey → Bool) (calls : List Call) : Prop where
  hangup : ∀ e, Call.hangup e ∈ calls ↔
    ∃ k c, gone k ∧ s.connections.lookup k = some c ∧ c.task = e
  disconnected : ∀ k : ConnKey, calls.count k.disconnected = if gone k ∧ s.announced k then 1 else 0
  connected : ∀ d n scope, Call.emit (.peerConnected d n scope) ∉ calls
  cancelDialer : ∀ i, Call.cancelDialer i ∈ calls ↔
    ∃ k d, undialed k ∧ s.dialers.lookup k = some d ∧ d.loop = i

section Releases

theorem hangup_mem_dropConnection {key : ConnKey} {c : ConnectionHandle} {e : EndId} :
    Call.hangup e ∈ dropConnection key c ↔ c.task = e := by
  unfold dropConnection
  split <;> simp [eq_comm]

theorem count_dropConnection (key k : ConnKey) (c : ConnectionHandle) :
    (dropConnection key c).count k.disconnected = if key = k ∧ c.announced then 1 else 0 := by
  unfold dropConnection
  by_cases ha : c.announced = true
  · simp [ha, List.count_cons, Prod.ext_iff]
  · simp [ha]

theorem mem_dropConnection {key : ConnKey} {c : ConnectionHandle} {call : Call}
    (h : call ∈ dropConnection key c) : call = .hangup c.task ∨ call = key.disconnected := by
  unfold dropConnection at h
  split at h <;> simp_all

theorem count_cancels (ds : List DialerHandle) (k : ConnKey) :
    (ds.map fun d => Call.cancelDialer d.loop).count k.disconnected = 0 := by
  simp [List.count_eq_zero]

/-- A section that takes nothing out, and leaves only dialing to its caller. -/
theorem Releases.none (s : State) {calls : List Call}
    (h : ∀ c ∈ calls, ∃ d scope delay, c = .maybeSpawnDialer d scope delay) :
    s.Releases (fun _ => false) (fun _ => false) calls where
  hangup e := by
    simp only [Bool.false_eq_true, false_and, exists_false, iff_false]
    intro he
    obtain ⟨_, _, _, h⟩ := h _ he
    cases h
  disconnected k := by
    simp only [Bool.false_eq_true, false_and, if_false, List.count_eq_zero]
    intro he
    obtain ⟨_, _, _, h⟩ := h _ he
    cases h
  connected d n scope he := by
    obtain ⟨_, _, _, h⟩ := h _ he
    cases h
  cancelDialer i := by
    simp only [Bool.false_eq_true, false_and, exists_false, iff_false]
    intro he
    obtain ⟨_, _, _, h⟩ := h _ he
    cases h

theorem setTrusted_releases (s : State) (d : DeviceId) (b : Bool) :
    s.Releases (s.revokedBy d b) (s.revokedBy d b) (s.setTrusted d b).2 := by
  by_cases ht : (s.setTrust d b).devicesTrusted d = true
  · have hg : s.revokedBy d b = fun _ => false := by funext k; simp [revokedBy, ht]
    rw [hg]
    exact .none s fun c hc => ⟨d, .devices, 0, by simpa [setTrusted, ht] using hc⟩
  · have hg : ∀ k, s.revokedBy d b k = decide (k = (d, .devices)) := fun k => by
      simp [revokedBy, ht]
    have hcs : (s.setTrusted d b).2 =
        ((s.dialers.lookup (d, .devices)).toList.map fun d => Call.cancelDialer d.loop) ++
          (s.connections.lookup (d, .devices)).toList.flatMap (dropConnection (d, .devices)) := by
      simp [setTrusted, ht]
    constructor
    · intro e
      simp only [hcs, hg, List.mem_append, List.mem_flatMap, hangup_mem_dropConnection]
      simp
    · intro k
      rw [hcs, List.count_append, count_cancels, Nat.zero_add, hg]
      by_cases hk : k = (d, .devices)
      · subst k
        cases hl : s.connections.lookup (d, .devices) <;> simp [announced, hl, count_dropConnection]
      · cases s.connections.lookup (d, .devices) <;> simp [count_dropConnection, hk, Ne.symm hk]
    · intro d' n scope h
      simp only [hcs, List.mem_append, List.mem_flatMap] at h
      obtain h | ⟨c, -, h⟩ := h
      · simp at h
      · obtain h | h := mem_dropConnection h <;> cases h
    · intro i
      simp only [hcs, hg, List.mem_append, List.mem_flatMap]
      constructor
      · rintro (h | ⟨c, -, h⟩)
        · simpa using h
        · obtain h | h := mem_dropConnection h <;> cases h
      · intro h
        exact .inl (by simpa using h)

theorem leaveRoom_releases (s : State) (name : String) :
    s.Releases (s.leftBy name) (s.leftBy name) (s.leaveRoom name).2 := by
  by_cases hj : name ∈ s.joined
  · have hg : ∀ k, s.leftBy name k = decide (k.2 = .room name) := fun k => by simp [leftBy, hj]
    have hcs : (s.leaveRoom name).2 =
        ((s.fanOuts.lookup (.room name)).toList.map .dropFanOut) ++
          ((s.dialers.filter fun k => decide (k.2 = .room name)).toPairs.map
            fun d => Call.cancelDialer d.2.loop) ++
          (s.connections.filter fun k => decide (k.2 = .room name)).toPairs.flatMap
            fun c => dropConnection c.1 c.2 := by
      simp [leaveRoom, hj]
    constructor
    · intro e
      simp only [hcs, hg, List.mem_append, List.mem_flatMap, hangup_mem_dropConnection]
      simp only [List.mem_map, Prod.exists, FinMap.mem_toPairs, FinMap.lookup_filter]
      simp
    · intro k
      rw [hcs, List.count_append, List.count_append, FinMap.count_flatMap_toPairs (k := k),
        FinMap.lookup_filter, hg]
      · have h1 : ((s.fanOuts.lookup (.room name)).toList.map Call.dropFanOut).count
            k.disconnected = 0 := by simp [List.count_eq_zero]
        have h2 : ((s.dialers.filter fun k => decide (k.2 = .room name)).toPairs.map
            fun d => Call.cancelDialer d.2.loop).count k.disconnected = 0 := by
          simp [List.count_eq_zero]
        rw [h1, h2]
        by_cases hk : k.2 = .room name
        · cases hl : s.connections.lookup k <;> simp [hk, hl, announced, count_dropConnection]
        · simp [hk]
      · intro c hc
        simp [count_dropConnection, hc]
    · intro d n scope h
      simp only [hcs, List.mem_append, List.mem_flatMap] at h
      obtain (h | h) | ⟨c, -, h⟩ := h
      · simp at h
      · simp at h
      · obtain h | h := mem_dropConnection h <;> cases h
    · intro i
      simp only [hcs, hg, List.mem_append, List.mem_flatMap]
      constructor
      · rintro ((h | h) | ⟨c, -, h⟩)
        · simp at h
        · simpa [FinMap.mem_toPairs, FinMap.lookup_filter] using h
        · obtain h | h := mem_dropConnection h <;> cases h
      · intro h
        refine .inl (.inr ?_)
        simpa [FinMap.mem_toPairs, FinMap.lookup_filter] using h
  · have hg : s.leftBy name = fun _ => false := by funext k; simp [leftBy, hj]
    rw [hg]
    exact .none s fun c hc => by simp [leaveRoom, hj] at hc

theorem peerLost_releases (s : State) (d : DeviceId) :
    s.Releases (fun _ => false) (fun k => decide (k.1 = d)) (s.peerLost d).2 := by
  constructor
  · simp [peerLost]
  · simp [peerLost, List.count_eq_zero]
  · simp [peerLost]
  · simp [peerLost, FinMap.mem_toPairs, FinMap.lookup_filter]

theorem forceClose_releases (s : State) (key : ConnKey) (g : Nat) :
    s.Releases (fun k => decide (k = key) && s.identifies key g) (fun _ => false)
      (s.forceClose key g).2 := by
  by_cases hi : s.identifies key g = true
  · obtain ⟨c, hl, hgen⟩ : ∃ c, s.connections.lookup key = some c ∧ c.generation = g := by
      simpa [identifies, Option.any_eq_true] using hi
    have hcs : (s.forceClose key g).2 = dropConnection key c := by simp [forceClose, hl, hgen]
    rw [hcs]
    constructor
    · simp [hi, hl, hangup_mem_dropConnection]
    · intro k
      rw [count_dropConnection]
      by_cases hk : k = key
      · subst k; simp [hi, announced, hl]
      · simp [hk, Ne.symm hk]
    · intro d n scope h
      obtain h | h := mem_dropConnection h <;> cases h
    · intro i
      simp only [Bool.false_eq_true, false_and, exists_false, iff_false]
      intro h
      obtain h | h := mem_dropConnection h <;> cases h
  · have hcs : (s.forceClose key g).2 = [] := by
      unfold forceClose
      split
      · rw [if_neg]
        intro hgen
        simp_all [identifies]
      · rfl
    rw [hcs]
    simpa [hi] using Releases.none s (by simp)

/-- `finish_connection` owes the disconnect of its own announced entry, and no hangup. -/
theorem finishConnection_calls (s : State) (key : ConnKey) (g : Nat) :
    (s.finishConnection key g).2 =
      if s.identifies key g ∧ s.announced key then [key.disconnected] else [] := by
  unfold finishConnection identifies announced
  cases hl : s.connections.lookup key with
  | none => simp
  | some c => by_cases hg : c.generation = g <;> by_cases ha : c.announced = true <;> simp [hg, ha]

end Releases

end State

end Yoink
