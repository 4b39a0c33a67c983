import Yoink.Discovery.Stream

/-!
# Presence against announcements

What is announced is a matter of the browse events alone: a fullname announces the data of its
latest counted resolve until it is removed. The bridge never takes a device for lost that is
still announced. It misses two things: a fullname that a resolve binds to another device, and
the data that goes with one of several fullnames of a device. Each result states exactly when
that happens.
-/

namespace Yoink.Discovery

/-- The data of the latest counted resolve for a device. -/
def latest (selfId : DeviceId) (evs : List BrowseEvent) (d : DeviceId) : Option PeerInfo :=
  evs.foldl (fun cur ev =>
    match ev with
    | .resolved ann => ((ann.counted selfId).filter (·.deviceId = d)).or cur
    | _ => cur) none

/-- What the consumer was told last about a device that is present is what some fullname
announces. -/
def Fresh (selfId : DeviceId) (evs : List BrowseEvent) : Prop :=
  ∀ d p, (eventsOf d (emitted selfId evs)).getLast? = some (.found p) →
    ∃ f, announces selfId evs f = some p ∧ p.deviceId = d

/-- Some fullname announces the device. -/
def Announced (selfId : DeviceId) (evs : List BrowseEvent) (d : DeviceId) : Prop :=
  ∃ f p, announces selfId evs f = some p ∧ p.deviceId = d

/-- The most recent event about the device is a `found`. -/
def Present (d : DeviceId) (out : List DiscoveryEvent) : Prop :=
  ∃ p, (eventsOf d out).getLast? = some (.found p)

/-- The resolve binds its fullname to another device, and the fullname was the only one that
announced the device it was bound to. -/
def Orphans (selfId : DeviceId) (evs : List BrowseEvent) : BrowseEvent → Prop
  | .resolved ann => ∃ old peer, announces selfId evs ann.fullname = some old ∧
      ann.counted selfId = some peer ∧ peer.deviceId ≠ old.deviceId ∧
      ∀ f p, f ≠ ann.fullname → announces selfId evs f = some p → p.deviceId ≠ old.deviceId
  | _ => False

/-- `fullname` alone announces the data that was resolved latest for its device. -/
def Carries (selfId : DeviceId) (evs : List BrowseEvent) (fullname : String) (old : PeerInfo) :
    Prop :=
  announces selfId evs fullname = some old ∧ latest selfId evs old.deviceId = some old ∧
    ∀ f, f ≠ fullname → announces selfId evs f ≠ some old

/-- The fullname that alone carries the latest data of a device is bound to another device, or
is removed while the device is announced under a further fullname. -/
def Strips (selfId : DeviceId) (evs : List BrowseEvent) : BrowseEvent → Prop
  | .resolved ann => ∃ old peer, Carries selfId evs ann.fullname old ∧
      ann.counted selfId = some peer ∧ peer.deviceId ≠ old.deviceId
  | .removed fullname => ∃ old, Carries selfId evs fullname old ∧
      ∃ f p, f ≠ fullname ∧ announces selfId evs f = some p ∧ p.deviceId = old.deviceId
  | .other => False

section Announces

variable {selfId : DeviceId} {evs : List BrowseEvent} {ann : Announcement} {f : String}
  {d : DeviceId}

theorem announces_resolved : announces selfId (evs ++ [.resolved ann]) f =
    if ann.fullname = f then (ann.counted selfId).or (announces selfId evs f)
    else announces selfId evs f := by
  simp [announces]

theorem announces_removed (fullname : String) : announces selfId (evs ++ [.removed fullname]) f =
    if fullname = f then none else announces selfId evs f := by
  simp [announces]

theorem announces_other : announces selfId (evs ++ [.other]) f = announces selfId evs f := by
  simp [announces]

theorem latest_resolved : latest selfId (evs ++ [.resolved ann]) d =
    ((ann.counted selfId).filter (·.deviceId = d)).or (latest selfId evs d) := by
  simp [latest]

theorem latest_removed (fullname : String) :
    latest selfId (evs ++ [.removed fullname]) d = latest selfId evs d := by
  simp [latest]

theorem latest_other : latest selfId (evs ++ [.other]) d = latest selfId evs d := by
  simp [latest]

theorem announced_resolved {peer : PeerInfo} (hc : ann.counted selfId = some peer) :
    Announced selfId (evs ++ [.resolved ann]) d ↔ d = peer.deviceId ∨
      ∃ f p, f ≠ ann.fullname ∧ announces selfId evs f = some p ∧ p.deviceId = d := by
  simp only [Announced, announces_resolved, hc, Option.some_or]
  constructor
  · rintro ⟨f, p, hf, rfl⟩
    split at hf
    · exact .inl (congrArg _ (Option.some.inj hf).symm)
    · rename_i hne
      exact .inr ⟨f, p, fun he => hne he.symm, hf, rfl⟩
  · rintro (rfl | ⟨f, p, hne, hf, rfl⟩)
    · exact ⟨ann.fullname, peer, if_pos rfl, rfl⟩
    · exact ⟨f, p, by rwa [if_neg fun he => hne he.symm], rfl⟩

theorem announced_removed (fullname : String) :
    Announced selfId (evs ++ [.removed fullname]) d ↔
      ∃ f p, f ≠ fullname ∧ announces selfId evs f = some p ∧ p.deviceId = d := by
  simp only [Announced, announces_removed]
  constructor
  · rintro ⟨f, p, hf, rfl⟩
    split at hf
    · cases hf
    · rename_i hne
      exact ⟨f, p, fun he => hne he.symm, hf, rfl⟩
  · rintro ⟨f, p, hne, hf, rfl⟩
    exact ⟨f, p, by rwa [if_neg fun he => hne he.symm], rfl⟩

end Announces

/-- The bridge's maps against the browse events: a fullname is bound to the device it announces,
and what was last emitted about a device is what was last resolved for it. -/
structure Linked (selfId : DeviceId) (evs : List BrowseEvent) (s : BrowseState) : Prop where
  names : ∀ f, s.byFullname.lookup f = (announces selfId evs f).map (·.deviceId)
  latest : ∀ d p, s.lastEmitted.lookup d = some p → latest selfId evs d = some p

section Linked

variable {selfId : DeviceId} {evs : List BrowseEvent} {s : BrowseState}

theorem Linked.step (h : Linked selfId evs s) (hself : s.selfId = selfId) (ev : BrowseEvent) :
    Linked selfId (evs ++ [ev]) (bridgeEvents.next s ev) := by
  cases ev with
  | resolved ann =>
    simp only [bridgeEvents, translate]
    cases hc : ann.counted selfId with
    | none =>
      rw [BrowseState.onResolved_of_none (hself.symm ▸ hc)]
      exact ⟨fun f => by simpa [announces_resolved, hc] using h.names f,
        fun d p hp => by simpa [latest_resolved, hc] using h.latest d p hp⟩
    | some peer =>
      obtain ⟨-, hby, hemit⟩ := BrowseState.onResolved_of_some (hself.symm ▸ hc)
      constructor
      · intro f
        rw [hby, FinMap.lookup_insert_ite, announces_resolved, hc, h.names f]
        grind
      · intro d p hp
        rw [latest_resolved, hc]
        obtain ⟨hsame, -, hlast⟩ | ⟨-, -, hlast⟩ := hemit
        · rw [hlast] at hp
          by_cases hd : peer.deviceId = d
          · subst hd
            obtain rfl := Option.some.inj (hsame.symm.trans hp)
            simp
          · simpa [Option.filter, hd] using h.latest d p hp
        · rw [hlast, FinMap.lookup_insert_ite] at hp
          split at hp
          · rename_i hd
            simp [hd, Option.some.inj hp]
          · rename_i hd
            simpa [Option.filter, Ne.symm hd] using h.latest d p hp
  | removed fullname =>
    simp only [bridgeEvents, translate]
    cases hd : s.byFullname.lookup fullname with
    | none =>
      rw [BrowseState.onRemoved_of_none hd]
      refine ⟨fun f => ?_, fun d p hp => by simpa [latest_removed] using h.latest d p hp⟩
      rw [announces_removed]
      split
      · rename_i hf
        rw [← hf, hd]
        rfl
      · exact h.names f
    | some d =>
      obtain ⟨-, hby, hemit⟩ := BrowseState.onRemoved_of_some hd
      constructor
      · intro f
        rw [hby, FinMap.lookup_erase_ite, announces_removed, h.names f]
        grind
      · intro d' p hp
        rw [latest_removed]
        obtain ⟨-, -, hlast⟩ | ⟨-, -, hlast⟩ := hemit
        · exact h.latest d' p (hlast ▸ hp)
        · rw [hlast, FinMap.lookup_erase_ite] at hp
          split at hp
          · cases hp
          · exact h.latest d' p hp
  | other =>
    simp only [bridgeEvents, translate]
    exact ⟨fun f => by simpa [announces_other] using h.names f,
      fun d p hp => by simpa [latest_other] using h.latest d p hp⟩

theorem linked (selfId : DeviceId) (evs : List BrowseEvent) :
    Linked selfId evs (browsed selfId evs) :=
  (bridgeEvents.history (I := fun evs s out => Linked selfId evs s ∧ Tracks selfId s out)
    ⟨⟨fun f => by simp [BrowseState.new, announces], fun d p h => by simp [BrowseState.new] at h⟩,
      Tracks.new selfId⟩
    (fun _ ev h => ⟨h.1.step h.2.self ev, h.2.step ev⟩) evs).1

/-- A device that is announced has been reported. -/
theorem emitted_of_announces {f : String} {p : PeerInfo} (h : announces selfId evs f = some p) :
    ∃ q, (browsed selfId evs).lastEmitted.lookup p.deviceId = some q :=
  (tracks selfId evs).named f p.deviceId (by rw [(linked selfId evs).names, h]; rfl)

end Linked

section Exact

variable {selfId : DeviceId} {evs : List BrowseEvent} {d : DeviceId}

theorem browsed_append (ev : BrowseEvent) :
    browsed selfId (evs ++ [ev]) = bridgeEvents.next (browsed selfId evs) ev := by
  simp [browsed]

theorem present_iff :
    Present d (emitted selfId evs) ↔ ∃ p, (browsed selfId evs).lastEmitted.lookup d = some p :=
  exists_congr fun p => (tracks selfId evs).last d p

/-- What is announced is present. -/
theorem Announced.present (h : Announced selfId evs d) : Present d (emitted selfId evs) := by
  obtain ⟨f, p, hf, rfl⟩ := h
  exact present_iff.mpr (emitted_of_announces hf)

/-- After a counted resolve its data is what the consumer has. -/
theorem lookup_resolved {ann : Announcement} {peer : PeerInfo}
    (hc : ann.counted selfId = some peer) :
    (browsed selfId (evs ++ [.resolved ann])).lastEmitted.lookup d =
      if d = peer.deviceId then some peer else (browsed selfId evs).lastEmitted.lookup d := by
  rw [← (tracks selfId evs).self] at hc
  simp only [browsed_append, bridgeEvents, translate]
  obtain ⟨-, -, ⟨hsame, -, hlast⟩ | ⟨-, -, hlast⟩⟩ := BrowseState.onResolved_of_some hc
  · rw [hlast]
    split
    · rename_i hd
      rw [hd, hsame]
    · rfl
  · rw [hlast, FinMap.lookup_insert_ite]

theorem browsed_uncounted {ann : Announcement} (hc : ann.counted selfId = none) :
    browsed selfId (evs ++ [.resolved ann]) = browsed selfId evs := by
  rw [← (tracks selfId evs).self] at hc
  simp only [browsed_append, bridgeEvents, translate, BrowseState.onResolved_of_none hc]

/-- The removal of the only fullname of a device. -/
theorem lookup_removed_sole {fullname : String} {old : PeerInfo}
    (ho : announces selfId evs fullname = some old)
    (hsole : ∀ f p, f ≠ fullname → announces selfId evs f = some p → p.deviceId ≠ old.deviceId) :
    (browsed selfId (evs ++ [.removed fullname])).lastEmitted.lookup d =
      if d = old.deviceId then none else (browsed selfId evs).lastEmitted.lookup d := by
  have hname : (browsed selfId evs).byFullname.lookup fullname = some old.deviceId := by
    rw [(linked selfId evs).names, ho]
    rfl
  simp only [browsed_append, bridgeEvents, translate]
  obtain ⟨-, -, ⟨⟨f, hne, hf⟩, -, -⟩ | ⟨-, -, hlast⟩⟩ := BrowseState.onRemoved_of_some hname
  · rw [(linked selfId evs).names] at hf
    obtain ⟨p, hp, hd⟩ := Option.map_eq_some_iff.mp hf
    exact absurd hd (hsole f p hne hp)
  · rw [hlast, FinMap.lookup_erase_ite]

/-- The removal of one of several fullnames of a device, or of one that announces nothing. -/
theorem lookup_removed_shared {fullname : String}
    (hshared : ∀ old, announces selfId evs fullname = some old →
      ∃ f p, f ≠ fullname ∧ announces selfId evs f = some p ∧ p.deviceId = old.deviceId) :
    (browsed selfId (evs ++ [.removed fullname])).lastEmitted.lookup d =
      (browsed selfId evs).lastEmitted.lookup d := by
  have hname := (linked selfId evs).names fullname
  simp only [browsed_append, bridgeEvents, translate]
  cases ho : announces selfId evs fullname with
  | none =>
    rw [ho] at hname
    rw [BrowseState.onRemoved_of_none hname]
  | some old =>
    rw [ho] at hname
    obtain ⟨-, -, ⟨-, -, hlast⟩ | ⟨hsole, -, -⟩⟩ := BrowseState.onRemoved_of_some hname
    · rw [hlast]
    · obtain ⟨f, p, hne, hf, hd⟩ := hshared old ho
      refine absurd ?_ (hsole f hne)
      rw [(linked selfId evs).names, hf]
      exact congrArg some hd

/-- What neither the bridge nor the fullnames take notice of. -/
theorem exact_of_unchanged {ev : BrowseEvent}
    (h : ∀ d, Present d (emitted selfId evs) ↔ Announced selfId evs d)
    (hb : browsed selfId (evs ++ [ev]) = browsed selfId evs)
    (ha : ∀ f, announces selfId (evs ++ [ev]) f = announces selfId evs f) (d : DeviceId) :
    Present d (emitted selfId (evs ++ [ev])) ↔ Announced selfId (evs ++ [ev]) d := by
  rw [present_iff, hb, ← present_iff, h d]
  simp only [Announced, ha]

end Exact

section Main

variable {selfId : DeviceId} {evs : List BrowseEvent}

/-- A removal is reported exactly when it ends the presence of a device. -/
theorem removed_exact (fullname : String)
    (h : ∀ d, Present d (emitted selfId evs) ↔ Announced selfId evs d) (d : DeviceId) :
    Present d (emitted selfId (evs ++ [.removed fullname])) ↔
      Announced selfId (evs ++ [.removed fullname]) d := by
  refine ⟨fun hp => ?_, Announced.present⟩
  rw [announced_removed]
  by_cases hshared : ∀ old, announces selfId evs fullname = some old →
      ∃ f p, f ≠ fullname ∧ announces selfId evs f = some p ∧ p.deviceId = old.deviceId
  · rw [present_iff] at hp
    simp only [lookup_removed_shared hshared] at hp
    obtain ⟨f, p, hf, rfl⟩ := (h d).mp (present_iff.mpr hp)
    by_cases hne : f = fullname
    · subst hne
      exact hshared p hf
    · exact ⟨f, p, hne, hf, rfl⟩
  · push Not at hshared
    obtain ⟨old, ho, hsole⟩ := hshared
    rw [present_iff] at hp
    obtain ⟨q, hq⟩ := hp
    rw [lookup_removed_sole ho hsole] at hq
    split at hq
    · cases hq
    · rename_i hd
      obtain ⟨f, p, hf, rfl⟩ := (h d).mp (present_iff.mpr ⟨q, hq⟩)
      refine ⟨f, p, ?_, hf, rfl⟩
      rintro rfl
      rw [ho] at hf
      exact hd (congrArg _ (Option.some.inj hf).symm)

/-- One event keeps presence exact unless it orphans a device. -/
theorem presence_step (ev : BrowseEvent)
    (h : ∀ d, Present d (emitted selfId evs) ↔ Announced selfId evs d) :
    (∀ d, Present d (emitted selfId (evs ++ [ev])) ↔ Announced selfId (evs ++ [ev]) d) ↔
      ¬ Orphans selfId evs ev := by
  cases ev with
  | resolved ann =>
    cases hc : ann.counted selfId with
    | none =>
      refine ⟨fun _ hor => ?_, fun _ => exact_of_unchanged h (browsed_uncounted hc) fun f => ?_⟩
      · obtain ⟨_, _, -, hc', -⟩ := hor
        cases hc.symm.trans hc'
      · simp [announces_resolved, hc]
    | some peer =>
      have hpresent (d) : Present d (emitted selfId (evs ++ [.resolved ann])) ↔
          d = peer.deviceId ∨ Announced selfId evs d := by
        rw [← h d, present_iff, present_iff, lookup_resolved hc]
        split <;> simp [*]
      simp only [hpresent, announced_resolved hc]
      constructor
      · rintro hex ⟨old, peer', ho, hc', hne, hsole⟩
        obtain rfl := Option.some.inj (hc.symm.trans hc')
        obtain hd | ⟨f, p, hf, hp, hd⟩ := (hex old.deviceId).mp (.inr ⟨_, old, ho, rfl⟩)
        · exact hne hd.symm
        · exact hsole f p hf hp hd
      · intro hno d
        refine or_congr_right' fun hd => ⟨?_, fun ⟨f, p, _, hf, hp⟩ => ⟨f, p, hf, hp⟩⟩
        rintro ⟨f, p, hf, rfl⟩
        by_contra hnone
        push Not at hnone
        obtain rfl : f = ann.fullname := by
          by_contra hne
          exact hnone f p hne hf rfl
        exact hno ⟨p, peer, hf, hc, Ne.symm hd, hnone⟩
  | removed fullname =>
    exact ⟨fun _ => id, fun _ => removed_exact fullname h⟩
  | other =>
    refine ⟨fun _ => id, fun _ => exact_of_unchanged h ?_ fun _ => announces_other⟩
    simp [browsed_append, bridgeEvents, translate]

/-- Presence is exact after each event if and only if no event orphans a device. -/
theorem presence_exact_iff (selfId : DeviceId) (evs : List BrowseEvent) :
    (∀ pre, pre <+: evs → ∀ d, Present d (emitted selfId pre) ↔ Announced selfId pre d) ↔
      ∀ pre ev post, evs = pre ++ ev :: post → ¬ Orphans selfId pre ev := by
  refine forall_prefix_iff (I := fun pre =>
    ∀ d, Present d (emitted selfId pre) ↔ Announced selfId pre d) ?_
    (fun pre ev h => presence_step ev h) evs
  intro d
  simp [Present, Announced, emitted, eventsOf, announces]

/-- A service that two devices use one after the other. -/
def rebinding : List BrowseEvent :=
  [.resolved ⟨"peer.local", some "a", none, none, [], 9001⟩,
    .resolved ⟨"peer.local", some "b", none, none, [], 9001⟩]

/-- The first device stays present although nothing announces it. -/
theorem rebound_stays_present : ¬ ∀ d,
    Present d (emitted "self" rebinding) ↔ Announced "self" rebinding d := by
  intro h
  have hp : Present "a" (emitted "self" rebinding) :=
    ⟨⟨"a", "a", [], 9001, []⟩, by decide +kernel⟩
  obtain ⟨f, p, hf, hd⟩ := (h "a").mp hp
  rw [rebinding, ← List.singleton_append, announces_resolved] at hf
  split at hf
  · obtain rfl := Option.some.inj hf
    exact absurd hd (by decide)
  · rename_i hne
    rw [← List.nil_append [_], announces_resolved, if_neg hne] at hf
    cases hf

theorem fresh_iff : Fresh selfId evs ↔ ∀ d p,
    (browsed selfId evs).lastEmitted.lookup d = some p → ∃ f, announces selfId evs f = some p := by
  refine forall₂_congr fun d p => ?_
  rw [← (tracks selfId evs).last d p]
  refine forall_congr' fun hp => exists_congr fun f => and_iff_left ?_
  exact (mem_of_getLast?_eventsOf hp).2

theorem deviceId_of_lookup {d : DeviceId} {p : PeerInfo}
    (h : (browsed selfId evs).lastEmitted.lookup d = some p) : p.deviceId = d :=
  (mem_of_getLast?_eventsOf (((tracks selfId evs).last d p).mpr h)).2

/-- The consumer has the data that the fullname carries. -/
theorem Carries.lookup {fullname : String} {old : PeerInfo} (h : Carries selfId evs fullname old) :
    (browsed selfId evs).lastEmitted.lookup old.deviceId = some old := by
  obtain ⟨ho, hlatest, -⟩ := h
  obtain ⟨q, hq⟩ := emitted_of_announces ho
  have := (linked selfId evs).latest _ q hq
  rw [hq, ← this, hlatest]

theorem fresh_of_unchanged {ev : BrowseEvent} (h : Fresh selfId evs)
    (hb : browsed selfId (evs ++ [ev]) = browsed selfId evs)
    (ha : ∀ f, announces selfId (evs ++ [ev]) f = announces selfId evs f) :
    Fresh selfId (evs ++ [ev]) := by
  simpa only [fresh_iff, hb, ha] using h

theorem fresh_resolved {ann : Announcement} {peer : PeerInfo}
    (hc : ann.counted selfId = some peer) (h : Fresh selfId evs) :
    Fresh selfId (evs ++ [.resolved ann]) ↔ ¬ Strips selfId evs (.resolved ann) := by
  rw [fresh_iff] at h ⊢
  simp only [lookup_resolved hc, announces_resolved, hc, Option.some_or]
  constructor
  · rintro hex ⟨old, peer', hcar, hc', hne⟩
    obtain rfl := Option.some.inj (hc.symm.trans hc')
    obtain ⟨f, hf⟩ := hex old.deviceId old (by rw [if_neg hne.symm, hcar.lookup])
    split at hf
    · exact hne (congrArg _ (Option.some.inj hf))
    · rename_i hf'
      exact hcar.2.2 f (Ne.symm hf') hf
  · intro hno d p hp
    split at hp
    · exact ⟨ann.fullname, by rwa [if_pos rfl]⟩
    · rename_i hd
      obtain ⟨f, hf⟩ := h d p hp
      by_contra hnone
      push Not at hnone
      have others (f') (hf' : f' ≠ ann.fullname) : announces selfId evs f' ≠ some p := by
        have := hnone f'
        rwa [if_neg hf'.symm] at this
      obtain rfl : f = ann.fullname := by
        by_contra hne
        exact others f hne hf
      obtain rfl := deviceId_of_lookup hp
      exact hno ⟨p, peer, ⟨hf, (linked selfId evs).latest _ p hp, others⟩, hc, Ne.symm hd⟩

theorem fresh_removed (fullname : String) (h : Fresh selfId evs) :
    Fresh selfId (evs ++ [.removed fullname]) ↔ ¬ Strips selfId evs (.removed fullname) := by
  rw [fresh_iff] at h ⊢
  by_cases hshared : ∀ old, announces selfId evs fullname = some old →
      ∃ f p, f ≠ fullname ∧ announces selfId evs f = some p ∧ p.deviceId = old.deviceId
  · simp only [lookup_removed_shared hshared, announces_removed]
    constructor
    · rintro hex ⟨old, hcar, -⟩
      obtain ⟨f, hf⟩ := hex old.deviceId old hcar.lookup
      split at hf
      · cases hf
      · rename_i hf'
        exact hcar.2.2 f (Ne.symm hf') hf
    · intro hno d p hp
      obtain ⟨f, hf⟩ := h d p hp
      by_contra hnone
      push Not at hnone
      have others (f') (hf' : f' ≠ fullname) : announces selfId evs f' ≠ some p := by
        have := hnone f'
        rwa [if_neg hf'.symm] at this
      obtain rfl : f = fullname := by
        by_contra hne
        exact others f hne hf
      obtain rfl := deviceId_of_lookup hp
      exact hno ⟨p, ⟨hf, (linked selfId evs).latest _ p hp, others⟩, hshared p hf⟩
  · push Not at hshared
    obtain ⟨old, ho, hsole⟩ := hshared
    simp only [lookup_removed_sole ho hsole, announces_removed]
    constructor
    · rintro - ⟨old', hcar, f, p, hne, hf, hd⟩
      obtain rfl := Option.some.inj (ho.symm.trans hcar.1)
      exact hsole f p hne hf hd
    · intro _ d p hp
      split at hp
      · cases hp
      · rename_i hd
        obtain ⟨f, hf⟩ := h d p hp
        refine ⟨f, ?_⟩
        rw [if_neg, hf]
        rintro rfl
        obtain rfl := Option.some.inj (ho.symm.trans hf)
        exact hd (deviceId_of_lookup hp).symm

/-- One event keeps the data fresh unless it strips a device of its latest data. -/
theorem fresh_step (ev : BrowseEvent) (h : Fresh selfId evs) :
    Fresh selfId (evs ++ [ev]) ↔ ¬ Strips selfId evs ev := by
  cases ev with
  | resolved ann =>
    cases hc : ann.counted selfId with
    | none =>
      refine ⟨fun _ hst => ?_, fun _ => fresh_of_unchanged h (browsed_uncounted hc) fun f => ?_⟩
      · obtain ⟨_, _, -, hc', -⟩ := hst
        cases hc.symm.trans hc'
      · simp [announces_resolved, hc]
    | some peer => exact fresh_resolved hc h
  | removed fullname => exact fresh_removed fullname h
  | other =>
    refine ⟨fun _ => id, fun _ => fresh_of_unchanged h ?_ fun _ => announces_other⟩
    simp [browsed_append, bridgeEvents, translate]

/-- The data is fresh after each event if and only if no event strips a device of its latest
data. -/
theorem fresh_exact_iff (selfId : DeviceId) (evs : List BrowseEvent) :
    (∀ pre, pre <+: evs → Fresh selfId pre) ↔
      ∀ pre ev post, evs = pre ++ ev :: post → ¬ Strips selfId pre ev :=
  forall_prefix_iff (by simp [Fresh, emitted, eventsOf]) (fun _ ev h => fresh_step ev h) evs

/-- A service is renamed and moves to another port, and then only the new name goes. -/
def partialRemoval : List BrowseEvent :=
  [.resolved ⟨"old.local", some "a", none, none, [], 9001⟩,
    .resolved ⟨"new.local", some "a", none, none, [], 9002⟩, .removed "new.local"]

/-- The consumer is left with a port that nothing announces. -/
theorem partialRemoval_stale : ¬ Fresh "self" partialRemoval := by
  intro h
  obtain ⟨f, hf, -⟩ := h "a" ⟨"a", "a", [], 9002, []⟩ (by decide +kernel)
  rw [partialRemoval, show ∀ a b c : BrowseEvent, [a, b, c] = [] ++ [a] ++ [b] ++ [c] from
    fun _ _ _ => rfl, announces_removed] at hf
  split at hf
  · cases hf
  · rename_i hne
    rw [announces_resolved, if_neg hne, announces_resolved] at hf
    split at hf
    · exact absurd (congrArg PeerInfo.port (Option.some.inj hf)) (by decide)
    · cases hf

end Main

end Yoink.Discovery
