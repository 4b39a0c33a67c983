import Yoink.App.Instance
import Yoink.Discovery.Stream
import Yoink.Server.StateJson
import Yoink.Sync.Reports
import Yoink.Core.GrowSet

/-!
# Rows of the peer registry

A row enters the registry with an announcement or with a devices connection, and leaves it only
when an announcement is lost. It is accounted for while its device is announced, connected or
about to be reported as disconnected, or explicitly listed and offline. The handler of a
disconnect and the one that takes a device off the list look at no row, so rows stay
accounted for in the runs in which these two events find another reason to keep the row.
-/

namespace Yoink

variable {D P : Type}

/-- What the loop is told of a discovered peer. -/
def Discovery.PeerInfo.announcement (peer : Discovery.PeerInfo) : Yoink.Announcement where
  deviceId := peer.deviceId
  rooms := peer.rooms
  name := peer.name

namespace Instance

/-- A reason for a row that does not end without an event of its own; `n` events of the manager
have been taken. -/
inductive Reason (present : Finset DeviceId) (m : Manager D P) (n : Nat) (d : DeviceId) :
    Prop where
  | announced (h : d ∈ present)
  | connected (h : d ∈ m.state.connected .devices)
  | queued (h : .peerDisconnected d .devices ∈ m.events.drop n)
  | owed {t : ThreadId} (h : m.owed (d, .devices) t ≠ 0)

/-- The step leaves no row without a reason: a disconnect comes for a row that has another one,
and a listing ends for a row that does not rest on it. -/
def KeepsReason (i : Instance D P) : Act P → Prop
  | .handle _ (.sync (.peerDisconnected d .devices)) =>
    ∀ view, i.app.peers.lookup d = some view → Reason i.present i.sync (i.taken + 1) d ∨
      (i.sync.state.isExplicitlyListed d = true ∧ view.online = false)
  | .handle _ (.command (.setDeviceTrusted d trusted)) =>
    i.sync.state.requirePairing ≠ trusted →
      ∀ view, i.app.peers.lookup d = some view → Reason i.present i.sync i.taken d
  | _ => True

/-- Every row is accounted for, also while a command takes its device off the list. -/
structure Accounted (i : Instance D P) : Prop where
  rows : ∀ d view, i.app.peers.lookup d = some view → Reason i.present i.sync i.taken d ∨
    (i.sync.state.isExplicitlyListed d = true ∧ view.online = false)
  unlisting : ∀ d trusted, .setTrusted d trusted ∈ i.sync.calls (.caller 0) →
    i.sync.state.requirePairing ≠ trusted →
      ∀ view, i.app.peers.lookup d = some view → Reason i.present i.sync i.taken d
  taken : i.taken ≤ i.sync.events.length

/-- Every event has been handled and none is on its way. -/
structure Settled (i : Instance D P) : Prop where
  idle : i.Idle
  taken : i.taken = i.sync.events.length
  owed : ∀ t event, .emit event ∉ i.sync.calls t

/-- No ghost rows, and no row online without cause. -/
def NoGhosts (i : Instance D P) : Prop :=
  ∀ d view, i.app.peers.lookup d = some view →
    (d ∈ i.present ∨ d ∈ i.sync.state.connected .devices ∨
      i.sync.state.isExplicitlyListed d = true) ∧
    (view.online = true → d ∈ i.present ∨ d ∈ i.sync.state.connected .devices)

section Reasons

theorem mem_of_session {events : List SyncEvent} {d : DeviceId}
    (h : false ∈ events.filterMap (·.session (d, .devices))) :
    .peerDisconnected d .devices ∈ events := by
  obtain ⟨event, hmem, hevent⟩ := List.mem_filterMap.mp h
  cases event <;> simp_all [SyncEvent.session]

variable {present present' : Finset DeviceId} {m m' : Manager D P} {n : Nat} {d : DeviceId}

theorem Reason.now (h : Reason present m n d) (hn : n = m.events.length)
    (ho : ∀ t event, .emit event ∉ m.calls t) :
    d ∈ present ∨ d ∈ m.state.connected .devices := by
  cases h with
  | announced h => exact .inl h
  | connected h => exact .inr h
  | queued h => simp [hn] at h
  | @owed t h => exact absurd (List.count_eq_zero.mpr (ho t _)) h

theorem Reason.still (h : Reason present m n d) (hp : d ∈ present → d ∈ present') :
    Reason present' m n d := by
  cases h with
  | announced h => exact .announced (hp h)
  | connected h => exact .connected h
  | queued h => exact .queued h
  | owed h => exact .owed h

/-- Requesting an operation ends no reason. -/
theorem Reason.request (h : Reason present m n d) (hidle : m.calls (.caller 0) = [])
    (command : Option Command) : Reason present (m.request command) n d := by
  cases command with
  | none => exact h
  | some command =>
    cases h with
    | announced h => exact .announced h
    | connected h => exact .connected h
    | queued h => exact .queued h
    | @owed t h =>
      have ht : t ≠ .caller 0 := by
        rintro rfl
        simp [Manager.owed, hidle] at h
      refine .owed (t := t) ?_
      simpa [Manager.owed, Manager.request, Function.update_of_ne ht] using h

/-- Taking another event ends no reason. -/
theorem Reason.take (h : Reason present m n d) {event : SyncEvent}
    (hev : m.events[n]? = some event) (hne : event ≠ .peerDisconnected d .devices) :
    Reason present m (n + 1) d := by
  cases h with
  | announced h => exact .announced h
  | connected h => exact .connected h
  | queued h =>
    obtain ⟨hlt, rfl⟩ := List.getElem?_eq_some_iff.mp hev
    rw [List.drop_eq_getElem_cons hlt, List.mem_cons] at h
    exact .queued (h.resolve_left (Ne.symm hne))
  | owed h => exact .owed h

/-- An event of the loop ends the reasons it takes away, and no others. -/
theorem Reason.handle {i : Instance D P} {event : Event P}
    (h : Reason i.present i.sync i.taken d) (hdel : i.Delivers event) (hl : event ≠ .lost d)
    (hd : event ≠ .sync (.peerDisconnected d .devices)) :
    Reason (i.presentAfter event) i.sync (i.takenAfter event) d := by
  cases event with
  | found peer => exact h.still fun hp => Finset.mem_insert_of_mem hp
  | lost d' => exact h.still fun hp => Finset.mem_erase.mpr ⟨fun heq => hl (heq ▸ rfl), hp⟩
  | sync event => exact h.take hdel fun heq => hd (heq ▸ rfl)
  | _ => exact h

/-- A connect that is handled late finds the connection, or the report of its end to come. -/
theorem Reason.connect (ha : m.Answered (d, .devices)) {name : String}
    (hev : m.events[n]? = some (.peerConnected d name .devices)) : Reason present m (n + 1) d := by
  obtain ⟨hlt, heq⟩ := List.getElem?_eq_some_iff.mp hev
  have hsplit : m.reports (d, .devices) =
      (m.events.take n).filterMap (·.session (d, .devices)) ++
        true :: (m.events.drop (n + 1)).filterMap (·.session (d, .devices)) := by
    conv_lhs => rw [Manager.reports, ← List.take_append_drop n m.events]
    rw [List.filterMap_append, List.drop_eq_getElem_cons hlt, heq]
    simp [SyncEvent.session]
  obtain h | h | ⟨t, h⟩ := ha _ _ hsplit
  · exact .connected (State.mem_connected.mpr h)
  · exact .queued (mem_of_session h)
  · exact .owed h

/-- A step of the manager's threads ends no reason without reporting it. -/
theorem Reason.step [Yrs D P] [DecidableEq P] {a : Action P} (h : Reason present m n d)
    (hs : m.Step a m') (ho : m.OwesDisconnects) (hn : n ≤ m.events.length) :
    Reason present m' n d := by
  obtain ⟨events, hev⟩ := hs.events
  have queued (hq : .peerDisconnected d .devices ∈ m.events.drop n ∨
      .peerDisconnected d .devices ∈ events) : Reason present m' n d :=
    .queued (by rw [hev, List.drop_append_of_le_length hn, List.mem_append]; exact hq)
  have hsession := hs.sessionStep ho (d, .devices)
  cases h with
  | announced h => exact .announced h
  | connected h =>
    rw [State.mem_connected] at h
    cases hsession with
    | quiet ha | reported ha => exact .connected (State.mem_connected.mpr (ha.trans h))
    | announced _ _ _ _ hl' =>
      exact .connected (State.mem_connected.mpr (by simp [State.announced, hl']))
    | @ended _ _ t _ _ _ hw => exact .owed (t := t) (by simp [hw])
  | queued h => exact queued (.inl h)
  | @owed t h =>
    cases hsession with
    | quiet _ _ hw | announced _ _ _ _ _ _ hw => exact .owed (t := t) (by rwa [hw])
    | @ended _ _ t' _ _ _ hw =>
      refine .owed (t := t) ?_
      rw [hw, Function.update_apply]
      split
      · exact Nat.succ_ne_zero _
      · exact h
    | reported _ hr =>
      -- The disconnect that was owed is in the queue now.
      have hmem : false ∈ events.filterMap (·.session (d, .devices)) := by
        have hrep : m'.reports (d, .devices) =
            m.reports (d, .devices) ++ events.filterMap (·.session (d, .devices)) := by
          rw [Manager.reports, hev, List.filterMap_append, Manager.reports]
        rw [List.append_cancel_left (hr.symm.trans hrep).symm]
        exact List.mem_singleton_self _
      exact queued (.inr (mem_of_session hmem))

end Reasons

section Invariant

variable [Yrs D P] [Entries D] [DecidableEq P] {i : Instance D P}

omit [Entries D] in
theorem Accounted.sync (h : i.Accounted) {a : Action P} {m : Manager D P} (hs : i.sync.Step a m)
    (ha : a.isInvoke = false) (ho : i.sync.AppOnly) (hw : i.sync.OwesDisconnects) :
    ({ i with sync := m } : Instance D P).Accounted := by
  have reason {d : DeviceId} (hr : Reason i.present i.sync i.taken d) :
      Reason i.present m i.taken d := hr.step hs hw h.taken
  have hmodel : m.state.requirePairing = i.sync.state.requirePairing := by
    obtain ht | ⟨_, d, b, _, -, -, ht⟩ := hs.trust
    · exact congrArg TrustSettings.requirePairing ht
    · exact (congrArg TrustSettings.requirePairing ht).trans
        (i.sync.state.setTrust_requirePairing d b)
  refine ⟨fun d view hrow => ?_, fun d trusted hc hne view hrow => ?_, ?_⟩
  · obtain hr | ⟨hlisted, hoff⟩ := h.rows d view hrow
    · exact .inl (reason hr)
    · obtain ht | ⟨t, d', b, cs, rfl, hc, ht⟩ := hs.trust
      · exact .inr ⟨(State.isExplicitlyListed_congr ht d).trans hlisted, hoff⟩
      · have hcongr : m.state.isExplicitlyListed d = _ := State.isExplicitlyListed_congr ht d
        rw [State.isExplicitlyListed_setTrust] at hcongr
        split at hcongr
        · subst d'
          -- The app itself takes `d` off the list, or puts it there again.
          have happ : t = .caller 0 := by
            by_contra hne
            obtain he | ⟨_, _, he⟩ := ho t hne _ (by rw [hc]; exact List.mem_cons_self)
            · cases he
            · cases he
          subst happ
          by_cases hb : i.sync.state.requirePairing = b
          · exact .inr ⟨by simpa [hb] using hcongr, hoff⟩
          · have hmem : .setTrusted d b ∈ i.sync.calls (.caller 0) := by simp [hc]
            exact .inl (reason (h.unlisting d b hmem hb view hrow))
        · exact .inr ⟨hcongr.trans hlisted, hoff⟩
  · refine reason (h.unlisting d trusted ?_ (hmodel ▸ hne) view hrow)
    have hstep := hs.callStep (.caller 0)
    generalize i.sync.calls (.caller 0) = cs at hstep ⊢
    generalize hcs' : m.calls (.caller 0) = cs' at hstep
    rw [hcs'] at hc
    cases hstep with
    | idle => exact hc
    | invoked => cases ha
    | made =>
      obtain hc | hc := List.mem_append.mp hc
      · simpa [Call.isEffect] using i.sync.perform_isEffect _ _ hc
      · exact List.mem_cons_of_mem _ hc
    | given ht => exact absurd rfl (ht 0)
  · obtain ⟨events, hev⟩ := hs.events
    rw [hev, List.length_append]
    exact Nat.le_add_right_of_le h.taken

omit [Yrs D P] [DecidableEq P] in
theorem Accounted.handle (h : i.Accounted) {env : Env} {event : Event P} (hidle : i.Idle)
    (hdel : i.Delivers event) (hk : i.KeepsReason (.handle env event))
    (ha : ∀ k, i.sync.Answered k) :
    Accounted (D := D) {
      app := (i.react env event).app
      sync := i.sync.request (i.react env event).command
      taken := i.takenAfter event
      present := i.presentAfter event } := by
  generalize hcmd : (i.react env event).command = command
  have hstate : (i.sync.request command).state = i.sync.state := by cases command <;> rfl
  have hevents : (i.sync.request command).events = i.sync.events := by cases command <;> rfl
  refine ⟨fun d view hrow => ?_, fun d trusted hc hne view hrow => ?_, ?_⟩
  · cases App.handle_row hrow with
    | found => exact .inl (.announced (Finset.mem_insert_self _ _))
    | offline _ hkeep =>
      obtain hlisted | hconn := Bool.or_eq_true_iff.mp hkeep
      · exact .inr ⟨by rw [hstate]; exact hlisted, rfl⟩
      · exact .inl (.connected (by rw [hstate]; exact of_decide_eq_true hconn))
    | renamed | seeded => exact .inl ((Reason.connect (ha _) hdel).request hidle command)
    | old hold hlost =>
      by_cases hd : event = .sync (.peerDisconnected d .devices)
      · subst hd
        exact (hk view hold).imp (fun hr => hr.request hidle command)
          fun hlisted => ⟨by rw [hstate]; exact hlisted.1, hlisted.2⟩
      · exact (h.rows d view hold).imp
          (fun hr => (hr.handle hdel hlost hd).request hidle command)
          fun hlisted => ⟨by rw [hstate]; exact hlisted.1, hlisted.2⟩
  · rw [hstate] at hne
    cases command with
    | none => simp [Manager.request, show i.sync.calls (.caller 0) = [] from hidle] at hc
    | some command =>
      simp only [Manager.request, Manager.setCalls_calls, Function.update_self] at hc
      obtain rfl := App.handle_setTrusted hcmd hc
      exact (hk hne view hrow).request hidle (some command)
  · rw [hevents]
    cases event with
    | sync event =>
      obtain ⟨hlt, -⟩ := List.getElem?_eq_some_iff.mp hdel
      exact hlt
    | _ => exact h.taken

variable {config : Config} {name : String} {settings : EffectiveSettings}

/-- The announcements of a run are what discovery emitted. -/
def Discovered (τ : List (Transition (Instance D P) (Act P))) : Prop :=
  ∀ t ∈ τ, ∀ env peer, t.act = .handle env (.found peer) → ∃ selfId evs found,
    .found found ∈ Discovery.emitted selfId evs ∧ peer = found.announcement

/-- Discovery names no room twice, so the rows are keyed. -/
theorem Run.keyedRows {τ : List (Transition (Instance D P) (Act P))}
    (h : (system D P config name settings).Run τ i) (hfound : Discovered τ) :
    KeyedRows i.app.peers := by
  revert hfound
  refine h.history (I := fun τ i => Discovered τ → KeyedRows i.app.peers) ?_
    fun τ i a i' _ hI hs hfound => ?_
  · rintro i rfl - id view hv
    cases hv
  · have hrows := hI fun t ht => hfound t (List.mem_append_left _ ht)
    cases step_cases hs with
    | sync => exact hrows
    | @handle env event =>
      refine hrows.handle _ _ env fun peer heq => ?_
      obtain ⟨selfId, evs, found, hmem, rfl⟩ := hfound ⟨i, .handle env event, _⟩
        (List.mem_append_right _ (List.mem_singleton_self _)) env peer (heq ▸ rfl)
      exact ((Discovery.tracks selfId evs).normal found hmem).rooms.nodup

/-- What the server reads of an instance. -/
def serverCtx (i : Instance D P) (settings : Settings) : ServerCtx where
  device := i.app.device
  docs := i.sync.docs.view
  sync := i.sync.state
  peers := i.app.peers
  settings
  joinedRooms := i.app.joinedRooms

/-- What the browser is shown of a running instance is exact. -/
theorem Run.shows {τ : List (Transition (Instance D P) (Act P))}
    (h : (system D P config name settings).Run τ i) (hfound : Discovered τ)
    (toLowercase : String → String) (ui : Settings) (scope : Scope)
    (order : Iteration (i.serverCtx ui).explicit) :
    ((i.serverCtx ui).snapshot scope order).Shows toLowercase
      ((i.serverCtx ui).buildState toLowercase scope order) :=
  StateSnapshot.build_shows (Run.keyedRows h hfound) toLowercase

/-- In the runs whose steps keep a reason for every row, no settled registry has a ghost row. -/
theorem no_ghosts (h : ((system D P config name settings).restrict
    fun i a _ => i.KeepsReason a).Reachable i) (hs : i.Settled) : i.NoGhosts := by
  have hacc : i.Accounted := by
    refine h.invariant (I := Accounted) ?_ fun i a i' hr hI hs => ?_
    · rintro i rfl
      refine ⟨fun d view hrow => ?_, fun d trusted hc => ?_, Nat.zero_le _⟩
      · simp [start] at hrow
      · rw [start_sync, (Manager.new_bare _ _ _).calls] at hc
        cases hc
    · have hr := hr.of_restrict
      obtain ⟨hs, hk⟩ := hs
      obtain ⟨τ, hτ⟩ := Reachable.sync hr
      cases step_cases hs with
      | handle hidle hdel =>
        exact hI.handle hidle hdel hk fun k => Manager.Reachable.answered ⟨τ, hτ⟩ k
      | sync ha hm =>
        exact hI.sync (Manager.step_cases hm) ha (Reachable.appOnly hr)
          (Manager.Run.owesDisconnects hτ)
  intro d view hrow
  obtain hr | ⟨hlisted, hoff⟩ := hacc.rows d view hrow
  · have hnow := hr.now hs.taken hs.owed
    exact ⟨hnow.elim .inl fun h => .inr (.inl h), fun _ => hnow⟩
  · exact ⟨.inr (.inr hlisted), fun hon => by simp [hoff] at hon⟩

end Invariant

/-- A device says HELLO, is announced and hangs up; the loop handles both events. -/
def visit (e : EndId) : List (Act EntryLog) :=
  [.sync (.handleInbound e),
    .sync (.conn e (.recv (.frame (some (.hello ⟨"b", "B", 2, .devices⟩))))),
    .sync (.conn e (.sendHello ⟨"z", "Z", 2, .devices⟩)), .sync (.fetchDoc e),
    .sync (.register e), .sync (.sendStep1 e []), .sync (.conn e (.step1Sent true)),
    .sync (.conn e (.recv (.frame (some (.syncStep2 []))))), .sync (.handleFrame e),
    .sync (.tryAnnounce e), .handle ⟨0, "e", true⟩ (.sync (.peerConnected "b" "B" .devices)),
    .sync (.conn e .recvNone), .sync (.conn e .closed), .sync (.finishConnection e),
    .sync (.call (.conn e)), .sync (.call (.conn e)),
    .handle ⟨0, "e", true⟩ (.sync (.peerDisconnected "b" .devices))]

/-- A settled state of an execution. -/
theorem settled_of_exec {config : Config} {name : String} {settings : EffectiveSettings}
    {i : Instance EntryLog EntryLog} {as : List (Act EntryLog)}
    (h : System.exec step (start config name settings) as = some i)
    (ht : i.taken = i.sync.events.length)
    (hall : ((System.trace step (start config name settings : Instance EntryLog EntryLog)
      as).filterMap (·.act.thread)).all (fun t => decide (i.sync.calls t = [])) = true) :
    i.Settled := by
  simp only [List.all_eq_true, decide_eq_true_eq] at hall
  have hidle := Run.idle (run_of_exec h) hall
  refine ⟨hidle _, ht, fun t event hc => ?_⟩
  rw [hidle] at hc
  cases hc

/-- A device that was never announced connects and goes: its row stays, and stays online. -/
theorem ghost_row :
    ∃ i : Instance EntryLog EntryLog,
      (system EntryLog EntryLog ⟨"z", none, [], [], []⟩ "Z" ⟨false, .manual, true⟩).Reachable i ∧
        i.Settled ∧ ¬ i.NoGhosts := by
  let first : Instance EntryLog EntryLog :=
    start ⟨"z", none, [], [], []⟩ "Z" ⟨false, .manual, true⟩
  let acts := visit ⟨0, false⟩
  obtain ⟨i, hi, hp⟩ := System.exists_of_exec
    (show (System.exec step first acts).any (fun i =>
      decide (i.taken = i.sync.events.length ∧
        i.app.peers.lookup "b" = some ⟨⟨⟨"b", []⟩, "B"⟩, true⟩ ∧
        "b" ∉ i.present ∧ "b" ∉ i.sync.state.connected .devices) &&
      ((System.trace step first acts).filterMap (·.act.thread)).all
        fun t => decide (i.sync.calls t = [])) = true by decide +kernel)
  simp only [Bool.and_eq_true, decide_eq_true_eq] at hp
  obtain ⟨⟨ht, hrow, hpresent, hconn⟩, hall⟩ := hp
  refine ⟨i, (run_of_exec hi).reachable, settled_of_exec hi ht hall, fun hn => ?_⟩
  exact ((hn "b" _ hrow).2 rfl).elim hpresent hconn

/-- No command is handled, and a disconnect comes for a device that is announced. -/
def announcedCheck (i : Instance D P) : Act P → Bool
  | .handle _ (.sync (.peerDisconnected d .devices)) => decide (d ∈ i.present)
  | .handle _ (.command _) => false
  | _ => true

theorem KeepsReason.of_announced {i : Instance D P} {a : Act P} (h : i.announcedCheck a = true) :
    i.KeepsReason a := by
  unfold KeepsReason
  split
  · exact fun view _ => .inl (.announced (by simpa [announcedCheck] using h))
  · simp [announcedCheck] at h
  · trivial

/-- The same visit of a device that is announced over mDNS. -/
theorem no_ghosts_announced :
    ∃ i : Instance EntryLog EntryLog, i.app.peers.lookup "b" ≠ none ∧ i.NoGhosts := by
  let first : Instance EntryLog EntryLog :=
    start ⟨"z", none, [], [], []⟩ "Z" ⟨false, .manual, true⟩
  let acts : List (Act EntryLog) :=
    .handle ⟨0, "e", true⟩ (.found ⟨⟨"b", []⟩, "B"⟩) :: .sync (.call (.caller 0)) ::
      .sync (.call (.caller 0)) :: visit ⟨0, false⟩
  obtain ⟨i, hi, hp⟩ := System.exists_of_exec
    (show (System.exec step first acts).any (fun i =>
      decide (i.taken = i.sync.events.length ∧ i.app.peers.lookup "b" ≠ none) &&
      ((System.trace step first acts).filterMap (·.act.thread)).all
        fun t => decide (i.sync.calls t = [])) = true by decide +kernel)
  simp only [Bool.and_eq_true, decide_eq_true_eq] at hp
  obtain ⟨⟨ht, hrow⟩, hall⟩ := hp
  have hkeeps : ∀ t ∈ System.trace step first acts, t.pre.KeepsReason t.act := by
    have hcheck : (System.trace step first acts).all (fun t => t.pre.announcedCheck t.act) = true :=
      by decide +kernel
    exact fun t ht => .of_announced (List.all_eq_true.mp hcheck t ht)
  exact ⟨i, hrow, no_ghosts ((run_of_exec hi).to_restrict hkeeps).reachable
    (settled_of_exec hi ht hall)⟩

end Instance

end Yoink
