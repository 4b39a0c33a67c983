import Yoink.Sync.Handshake
import Yoink.Sync.Rooms
import Yoink.Sync.Wire

/-!
# The HELLOs an instance sends

Encoding a HELLO does not look at its scope, so it has to be well named already. The scope of a
dialed connection comes from its dial loop, which was spawned for a joined room, and only
canonical names are joined. The scope of an inbound one is the peer's, which had to parse.
-/

namespace Yoink

variable {D P : Type}

/-- The HELLOs an action takes from a socket are well named. -/
def Action.ReadsNamed (a : Action P) : Prop :=
  ∀ e hello, a.reads e = some (some (.hello hello)) → hello.scope.WellNamed

/-- What an action takes from a socket is a byte string, decoded. -/
def Action.OnWire (json : SerdeJson) (a : Action Bytes) : Prop :=
  ∀ e payload, a.reads e = some payload → ∃ bytes, payload = (Frame.decode json bytes).toOption

theorem Action.OnWire.readsNamed {json : SerdeJson} {a : Action Bytes} (h : a.OnWire json) :
    a.ReadsNamed := by
  intro e hello hr
  obtain ⟨bytes, hb⟩ := h e _ hr
  cases hd : Frame.decode json bytes with
  | error err => simp [hd, Except.toOption] at hb
  | ok f =>
    simp only [hd, Except.toOption, Option.some.injEq] at hb
    exact (Frame.sound_of_decode hd hello hb.symm).scope

/-- The scope a task has put into its HELLO, or will put there, is well named. -/
structure ConnTask.ScopeNamed (t : ConnTask P) : Prop where
  dialed : ∀ s, t.dialedScope = some s → s.WellNamed
  echoed : ∀ peer, t.phase = .helloEcho peer → peer.scope.WellNamed

theorem ConnTask.ScopeNamed.keep {t t' : ConnTask P} (h : t.ScopeNamed)
    (hd : t'.dialedScope = t.dialedScope) (hp : ∀ peer, t'.phase ≠ .helloEcho peer) :
    t'.ScopeNamed :=
  ⟨hd ▸ h.dialed, fun peer hpeer => absurd hpeer (hp peer)⟩

/-- A local step only ever learns a scope from the peer's HELLO. -/
theorem ConnTask.ScopeNamed.local {device : DeviceInfo} {act : ConnTask.Act P} {t t' : ConnTask P}
    (h : t.ScopeNamed) (hs : t.Local device act t')
    (ha : ∀ hello, act.reads = some (some (.hello hello)) → hello.scope.WellNamed) :
    t'.ScopeNamed := by
  cases hs with
  | activity => exact h
  | helloArrived =>
    refine ⟨h.dialed, fun peer hpeer => ?_⟩
    obtain rfl := Phase.helloEcho.inj hpeer
    exact ha _ rfl
  | helloEchoed | helloAnswered =>
    refine h.keep rfl fun peer hpeer => ?_
    simp only [validate] at hpeer
    split at hpeer <;> cases hpeer
  | _ => exact h.keep rfl nofun

/-- A HELLO is sent with the scope of the task. -/
theorem ConnTask.ScopeNamed.sends {device : DeviceInfo} {act : ConnTask.Act P} {t t' : ConnTask P}
    (h : t.ScopeNamed) (hs : t.Local device act t') {hello : Hello}
    (ha : act = .sendHello hello) : hello.Sound := by
  subst ha
  have hproto : protocolVersion < 2 ^ 32 := by decide
  cases hs with
  | helloSent _ hd => exact ⟨hproto, h.dialed _ hd⟩
  | helloEchoed hp => exact ⟨hproto, (h.echoed _ hp :)⟩
  | abort _ hs | leave _ hs => cases hs

namespace Manager

/-- Every scope on its way into a HELLO is well named. -/
structure ScopesNamed (m : Manager D P) : Prop where
  joined : ∀ name ∈ m.state.joined, Canonical name
  loops : ∀ i l, m.loops i = some l → l.scope.WellNamed
  conns : ∀ e t, m.conns e = some t → t.ScopeNamed

section Step

variable [Yrs D P] {m m' : Manager D P} {a : Action P}

theorem new_scopesNamed (device : DeviceInfo) (trust : TrustSettings) (rooms : List String) :
    (Manager.new device trust rooms : Manager D P).ScopesNamed := by
  have hbare : (Manager.new device trust rooms : Manager D P).Bare := new_bare _ _ _
  refine ⟨?_, fun i l hl => ?_, fun e t ht => ?_⟩
  · refine new_induction (I := fun m : Manager D P => ∀ name ∈ m.state.joined, Canonical name)
      (fun name hn => ?_) fun m name h => ?_
    · cases hn
    · obtain heq | ⟨hcan, -, heq, -⟩ := m.joinRoom_cases name
      · rwa [heq]
      · rw [heq]
        exact fun other hother => (Finset.mem_insert.mp hother).elim (· ▸ hcan) (h other)
  · rw [hbare.loops] at hl
    cases hl
  · rw [hbare.conns] at ht
    cases ht

variable [DecidableEq P]

/-- Only canonical names are joined. -/
theorem ScopesNamed.joined_step (h : m.ScopesNamed) (hs : m.Step a m') :
    ∀ name ∈ m'.state.joined, Canonical name := by
  cases hroom : hs.roomStep with
  | quiet _ _ hj => exact hj ▸ h.joined
  | created | removed => exact h.joined
  | left _ _ hj => exact fun name hn => h.joined name (Finset.mem_of_mem_erase (hj ▸ hn))
  | @joined t room cs _ hc hn _ hj =>
    obtain ⟨c, cs', hc', rfl⟩ := hs.of_call
    cases hc.symm.trans hc'
    obtain heq | ⟨hcan, -⟩ := m.joinRoom_cases room
    · -- The call changed nothing, so the room was joined before.
      have hsame : m.state.joined = insert room m.state.joined := by
        rw [← hj, setCalls_state, perform, heq]
      exact absurd (hsame ▸ Finset.mem_insert_self room m.state.joined) hn
    · intro name hname
      rw [hj] at hname
      exact (Finset.mem_insert.mp hname).elim (· ▸ hcan) (h.joined name)

/-- A dial loop is spawned for devices or a joined room. -/
theorem ScopesNamed.loops_step (h : m.ScopesNamed) (hs : m.Step a m') (i : TaskId) (l : DialLoop)
    (hl : m'.loops i = some l) : l.scope.WellNamed := by
  have hstep := hs.loopStep i
  rw [hl] at hstep
  generalize hprev : m.loops i = o at hstep
  cases hstep with
  | idle => exact h.loops i _ hprev
  | cancelled | removed | connected =>
    have hscope := h.loops i _ hprev
    exact hscope
  | @spawned _ peerId scope _ _ _ _ _ _ hw =>
    simp only [State.wantsDialer, Bool.and_eq_true, Option.any_eq_true] at hw
    obtain ⟨⟨⟨peer, -, helig⟩, -⟩, -⟩ := hw
    cases scope with
    | devices => trivial
    | room name =>
      simp only [State.scopeEligible, Bool.and_eq_true, decide_eq_true_eq] at helig
      exact h.joined name helig.1
  | @moved _ l₀ _ hlocal =>
    have hscope : l.scope = l₀.scope := congrArg Prod.snd hlocal.same.1
    exact hscope ▸ h.loops i l₀ hprev

/-- A connection is dialed in the scope of its loop, or reads its scope from the peer. -/
theorem ScopesNamed.conns_step (h : m.ScopesNamed) (hs : m.Step a m') (ha : a.ReadsNamed)
    (e : EndId) (t : ConnTask P) (ht : m'.conns e = some t) : t.ScopeNamed := by
  have hstep := hs.connStep e
  rw [ht] at hstep
  generalize hprev : m.conns e = o at hstep
  cases hstep with
  | idle => exact h.conns e t hprev
  | hungUp | queued =>
    obtain ⟨hd, hp⟩ := h.conns e _ hprev
    exact ⟨hd, hp⟩
  | accepted => exact ⟨nofun, nofun⟩
  | dialed hl => exact ⟨fun s hs => Option.some.inj hs ▸ h.loops _ _ hl, nofun⟩
  | moved _ hlocal =>
    refine (h.conns e _ hprev).local hlocal fun hello hr => ha e hello ?_
    simpa [Action.reads] using hr
  | handled | announced =>
    refine (h.conns e _ hprev).keep rfl fun peer hp => ?_
    unfold ConnTask.replyOrSelect at hp
    repeat' split at hp
    all_goals cases hp
  | _ =>
    refine (h.conns e _ hprev).keep rfl fun peer hp => ?_
    cases hp

theorem ScopesNamed.step (h : m.ScopesNamed) (hs : m.Step a m') (ha : a.ReadsNamed) :
    m'.ScopesNamed :=
  ⟨h.joined_step hs, h.loops_step hs, h.conns_step hs ha⟩

/-- A HELLO goes out of the handshake: no queue holds one. -/
theorem ScopesNamed.helloSent (h : m.ScopesNamed) (hs : m.Step a m') {e : EndId}
    (hframe : ∀ t, m.conns e = some t → ∀ f, t.phase.frame = some f → f.isHello = false)
    {hello : Hello} (ha : a.sends e = some (.hello hello)) : hello.Sound := by
  obtain rfl | rfl := Action.sends_hello ha
  · obtain ⟨t, t', ht, -, hlocal, -⟩ := hs.of_conn
    exact (h.conns e t ht).sends hlocal rfl
  · obtain ⟨t, t', ht, -, hlocal, -⟩ := hs.of_conn
    cases hlocal with
    | startSend hp => cases hframe t ht (.hello hello) (by rw [hp]; rfl)
    | abort _ hs | leave _ hs => cases hs

end Step

variable [Yrs D P] [DecidableEq P] {device : DeviceInfo}

/-- As long as every HELLO that comes in is well named. -/
theorem Reachable.scopesNamed {m : Manager D P}
    (h : ((system D P device).restrict fun _ a _ => a.ReadsNamed).Reachable m) :
    m.ScopesNamed := by
  refine h.invariant (I := ScopesNamed) ?_ fun m a m' _ hI hs => ?_
  · rintro m ⟨trust, rooms, rfl⟩
    exact new_scopesNamed device trust rooms
  · obtain ⟨hs, ha⟩ := hs
    exact hI.step (step_cases hs) ha

/-- The HELLOs of a run are ones that the codec gives back. -/
theorem Run.helloSent {τ : List (Transition (Manager D P) (Action P))} {m : Manager D P}
    (h : ((system D P device).restrict fun _ a _ => a.ReadsNamed).Run τ m)
    {t : Transition (Manager D P) (Action P)} (ht : t ∈ τ) {e : EndId} {hello : Hello}
    (ha : t.act.sends e = some (.hello hello)) : hello.Sound := by
  obtain ⟨τ₁, τ₂, hτ⟩ := List.append_of_mem ht
  obtain ⟨hrun, hs, -⟩ := h.split hτ
  have hspoken := (Run.spoken hrun.of_restrict e).2
  exact (Reachable.scopesNamed hrun.reachable).helloSent (step_cases hs)
    (fun task htask => (hspoken task htask).frame) ha

end Manager

/-- The codecs of scopes and frames invert each other on what is sent. -/
theorem codecs_inverse {json : SerdeJson} (hjson : json.RoundTrips) :
    (∀ s scope, Scope.parse s = .ok scope ↔ (s = "devices" ∧ scope = .devices) ∨
      ∃ name, Canonical name ∧ s = "room:" ++ name ∧ scope = .room name) ∧
    (∀ s scope, Scope.parse s = .ok scope → scope.toString = s) ∧
    (∀ scope : Scope, scope.WellNamed → Scope.parse scope.toString = .ok scope) ∧
    (∀ f : Frame Bytes, f.Sound → Frame.decode json (f.encode json) = .ok f) ∧
    (∀ bytes f, Frame.decode json bytes = .ok f → f.isHello = false → f.encode json = bytes) ∧
    ∀ (D : Type) [Yrs D Bytes] (device : DeviceInfo) τ m,
      ((system D Bytes device).restrict fun _ a _ => a.OnWire json).Run τ m →
        ∀ t ∈ τ, ∀ e hello, t.act.sends e = some (.hello hello) →
          Frame.decode json ((Frame.hello hello).encode json) = .ok (.hello hello) := by
  refine ⟨fun _ _ => Scope.parse_eq_ok, fun _ _ => Scope.toString_of_parse,
    fun _ => Scope.parse_toString, fun _ => Frame.decode_encode hjson,
    fun _ _ => Frame.encode_of_decode, fun D _ device τ m h t ht e hello ha => ?_⟩
  have hsound : hello.Sound := by
    refine Manager.Run.helloSent (h.of_restrict.to_restrict fun t ht => ?_) ht ha
    exact Action.OnWire.readsNamed (h.restricted t ht)
  refine Frame.decode_encode hjson fun peer hpeer => ?_
  cases hpeer
  exact hsound

section Runs

/-- A document of bytes; an entry adds its timestamp. -/
abbrev ByteLog := List UInt8

instance : Yrs ByteLog Bytes where
  new := []
  stateVector d := d
  diff d sv := some (d.filter (· ∉ sv))
  applyUpdate d u :=
    some (d ++ u.filter (· ∉ d), if u ⊆ d then none else some (u.filter (· ∉ d)))
  snapshot d := d
  addEntry d entry := (d ++ [.ofNat entry.createdAtMs], [.ofNat entry.createdAtMs])

/-- The room "attic" is joined; "b", who is in it too, is dialed and connects as well. -/
def meeting : List (Action Bytes) :=
  [.invoke 0 (.joinRoom "attic"), .call (.caller 0),
    .invoke 0 (.peerDiscovered ⟨"b", ["attic"]⟩), .call (.caller 0), .call (.caller 0),
    .call (.caller 0), .dialTarget 3, .connected 3 ⟨0, true⟩,
    .conn ⟨0, true⟩ (.sendHello ⟨"a", "A", 2, .room "attic"⟩), .handleInbound ⟨1, false⟩,
    .conn ⟨1, false⟩ (.recv (.frame (some (.hello ⟨"b", "B", 2, .room "attic"⟩)))),
    .conn ⟨1, false⟩ (.sendHello ⟨"a", "A", 2, .room "attic"⟩)]

theorem meeting_onWire : ∀ a ∈ meeting, a.OnWire compactJson := by
  have hquiet : ∀ a ∈ meeting, ∀ e, a.reads e = none ∨
      a.reads e = some (some (.hello ⟨"b", "B", 2, .room "attic"⟩)) := by
    intro a ha e
    simp only [meeting, List.mem_cons, List.not_mem_nil, or_false] at ha
    rcases ha with rfl | rfl | rfl | rfl | rfl | rfl | rfl | rfl | rfl | rfl | rfl | rfl <;>
      simp only [Action.reads, ConnTask.Act.reads] <;> (try split) <;> simp
  intro a ha e payload hr
  obtain h | h := hquiet a ha e
  · rw [h] at hr
    cases hr
  · rw [h] at hr
    obtain rfl := Option.some.inj hr
    refine ⟨_, (congrArg Except.toOption (Frame.decode_encode compactJson_roundTrips ?_)).symm⟩
    intro peer hpeer
    cases hpeer
    exact ⟨by decide, show Canonical "attic" by decide⟩

/-- The HELLO of the meeting, dialed and echoed, arrives as it was sent. -/
theorem codecs_inverse_attic :
    ∃ (τ : List (Transition (Manager ByteLog Bytes) (Action Bytes))) (m : Manager ByteLog Bytes),
      ((system ByteLog Bytes ⟨"a", "A"⟩).restrict fun _ a _ => a.OnWire compactJson).Run τ m ∧
        τ.map (·.act) = meeting ∧
        Frame.decode compactJson
          ((Frame.hello ⟨"a", "A", 2, .room "attic"⟩).encode compactJson) =
            .ok (.hello ⟨"a", "A", 2, .room "attic"⟩) := by
  let first : Manager ByteLog Bytes := .new ⟨"a", "A"⟩ ⟨false, ∅, ∅⟩ []
  obtain ⟨m, hm, -⟩ := System.exists_of_exec
    (show (System.exec Manager.step first meeting).any (fun _ => true) = true by decide +kernel)
  have hacts := System.map_act_trace hm
  have hrun : ((system ByteLog Bytes ⟨"a", "A"⟩).restrict fun _ a _ => a.OnWire compactJson).Run
      (System.trace Manager.step first meeting) m :=
    (run_of_exec hm).to_restrict fun t ht => meeting_onWire _ (System.act_mem_of_mem_trace ht)
  have hmem : .conn ⟨1, false⟩ (.sendHello ⟨"a", "A", 2, .room "attic"⟩) ∈
      (System.trace Manager.step first meeting).map (·.act) := by
    rw [hacts]
    simp [meeting]
  obtain ⟨t, ht, ha⟩ := List.mem_map.mp hmem
  have hsends : t.act.sends ⟨1, false⟩ = some (.hello ⟨"a", "A", 2, .room "attic"⟩) := by
    rw [ha]
    rfl
  exact ⟨_, m, hrun, hacts,
    (codecs_inverse compactJson_roundTrips).2.2.2.2.2 _ _ _ _ hrun t ht _ _ hsends⟩

end Runs

end Yoink
