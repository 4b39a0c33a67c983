import Yoink.Network.Acceptance

/-!
# Agreement of the two ends

In a quiescent net an entry's socket is open, so the connection at its other end is in
the frame loop as well; nobody hung it up, so it holds its own entry. Both have read a frame
after the HELLO, so both are announced.
-/

namespace Yoink

variable {N D P : Type}

namespace Phase

/-- The frame loop, with no frame taken from the socket that was not handled yet. -/
def pumping : Phase P → Bool
  | .select _ _ | .sendOrHangup _ _ _ | .starting _ _ _ | .sending _ _ _ => true
  | _ => false

/-- The socket is closed. -/
def closed : Phase P → Bool
  | .finishing _ _ | .finished _ | .ended _ => true
  | _ => false

theorem registered_of_pumping {p : Phase P} (h : p.pumping = true) :
    ∃ r, p.registered = some r := by
  cases p <;> first | exact ⟨_, rfl⟩ | cases h

end Phase

namespace Manager

theorem Listened.of_pumping {p : Phase P} {rs : List (Option (Frame P))} (h : Listened p rs)
    (hp : p.pumping = true) {r : Registered} (hr : p.registered = some r) :
    Opened r.peer p.announced rs := by
  cases p <;> simp only [Phase.pumping, Bool.false_eq_true] at hp
  all_goals
    cases hr
    exact h

/-- Who has read two messages and has not closed is registered. -/
theorem Listened.registered {p : Phase P} {rs : List (Option (Frame P))} (h : Listened p rs)
    (hrs : 2 ≤ rs.length) (hc : p.closed = false) : ∃ r, p.registered = some r := by
  cases p with
  | helloSend | helloWait =>
    obtain rfl : rs = [] := h
    cases hrs
  | helloEcho | validated | fetched =>
    rw [Opened.length_eq h] at hrs
    omega
  | aborting =>
    have h : rs.length ≤ 1 := h
    omega
  | finished | ended => cases hc
  | _ => exact ⟨_, rfl⟩

theorem Said.of_pumping {device : DeviceInfo} {dialed : Bool} {p : Phase P} {ws : List (Frame P)}
    (h : Said device dialed p ws) (hp : p.pumping = true) : Streaming device ws := by
  cases p <;> first | exact h | cases hp

end Manager

namespace Net

section Quiescence

variable [DecidableEq N]

/-- An end is closed once its task closed it, or its instance is gone. -/
def closed (n : Net N D P) (e : EndId) : Bool :=
  match n.owner e with
  | some i => !n.up i || ((n.node i).conns e).any (·.phase.closed)
  | none => true

/-- Nothing is under way on any socket. -/
structure Quiescent (n : Net N D P) : Prop where
  /-- No socket is in its handshake or being torn down, and no frame is in hand. -/
  settled : ∀ e i, n.owner e = some i → n.up i = true →
    ∃ t, (n.node i).conns e = some t ∧ (t.phase.pumping = true ∨ ∃ o, t.phase = .ended o)
  /-- Every task that was hung up, or is about to be, has ended. -/
  hungUp : ∀ e i t, n.up i = true → (n.node i).connLeases.stopped e →
    (n.node i).conns e = some t → ∃ o, t.phase = .ended o
  frames : ∀ e, n.closed e = false → n.inbox e = []
  closes : ∀ e, n.closed e = true → n.closed e.flip = true

/-- A socket between `i` and `j` that is left open at one of its ends. -/
def OpenBetween (n : Net N D P) (i j : N) (e : EndId) : Prop :=
  n.owner e = some i ∧ n.owner e.flip = some j ∧ (n.closed e = false ∨ n.closed e.flip = false)

/-- Such a socket, whose connection at `i` is of scope `s`. -/
def OpenIn (n : Net N D P) (i j : N) (s : Scope) (e : EndId) : Prop :=
  n.OpenBetween i j e ∧ ∃ r, (n.node i).registered e = some r ∧ r.peer.scope = s

/-- What quiescence means for the connections that are registered. -/
structure Calm (n : Net N D P) : Prop where
  pumping : ∀ i e t r, n.up i = true → (n.node i).conns e = some t →
    t.phase.registered = some r → t.phase.pumping = true
  hungUp : ∀ e i t, n.up i = true → (n.node i).connLeases.stopped e →
    (n.node i).conns e = some t → ∃ o, t.phase = .ended o
  frames : ∀ e, n.closed e = false → n.inbox e = []
  closes : ∀ e, n.closed e = true → n.closed e.flip = true

variable {n : Net N D P} {e : EndId} {i j : N}

theorem Quiescent.calm (h : n.Quiescent) (hw : n.Wired) : n.Calm where
  pumping i e t r hu ht hr := by
    obtain ⟨t', ht', hp | ⟨o, hp⟩⟩ := h.settled e i (hw.task i e (by simp [ht])) hu
    · rwa [Option.some.inj (ht.symm.trans ht')]
    · rw [Option.some.inj (ht.symm.trans ht'), hp] at hr
      cases hr
  hungUp := h.hungUp
  frames := h.frames
  closes := h.closes

theorem Calm.open_flip (h : n.Calm) (he : n.closed e = false) : n.closed e.flip = false := by
  by_contra hne
  have := h.closes e.flip (by simpa using hne)
  rw [EndId.flip_flip, he] at this
  cases this

theorem Calm.is_open (h : n.Calm) (ho : n.owner e = some i) (hu : n.up i = true) {t : ConnTask P}
    {r : Registered} (ht : (n.node i).conns e = some t) (hr : t.phase.registered = some r) :
    n.closed e = false := by
  have hp := h.pumping i e t r hu ht hr
  have : t.phase.closed = false := by
    cases hph : t.phase <;> simp_all [Phase.pumping, Phase.closed]
  simp [closed, ho, hu, ht, this]

/-- An open end of a running instance is registered. -/
theorem Quiescent.registered (h : n.Quiescent) (ho : n.owner e = some i)
    (he : n.closed e = false) :
    n.up i = true ∧ ∃ t r, (n.node i).conns e = some t ∧ t.phase.registered = some r := by
  simp only [closed, ho, Bool.or_eq_false_iff, Bool.not_eq_false'] at he
  obtain ⟨hu, hopen⟩ := he
  obtain ⟨t, ht, hp | ⟨o, hp⟩⟩ := h.settled e i ho hu
  · obtain ⟨r, hr⟩ := Phase.registered_of_pumping hp
    exact ⟨hu, t, r, ht, hr⟩
  · simp [ht, hp, Phase.closed] at hopen

/-- A net in which every socket waits in its frame loop, and nobody has anything to do. -/
theorem Wired.quiescent (hw : n.Wired) (hidle : ∀ i t, (n.node i).calls t = [])
    (h : ∀ e i, n.owner e = some i → n.up i = true ∧ n.inbox e = [] ∧
      ∃ t, (n.node i).conns e = some t ∧ t.phase.pumping = true ∧ t.hangup = false) :
    n.Quiescent where
  settled e i ho _ := by
    obtain ⟨-, -, t, ht, hp, -⟩ := h e i ho
    exact ⟨t, ht, .inl hp⟩
  hungUp e i t _ hs ht := by
    obtain ⟨-, -, t', ht', -, hh⟩ := h e i (hw.task i e (by simp [ht]))
    obtain hs | ⟨x, hs⟩ := hs
    · simp [Manager.hungUp, ht', hh] at hs
    · rw [hidle i x] at hs
      cases hs
  frames e he := by
    cases ho : n.owner e with
    | none => simp [closed, ho] at he
    | some i => exact (h e i ho).2.1
  closes e he := by
    cases ho : n.owner e with
    | none => simp [closed, hw.pair e ho]
    | some i =>
      obtain ⟨hu, -, t, ht, hp, -⟩ := h e i ho
      cases hph : t.phase <;> simp_all [closed, Phase.closed, Phase.pumping]

end Quiescence

section Agreement

variable [DecidableEq N] [Yrs D P] [DecidableEq P] {device : N → DeviceInfo} {n : Net N D P}
  {τ : Trace N D P} {i j : N} {e : EndId}

theorem Run.device_eq (h : (network D P device).Run τ n) (i : N) :
    (n.node i).device = device i :=
  Manager.Reachable.device_eq (Run.history h i).reachable

/-- At most one instance runs under a device id. -/
theorem Run.up_unique (h : (network D P device).Run τ n) (hi : n.up i = true)
    (hj : n.up j = true) (hd : (device i).id = (device j).id) : i = j := by
  simp only [up, Run.device_eq h, decide_eq_true_eq] at hi hj
  rw [hd, hj] at hi
  exact (Option.some.inj hi).symm

/-- Who wrote two frames to a calm end has a registered connection there. -/
theorem Calm.met (h : (network D P device).Run τ n) (hq : n.Calm) (hi : n.owner e = some i)
    (hj : n.owner e.flip = some j) (hui : n.up i = true) {t : ConnTask P} {r : Registered}
    (ht : (n.node i).conns e = some t) (hr : t.phase.registered = some r) :
    n.up j = true ∧ ∃ t' r', (n.node j).conns e.flip = some t' ∧
      t'.phase.registered = some r' := by
  have hopen := hq.open_flip (hq.is_open hi hui ht hr)
  have hinbox := hq.frames e.flip hopen
  simp only [closed, hj, Bool.or_eq_false_iff, Bool.not_eq_false'] at hopen
  obtain ⟨huj, hnc⟩ := hopen
  obtain ⟨scope, sv, rest, hw, -⟩ :=
    ((Manager.Run.spoken (Run.history h i) e).2 t ht).said.of_pumping
      (hq.pumping i e t r hui ht hr)
  have hflow := congrArg List.length (Run.flow h hj (by rwa [EndId.flip_flip]))
  rw [EndId.flip_flip, hinbox, hw] at hflow
  have hlisten := Manager.Run.listened (Run.history h j) e.flip
  have htwo : 2 ≤ (Manager.taken e.flip (historyOf j τ)).length := by
    simp only [List.length_map, List.length_cons, List.length_append, List.map_nil,
      List.length_nil] at hflow
    omega
  cases hc : (n.node j).conns e.flip with
  | none => simp [hlisten.1 hc] at htwo
  | some t' =>
    obtain ⟨r', hr'⟩ := (hlisten.2 t' hc).registered htwo (by simpa [hc] using hnc)
    exact ⟨huj, t', r', rfl, hr'⟩

/-- A calm registered connection is the entry for the instance at the other end, and announced. -/
theorem Calm.entry (h : (network D P device).Run τ n) (hq : n.Calm) (hi : n.owner e = some i)
    (hj : n.owner e.flip = some j) (hui : n.up i = true) {t : ConnTask P} {r : Registered}
    (ht : (n.node i).conns e = some t) (hr : t.phase.registered = some r) :
    r.key = ((device j).id, r.peer.scope) ∧ t.phase.announced = true ∧
      some (.hello r.peer) ∈ Manager.taken e (historyOf i τ) ∧
      ∃ c, (n.node i).state.connections.lookup r.key = some c ∧ c.task = e ∧
        c.announced = true := by
  have hp := hq.pumping i e t r hui ht hr
  obtain ⟨huj, t', r', ht', hr'⟩ := hq.met h hi hj hui ht hr
  have hrun := Run.history h i
  have hopen := ((Manager.Run.listened hrun e).2 t ht).of_pumping hp hr
  -- The other end wrote two frames, and both were read.
  obtain ⟨scope, sv, rest, hw, -⟩ :=
    ((Manager.Run.spoken (Run.history h j) e.flip).2 t' ht').said.of_pumping
      (hq.pumping j e.flip t' r' huj ht' hr')
  have hflow := congrArg List.length (Run.flow h hi hj)
  rw [hq.frames e (hq.is_open hi hui ht hr), hw] at hflow
  have hann : t.phase.announced = true := by
    by_contra hne
    obtain ⟨more, hrs, hm⟩ := hopen
    obtain rfl : more = [] := by simpa [hne] using hm
    simp [hrs] at hflow
  have howned := Manager.Reachable.owned hrun.reachable
  have hreg : (n.node i).registered e = some r := by simp [Manager.registered, ht, hr]
  have hkey : (n.node i).connLeases.key e = some r.key := by simp [Manager.connLeases, hreg]
  have hs : ¬ (n.node i).connLeases.stopped e := fun hs => by
    obtain ⟨o, hend⟩ := hq.hungUp e i t hui hs ht
    rw [hend] at hr
    cases hr
  obtain ⟨c, hl, hc⟩ := Manager.holder_eq_some.mp ((howned.conns.exact r.key e).mpr ⟨hkey, hs⟩)
  have hher := Manager.Reachable.heralded hrun.reachable r.key c t hl (hc ▸ ht) hann
  refine ⟨?_, hann, hopen.mem, c, hl, hc, hher⟩
  rw [← (Run.introduced h hi hj hopen.mem).2]
  rfl

/-- The other end's entry is for the same scope. -/
theorem Calm.paired (h : (network D P device).Run τ n) (hq : n.Calm) (hi : n.owner e = some i)
    (hj : n.owner e.flip = some j) (hui : n.up i = true) {t : ConnTask P} {r : Registered}
    (ht : (n.node i).conns e = some t) (hr : t.phase.registered = some r) :
    ∃ c c', (n.node i).state.connections.lookup ((device j).id, r.peer.scope) = some c ∧
      c.task = e ∧ c.announced = true ∧
      (n.node j).state.connections.lookup ((device i).id, r.peer.scope) = some c' ∧
      c'.task = e.flip ∧ c'.announced = true := by
  have hi' : n.owner e.flip.flip = some i := by rwa [EndId.flip_flip]
  obtain ⟨huj, t', r', ht', hr'⟩ := hq.met h hi hj hui ht hr
  obtain ⟨hk, -, hp, c, hl, hc, ha⟩ := hq.entry h hi hj hui ht hr
  obtain ⟨hk', -, hp', c', hl', hc', ha'⟩ := hq.entry h hj hi' huj ht' hr'
  rw [hk] at hl
  rw [hk', ← Run.one_scope h hi hj hp hp'] at hl'
  exact ⟨c, c', hl, hc, ha, hl', hc', ha'⟩

/-- The socket of an entry goes to the instance the entry names. -/
theorem Calm.entry_open (h : (network D P device).Run τ n) (hq : n.Calm)
    (hui : n.up i = true) (huj : n.up j = true) {s : Scope} {c : ConnectionHandle}
    (hl : (n.node i).state.connections.lookup ((device j).id, s) = some c) :
    n.owner c.task = some i ∧ n.owner c.task.flip = some j ∧
      ∃ t r, (n.node i).conns c.task = some t ∧ t.phase.registered = some r ∧
        r.peer.scope = s := by
  have hrun := Run.history h i
  have howned := Manager.Reachable.owned hrun.reachable
  have hkey := howned.conns.exact.key_of_holder (Manager.holder_eq_some.mpr ⟨c, hl, rfl⟩)
  obtain ⟨r, hr, hk⟩ := Option.map_eq_some_iff.mp hkey
  obtain ⟨t, ht, hph⟩ := Option.bind_eq_some_iff.mp hr
  obtain ⟨hi, j', hj'⟩ := (Reachable.wired h.reachable).owners (i := i) (e := c.task) (by simp [ht])
  obtain ⟨hk', -⟩ := hq.entry h hi hj' hui ht hph
  obtain ⟨hd, hs⟩ : (device j').id = (device j).id ∧ r.peer.scope = s := by
    simpa using hk'.symm.trans hk
  obtain ⟨huj', -⟩ := hq.met h hi hj' hui ht hph
  obtain rfl := Run.up_unique h huj' huj hd
  exact ⟨hi, hj', t, r, ht, hph, hs⟩

/-- In a quiescent state, any two running instances agree on their connections: an open socket
between them is the registered one of its scope at both ends, each entry has its counterpart
on the same socket, and each is connected for the other or neither is. -/
theorem ends_agree (h : (network D P device).Reachable n) (hq : n.Quiescent)
    (hui : n.up i = true) (huj : n.up j = true) :
    (∀ e, n.OpenBetween i j e → ∃ s, n.OpenIn i j s e) ∧
    ∀ s,
      ((n.node i).state.connections.lookup ((device j).id, s)).isSome =
        ((n.node j).state.connections.lookup ((device i).id, s)).isSome ∧
      (∀ c c', (n.node i).state.connections.lookup ((device j).id, s) = some c →
        (n.node j).state.connections.lookup ((device i).id, s) = some c' →
          c'.task = c.task.flip) ∧
      (∀ e e', n.OpenIn i j s e → n.OpenIn i j s e' → e = e') ∧
      ((device j).id ∈ (n.node i).state.connected s ↔
        (device i).id ∈ (n.node j).state.connected s) := by
  obtain ⟨τ, h⟩ := h
  have hcalm := hq.calm (Reachable.wired h.reachable)
  -- An entry at one side has its counterpart at the other, and both are announced.
  have counterpart (i j : N) (hui : n.up i = true) (huj : n.up j = true) (s : Scope)
      (c : ConnectionHandle)
      (hl : (n.node i).state.connections.lookup ((device j).id, s) = some c) :
      ∃ c', (n.node j).state.connections.lookup ((device i).id, s) = some c' ∧
        c'.task = c.task.flip ∧ c.announced = true ∧ c'.announced = true := by
    obtain ⟨hi, hj, t, r, ht, hr, rfl⟩ := hcalm.entry_open h hui huj hl
    obtain ⟨c₁, c', hl₁, -, ha, hl', hc', ha'⟩ := hcalm.paired h hi hj hui ht hr
    obtain rfl : c = c₁ := Option.some.inj (hl.symm.trans hl₁)
    exact ⟨c', hl', hc', ha, ha'⟩
  have hflip {e : EndId} (h : n.closed e = false ∨ n.closed e.flip = false) :
      n.closed e = false := h.elim id fun h => by simpa using hcalm.open_flip h
  -- An open socket is the one its entry names.
  have named (e : EndId) (s : Scope) (ho : n.OpenIn i j s e) :
      ∃ c, (n.node i).state.connections.lookup ((device j).id, s) = some c ∧ c.task = e := by
    obtain ⟨⟨hi, hj, hopen⟩, r, hr, rfl⟩ := ho
    obtain ⟨t, ht, hph⟩ := Option.bind_eq_some_iff.mp hr
    obtain ⟨c, c', hl, hc, -⟩ := hcalm.paired h hi hj hui ht hph
    exact ⟨c, hl, hc⟩
  refine ⟨fun e ho => ?_, fun s => ⟨?_, fun c c' hl hl' => ?_, fun e e' ho ho' => ?_, ?_⟩⟩
  · obtain ⟨hi, hj, hopen⟩ := ho
    obtain ⟨-, t, r, ht, hr⟩ := hq.registered hi (hflip hopen)
    exact ⟨r.peer.scope, ⟨hi, hj, hopen⟩, r, by simp [Manager.registered, ht, hr], rfl⟩
  · rw [Bool.eq_iff_iff, Option.isSome_iff_exists, Option.isSome_iff_exists]
    constructor
    · rintro ⟨c, hl⟩
      obtain ⟨c', hl', -⟩ := counterpart i j hui huj s c hl
      exact ⟨c', hl'⟩
    · rintro ⟨c, hl⟩
      obtain ⟨c', hl', -⟩ := counterpart j i huj hui s c hl
      exact ⟨c', hl'⟩
  · obtain ⟨c₁, hl₁, hc, -⟩ := counterpart i j hui huj s c hl
    rwa [Option.some.inj (hl'.symm.trans hl₁)]
  · obtain ⟨c, hl, rfl⟩ := named e s ho
    obtain ⟨c', hl', rfl⟩ := named e' s ho'
    rw [Option.some.inj (hl.symm.trans hl')]
  · simp only [State.mem_connected, State.announced, Option.any_eq_true]
    constructor
    · rintro ⟨c, hl, -⟩
      obtain ⟨c', hl', -, -, ha'⟩ := counterpart i j hui huj s c hl
      exact ⟨c', hl', ha'⟩
    · rintro ⟨c, hl, -⟩
      obtain ⟨c', hl', -, -, ha'⟩ := counterpart j i huj hui s c hl
      exact ⟨c', hl', ha'⟩

/-- "a" and "b" agree that they are connected. -/
theorem ends_agree_connected :
    ∃ n : Net Bool GrowSet GrowSet, (network GrowSet GrowSet duo).Reachable n ∧ n.Quiescent ∧
      n.up false = true ∧ n.up true = true ∧
      "b" ∈ (n.node false).state.connected .devices ∧
      "a" ∈ (n.node true).state.connected .devices := by
  let e : EndId := ⟨0, true⟩
  let start : Net Bool GrowSet GrowSet := .new duo (fun _ => ⟨false, ∅, ∅⟩) fun _ => []
  let τ := System.trace step start (synced e e.flip)
  let idle (n : Net Bool GrowSet GrowSet) (i : Bool) : Bool :=
    ((historyOf i τ).filterMap (·.act.thread)).all fun t => decide ((n.node i).calls t = [])
  let waits (n : Net Bool GrowSet GrowSet) (i : Bool) (e : EndId) : Bool :=
    ((n.node i).conns e).any (fun t => t.phase.pumping && !t.hangup) &&
      decide (n.owner e = some i ∧ n.up i = true ∧ n.inbox e = [])
  obtain ⟨n, hn, hp⟩ := System.exists_of_exec
    (show (System.exec step start (synced e e.flip)).any (fun n =>
      idle n false && idle n true && waits n false e && waits n true e.flip &&
        (n.node false).state.announced ("b", .devices)) = true by decide +kernel)
  simp only [Bool.and_eq_true, idle, waits, decide_eq_true_eq, Option.any_eq_true,
    Bool.not_eq_true', List.all_eq_true] at hp
  obtain ⟨⟨⟨⟨hia, hib⟩, ⟨t, ht, hpt, hht⟩, hoa, hua, hba⟩, ⟨t', ht', hpt', hht'⟩, hob, hub, hbb⟩,
    hann⟩ := hp
  have hrun := run_of_exec hn
  have hsock : ∀ k ∈ τ.filterMap (·.act.opens), k = 0 := by decide +kernel
  have hq : n.Quiescent := by
    refine (Reachable.wired hrun.reachable).quiescent (fun i t => ?_) fun e' i ho => ?_
    · cases i
      · exact Manager.Run.idle (Run.history hrun false) (List.append_nil _).symm hia t
      · exact Manager.Run.idle (Run.history hrun true) (List.append_nil _).symm hib t
    · obtain ⟨k, d⟩ := e'
      obtain rfl : k = 0 := hsock k (Run.opened hrun (e := ⟨k, d⟩) (by simp [ho]))
      cases d
      · cases hob.symm.trans ho
        exact ⟨hub, hbb, t', ht', hpt', hht'⟩
      · cases hoa.symm.trans ho
        exact ⟨hua, hba, t, ht, hpt, hht⟩
  have hagree := (ends_agree hrun.reachable hq hua hub).2 .devices
  have hconn : "b" ∈ (n.node false).state.connected .devices := State.mem_connected.mpr hann
  exact ⟨n, hrun.reachable, hq, hua, hub, hconn, hagree.2.2.2.mp hconn⟩

end Agreement

end Net

end Yoink
