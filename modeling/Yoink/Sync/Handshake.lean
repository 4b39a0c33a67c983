import Yoink.Sync.Sessions

/-!
# The handshake gate

What one connection writes, and what must have happened before it writes, applies or
reports anything: `Known` relates a task's phase to the history of its connection, and
`Said` its phase to the frames it has written so far.
-/

namespace Yoink

variable {D P : Type}

/-- The transitions of a run. -/
abbrev History (D P : Type) := List (Transition (Manager D P) (Action P))

namespace Manager

section Events

variable (e : EndId)

/-- The frames whose write was started on `e`. -/
def written (τ : History D P) : List (Frame P) := τ.filterMap (·.act.sends e)

/-- The connection `e` was dialed for `scope`. -/
def DialedFor (scope : Scope) : History D P → Prop :=
  System.After (fun _ => True) fun t => ∃ i l, t.act = .connected i e ∧
    t.pre.loops i = some l ∧ l.scope = scope

/-- The peer's HELLO was read and decoded. -/
def Heard (peer : Hello) : History D P → Prop :=
  System.After (fun _ => True) fun t => t.act.reads e = some (some (.hello peer))

/-- A critical section registered `e` for `peer`, and found it accepted. -/
def Entered (peer : Hello) : History D P → Prop :=
  System.After (Heard e peer) fun t => t.act = .register e ∧
    t.pre.state.accepts peer.key = true ∧ ∃ r, t.post.registered e = some r ∧ r.peer = peer

/-- A further frame was read and decoded. -/
def Received (peer : Hello) : History D P → Prop :=
  System.After (Entered e peer) fun t => ∃ f, t.act.reads e = some (some f)

/-- It was handled without error. -/
def Handled (peer : Hello) : History D P → Prop :=
  System.After (Received e peer) fun t => t.act = .handleFrame e ∧
    ∃ task r reply, t.post.conns e = some task ∧ task.phase = .handled r reply

end Events

theorem written_concat (e : EndId) (τ : History D P) (t : Transition (Manager D P) (Action P)) :
    written e (τ ++ [t]) = written e τ ++ (t.act.sends e).toList := by
  simp only [written, List.filterMap_append, List.filterMap_cons, List.filterMap_nil]
  cases t.act.sends e <;> rfl

/-- What the phase of a task says about the history of its connection. -/
structure Known (device : DeviceInfo) (e : EndId) (τ : History D P) (t : ConnTask P) : Prop where
  dialed : ∀ s, t.dialedScope = some s → DialedFor e s τ
  inbound : t.dialedScope = none → e.dialed = false
  hello : ∀ peer, t.phase.hello = some peer → Heard e peer τ
  valid : ∀ peer, t.phase.hello = some peer → t.phase ≠ .helloEcho peer →
    ConnTask.validatePeer device t.dialedScope peer = true
  entered : ∀ r, t.phase.registered = some r → Entered e r.peer τ
  received : ∀ r a f, t.phase = .received r a (some f) → Received e r.peer τ
  handled : ∀ r reply, t.phase = .handled r reply → Handled e r.peer τ

theorem Known.append {device : DeviceInfo} {e : EndId} {τ : History D P} {t : ConnTask P}
    (h : Known device e τ t) (τ' : History D P) : Known device e (τ ++ τ') t where
  dialed s hs := (h.dialed s hs).append τ'
  inbound := h.inbound
  hello peer hp := (h.hello peer hp).append τ'
  valid := h.valid
  entered r hr := (h.entered r hr).append τ'
  received r a f hp := (h.received r a f hp).append τ'
  handled r reply hp := (h.handled r reply hp).append τ'

/-- The flag and the queue of a task say nothing about its history. -/
theorem Known.congr {device : DeviceInfo} {e : EndId} {τ : History D P} {t t' : ConnTask P}
    (h : Known device e τ t) (hd : t'.dialedScope = t.dialedScope) (hp : t'.phase = t.phase) :
    Known device e τ t' := by
  obtain ⟨scope, owner, phase, outbound, rxOpen, hangup⟩ := t'
  obtain rfl : scope = t.dialedScope := hd
  obtain rfl : phase = t.phase := hp
  exact ⟨h.dialed, h.inbound, h.hello, h.valid, h.entered, h.received, h.handled⟩

/-- A move within one registration and one HELLO. -/
theorem Known.move {device : DeviceInfo} {e : EndId} {τ : History D P} {t t' : ConnTask P}
    (h : Known device e τ t) (hd : t'.dialedScope = t.dialedScope)
    (hh : ∀ peer, t'.phase.hello = some peer → t.phase.hello = some peer ∧
      t.phase ≠ .helloEcho peer)
    (hr : ∀ r, t'.phase.registered = some r → t.phase.registered = some r)
    (hrec : ∀ r a f, t'.phase ≠ .received r a (some f))
    (hhan : ∀ r reply, t'.phase ≠ .handled r reply) : Known device e τ t' where
  dialed s hs := h.dialed s (hd ▸ hs)
  inbound hs := h.inbound (hd ▸ hs)
  hello peer hp := h.hello peer (hh peer hp).1
  valid peer hp _ := hd ▸ h.valid peer (hh peer hp).1 (hh peer hp).2
  entered r hr' := h.entered r (hr r hr')
  received r a f hp := absurd hp (hrec r a f)
  handled r reply hp := absurd hp (hhan r reply)

/-- A move to a phase that knows nothing of a peer. -/
theorem Known.forget {device : DeviceInfo} {e : EndId} {τ : History D P} {t t' : ConnTask P}
    (h : Known device e τ t) (hd : t'.dialedScope = t.dialedScope) (hh : t'.phase.hello = none)
    (hr : t'.phase.registered = none) : Known device e τ t' := by
  refine h.move hd (by simp [hh]) (by simp [hr]) (fun r a f hp => ?_) fun r reply hp => ?_
  · simp [hp, Phase.registered] at hr
  · simp [hp, Phase.registered] at hr

/-- A move to a phase that has heard a HELLO, and is not registered. -/
theorem Known.heard {device : DeviceInfo} {e : EndId} {τ : History D P} {t t' : ConnTask P}
    {peer : Hello} (h : Known device e τ t) (hd : t'.dialedScope = t.dialedScope)
    (hh : t'.phase.hello = some peer) (hr : t'.phase.registered = none)
    (hpeer : Heard e peer τ) (hv : t'.phase ≠ .helloEcho peer →
      ConnTask.validatePeer device t.dialedScope peer = true) : Known device e τ t' := by
  have hsame {peer'} (hp : t'.phase.hello = some peer') : peer' = peer :=
    Option.some.inj (hp.symm.trans hh)
  refine ⟨fun s hs => h.dialed s (hd ▸ hs), fun hs => h.inbound (hd ▸ hs), fun peer' hp => ?_,
    fun peer' hp hne => ?_, fun r hp => ?_, fun r a f hp => ?_, fun r reply hp => ?_⟩
  · rwa [hsame hp]
  · obtain rfl := hsame hp
    rw [hd]
    exact hv hne
  · rw [hr] at hp
    cases hp
  · simp [hp, Phase.registered] at hr
  · simp [hp, Phase.registered] at hr

theorem Known.local {device : DeviceInfo} {e : EndId} {τ : History D P} {t t' : ConnTask P}
    {act : ConnTask.Act P} {m m' : Manager D P} (h : Known device e τ t)
    (hs : t.Local device act t') : Known device e (τ ++ [⟨m, .conn e act, m'⟩]) t' := by
  have hk := h.append [⟨m, .conn e act, m'⟩]
  have hreads {f : Frame P} (hf : act.reads = some (some f)) :
      (Action.conn e act).reads e = some (some f) := by simp [Action.reads, hf]
  cases hs with
  | activity => exact hk
  | helloSent hp => exact hk.forget rfl rfl rfl
  | helloFailed hp => exact hk.forget rfl rfl rfl
  | notHello | abort => exact hk.forget rfl rfl rfl
  | abortClosed | returned => exact hk.forget rfl rfl rfl
  | helloEchoed hp =>
    obtain ⟨hv, hph⟩ | hph := ConnTask.validate_cases (P := P) device t.dialedScope ‹Hello›
    · rw [hph]
      exact hk.heard rfl rfl rfl (hk.hello _ (by simp [hp, Phase.hello])) fun _ => hv
    · rw [hph]
      exact hk.forget rfl rfl rfl
  | helloAnswered hp =>
    obtain ⟨hv, hph⟩ | hph := ConnTask.validate_cases (P := P) device t.dialedScope ‹Hello›
    · rw [hph]
      exact hk.heard rfl rfl rfl (.last trivial (hreads rfl)) fun _ => hv
    · rw [hph]
      exact hk.forget rfl rfl rfl
  | helloArrived hp =>
    exact hk.heard rfl rfl rfl (.last trivial (hreads rfl)) fun hne => absurd rfl hne
  | @recvFrame r a payload hp =>
    refine ⟨hk.dialed, hk.inbound, fun peer hh => ?_, fun peer hh _ => ?_, fun r' hr => ?_,
      fun r' a' f hr => ?_, fun r' reply hr => ?_⟩
    · exact hk.hello _ (by simpa [hp, Phase.hello, Phase.registered] using hh)
    · exact hk.valid _ (by simpa [hp, Phase.hello, Phase.registered] using hh) (by simp [hp])
    · exact hk.entered _ (by simpa [hp, Phase.registered] using hr)
    · cases hr
      exact .last (h.entered _ (by simp [hp, Phase.registered])) ⟨f, hreads rfl⟩
    · cases hr
  | leave hp =>
    obtain hp | ⟨_, hp | hp⟩ := hp <;>
      exact hk.move rfl (by simp [hp, Phase.hello, Phase.registered, ConnTask.breakLoop])
        (by simp [hp, Phase.registered, ConnTask.breakLoop]) (by simp [ConnTask.breakLoop])
        (by simp [ConnTask.breakLoop])
  | step1Sent hp | step1Failed hp | ping hp | dequeue hp | allowed hp | startSend hp | sent hp
  | closed hp =>
    exact hk.move rfl (by simp [hp, Phase.hello, Phase.registered])
      (by simp [hp, Phase.registered]) (by simp) (by simp)

variable [Yrs D P] [DecidableEq P]

theorem Known.step {e : EndId} {τ : History D P} {m m' : Manager D P} {a : Action P}
    (hs : m.Step a m') (h : ∀ t, m.conns e = some t → Known m.device e τ t) {t' : ConnTask P}
    (ht' : m'.conns e = some t') : Known m.device e (τ ++ [⟨m, a, m'⟩]) t' := by
  have hc := hs.connStep e
  rw [ht'] at hc
  generalize hm : m.conns e = o at hc
  cases hc with
  | idle => exact (h t' hm).append _
  | hungUp | queued => exact ((h _ hm).append _).congr rfl rfl
  | accepted hd => exact ⟨nofun, fun _ => hd, nofun, nofun, nofun, nofun, nofun⟩
  | dialed hl hp hd =>
    refine ⟨fun s hs => ?_, nofun, nofun, nofun, nofun, nofun, nofun⟩
    cases hs
    exact .last trivial ⟨_, _, rfl, hl, rfl⟩
  | moved hc hs => exact (h _ hm).local hs
  | fetched hp =>
    have hk := (h _ hm).append [⟨m, .fetchDoc e, m'⟩]
    refine hk.move rfl (by simp [hp, Phase.hello]) (by simp [Phase.registered]) (by simp) (by simp)
  | refused hp =>
    exact ((h _ hm).append _).forget rfl rfl rfl
  | @entered t peer doc g hp ha =>
    have hk := (h _ hm).append [⟨m, .register e, m'⟩]
    have hheard : Heard e peer τ := (h _ hm).hello peer (by simp [hp, Phase.hello])
    refine ⟨hk.dialed, hk.inbound, fun p hh => ?_, fun p hh _ => ?_, fun r hr => ?_,
      fun r a f hr => ?_, fun r reply hr => ?_⟩
    · exact hk.hello _ (by simpa [hp, Phase.hello, Phase.registered] using hh)
    · exact hk.valid _ (by simpa [hp, Phase.hello, Phase.registered] using hh) (by simp [hp])
    · obtain rfl : (⟨peer, doc, g⟩ : Registered) = r := by simpa [Phase.registered] using hr
      exact .last hheard ⟨rfl, ha, _, by simp [registered, ht', Phase.registered], rfl⟩
    · cases hr
    · cases hr
  | step1 hp =>
    exact ((h _ hm).append _).move rfl (by simp [hp, Phase.hello, Phase.registered])
      (by simp [hp, Phase.registered]) (by simp) (by simp)
  | @handled t r announced payload m₁ reply hp hf =>
    have hk := (h _ hm).append [⟨m, .handleFrame e, m'⟩]
    have hsome : ∃ f, payload = some f := by
      cases payload with
      | none => cases hf
      | some f => exact ⟨f, rfl⟩
    obtain ⟨f, rfl⟩ := hsome
    have hrec := (h _ hm).received r announced f hp
    clear hf
    refine ⟨hk.dialed, hk.inbound, fun p hh => ?_, fun p hh _ => ?_, fun r' hr => ?_,
      fun r' a' f' hr => ?_, fun r' reply' hr => ?_⟩
    · refine hk.hello _ ?_
      cases announced <;> cases reply <;>
        simpa [hp, Phase.hello, Phase.registered, ConnTask.replyOrSelect] using hh
    · refine hk.valid _ ?_ (by simp [hp])
      cases announced <;> cases reply <;>
        simpa [hp, Phase.hello, Phase.registered, ConnTask.replyOrSelect] using hh
    · refine hk.entered _ ?_
      cases announced <;> cases reply <;>
        simpa [hp, Phase.registered, ConnTask.replyOrSelect] using hr
    · cases announced <;> cases reply <;> simp [ConnTask.replyOrSelect] at hr
    · cases announced with
      | true => cases reply <;> simp [ConnTask.replyOrSelect] at hr
      | false =>
        obtain ⟨rfl, rfl⟩ : r = r' ∧ reply = reply' := by simpa using hr
        exact .last hrec ⟨rfl, _, _, _, ht', rfl⟩
  | rejected hp =>
    exact ((h _ hm).append _).move rfl
      (by simp [hp, Phase.hello, Phase.registered, ConnTask.breakLoop])
      (by simp [hp, Phase.registered, ConnTask.breakLoop]) (by simp [ConnTask.breakLoop])
      (by simp [ConnTask.breakLoop])
  | @announced t r reply c hp =>
    refine ((h _ hm).append _).move rfl ?_ ?_ ?_ ?_ <;> cases reply <;>
      simp [hp, Phase.hello, Phase.registered, ConnTask.replyOrSelect]
  | unannounced hp =>
    exact ((h _ hm).append _).move rfl
      (by simp [hp, Phase.hello, Phase.registered, ConnTask.breakLoop])
      (by simp [hp, Phase.registered, ConnTask.breakLoop]) (by simp [ConnTask.breakLoop])
      (by simp [ConnTask.breakLoop])
  | finished hp => exact ((h _ hm).append _).forget rfl rfl rfl

/-- Our HELLO, and nothing else. -/
def Greeted (device : DeviceInfo) (ws : List (Frame P)) : Prop :=
  ∃ scope, ws = [.hello (ConnTask.helloFrame device scope)]

/-- HELLO, SYNC_STEP_1, then any other frames but a HELLO. -/
def Streaming (device : DeviceInfo) (ws : List (Frame P)) : Prop :=
  ∃ scope sv rest, ws = .hello (ConnTask.helloFrame device scope) :: .syncStep1 sv :: rest ∧
    ∀ f ∈ rest, f.isHello = false

/-- What a task at a given phase has written. -/
def Said (device : DeviceInfo) (dialed : Bool) : Phase P → List (Frame P) → Prop
  | .helloSend, ws | .helloEcho _, ws => ws = []
  | .helloWait, ws => if dialed then Greeted device ws else ws = []
  | .validated _, ws | .fetched _ _ _, ws | .ready _, ws => Greeted device ws
  | .aborting, ws | .finished _, ws | .ended _, ws =>
    ws = [] ∨ Greeted device ws ∨ Streaming device ws
  | _, ws => Streaming device ws

/-- No HELLO waits to be written, and what was written fits the phase. -/
structure Spoken (device : DeviceInfo) (t : ConnTask P) (ws : List (Frame P)) : Prop where
  outbound : ∀ f ∈ t.outbound, f.isHello = false
  frame : ∀ f, t.phase.frame = some f → f.isHello = false
  said : Said device t.dialedScope.isSome t.phase ws

omit [Yrs D P] [DecidableEq P] in
theorem Said.any {device : DeviceInfo} {dialed : Bool} {p : Phase P} {ws : List (Frame P)}
    (h : Said device dialed p ws) : ws = [] ∨ Greeted device ws ∨ Streaming device ws := by
  cases p with
  | helloSend | helloEcho => exact .inl h
  | helloWait => cases dialed <;> simp_all [Said]
  | validated | fetched | ready => exact .inr (.inl h)
  | aborting | finished | ended => exact h
  | _ => exact .inr (.inr h)

omit [Yrs D P] [DecidableEq P] in
theorem Streaming.concat {device : DeviceInfo} {ws : List (Frame P)} (h : Streaming device ws)
    {f : Frame P} (hf : f.isHello = false) : Streaming device (ws ++ [f]) := by
  obtain ⟨scope, sv, rest, rfl, hr⟩ := h
  refine ⟨scope, sv, rest ++ [f], rfl, fun g hg => ?_⟩
  obtain hg | hg := List.mem_append.mp hg
  · exact hr g hg
  · obtain rfl := List.mem_singleton.mp hg
    exact hf

omit [Yrs D P] [DecidableEq P] in
/-- A move to a phase that writes nothing by itself. -/
theorem Spoken.move {device : DeviceInfo} {t t' : ConnTask P} {ws ws' : List (Frame P)}
    (h : Spoken device t ws) (ho : t'.outbound = t.outbound) (hf : t'.phase.frame = none)
    (hs : Said device t'.dialedScope.isSome t'.phase ws') : Spoken device t' ws' := by
  refine ⟨ho ▸ h.outbound, fun f hp => ?_, hs⟩
  rw [hf] at hp
  cases hp

omit [Yrs D P] [DecidableEq P] in
theorem Spoken.local {device : DeviceInfo} {t t' : ConnTask P} {act : ConnTask.Act P}
    {ws : List (Frame P)} (h : Spoken device t ws) (hs : t.Local device act t') :
    Spoken device t' (ws ++ act.sends.toList) := by
  cases hs with
  | activity => simpa [ConnTask.Act.sends] using h
  | @helloSent scope hp hd =>
    refine h.move rfl rfl ?_
    have hws : ws = [] := by simpa [Said, hp] using h.said
    simp [Said, hd, hws, ConnTask.Act.sends, Greeted]
  | helloFailed hp =>
    refine h.move rfl rfl ?_
    simpa [Said, ConnTask.Act.sends] using h.said.any
  | @helloEchoed peer hp =>
    have hws : ws = [] := by simpa [Said, hp] using h.said
    have hg : Greeted device (ws ++ [.hello (ConnTask.helloFrame device peer.scope)]) :=
      ⟨peer.scope, by simp [hws]⟩
    obtain ⟨-, hph⟩ | hph := ConnTask.validate_cases (P := P) device t.dialedScope peer
    · refine ⟨h.outbound, by simp [hph, Phase.frame], ?_⟩
      simpa [Said, hph, ConnTask.Act.sends] using hg
    · refine ⟨h.outbound, by simp [hph, Phase.frame], ?_⟩
      simp only [hph]
      exact .inr (.inl hg)
  | helloAnswered hp hd =>
    have hg : Greeted device ws := by simpa [Said, hp, hd] using h.said
    obtain ⟨-, hph⟩ | hph := ConnTask.validate_cases (P := P) device t.dialedScope ‹Hello›
    · refine ⟨h.outbound, by simp [hph, Phase.frame], ?_⟩
      simpa [Said, hph, ConnTask.Act.sends] using hg
    · refine ⟨h.outbound, by simp [hph, Phase.frame], ?_⟩
      simpa [Said, hph, ConnTask.Act.sends] using .inr (.inl hg)
  | helloArrived hp hd =>
    refine h.move rfl rfl ?_
    simpa [Said, hp, hd, ConnTask.Act.sends] using h.said
  | notHello hp =>
    exact h.move rfl rfl (by simpa [Said, ConnTask.Act.sends] using h.said.any)
  | abort hp hsend =>
    exact h.move rfl rfl (by simpa [Said, hsend] using h.said.any)
  | abortClosed | returned =>
    exact h.move rfl rfl (by simpa [Said, ConnTask.Act.sends] using h.said.any)
  | leave hp hsend =>
    have hst : Streaming device ws := by
      obtain hp | ⟨_, hp | hp⟩ := hp <;> simpa [Said, hp] using h.said
    exact h.move rfl rfl (by simpa [Said, ConnTask.breakLoop, hsend] using hst)
  | dequeue hp hq =>
    refine ⟨fun f hf => h.outbound f (by simp [hq, hf]), fun f hf => ?_, ?_⟩
    · cases hf
      exact h.outbound _ (by simp [hq])
    · simpa [Said, hp, ConnTask.Act.sends] using h.said
  | allowed hp =>
    refine ⟨h.outbound, fun g hg => h.frame g (by simpa [hp, Phase.frame] using hg), ?_⟩
    simpa [Said, hp, ConnTask.Act.sends] using h.said
  | @startSend r a f hp =>
    refine ⟨h.outbound, fun g hg => h.frame g (by simpa [hp, Phase.frame] using hg), ?_⟩
    have hst : Streaming device ws := by simpa [Said, hp] using h.said
    cases f with
    | none => simpa [Said, ConnTask.Act.sends] using hst
    | some f =>
      have hframe := h.frame f (by simp [hp, Phase.frame])
      simpa [Said, ConnTask.Act.sends] using hst.concat hframe
  | step1Sent hp | step1Failed hp | ping hp | recvFrame hp | sent hp | closed hp =>
    exact h.move rfl rfl (by simpa [Said, hp, ConnTask.Act.sends] using h.said)

omit [Yrs D P] [DecidableEq P] in
/-- No fan-out hands out a HELLO. -/
def FansPlain (m : Manager D P) : Prop :=
  ∀ i f, m.fans i = some f → ∀ frame, f.phase.frame = some frame → frame.isHello = false

theorem Reachable.fansPlain {device : DeviceInfo} {m : Manager D P}
    (h : (system D P device).Reachable m) : m.FansPlain := by
  refine h.invariant (I := FansPlain) ?_ fun m a m' _ hI hs i f' hf' frame hfr => ?_
  · rintro m ⟨trust, rooms, rfl⟩ i f hf frame hfr
    obtain ⟨s, d, rfl⟩ := (new_fans device trust rooms).spawned i f hf
    cases hfr
  · have hstep := (step_cases hs).fanStep i
    rw [hf'] at hstep
    generalize hm : m.fans i = o at hstep
    cases hstep with
    | idle => exact hI i f' hm frame hfr
    | cancelled => exact hI i _ hm frame hfr
    | spawned => cases hfr
    | @published _ f c =>
      refine hI i f hm frame ?_
      rwa [Commit.publishTo_phase] at hfr
    | moved hl =>
      cases hl with
      | lagged | update | step1 =>
        cases hfr
        rfl
      | targets hp =>
        cases hfr
        exact hI i _ hm _ (by simp [hp, FanPhase.frame])
      | cancelled => cases hfr
      | pushed => split at hfr <;> cases hfr
    | pushed hp =>
      cases hfr
      exact hI i _ hm _ (by simp [hp, FanPhase.frame])

theorem Spoken.step {device : DeviceInfo} {e : EndId} {m m' : Manager D P} {a : Action P}
    (hr : (system D P device).Reachable m) (hs : m.Step a m') {ws : List (Frame P)}
    (hnone : m.conns e = none → ws = []) (h : ∀ t, m.conns e = some t → Spoken m.device t ws) :
    (m'.conns e = none → ws ++ (a.sends e).toList = []) ∧
      ∀ t', m'.conns e = some t' → Spoken m.device t' (ws ++ (a.sends e).toList) := by
  have hc := hs.connStep e
  refine ⟨fun hgone => ?_, fun t' ht' => ?_⟩
  · rw [hgone] at hc
    generalize hm : m.conns e = o at hc
    cases hc with
    | idle hsilent => rw [hsilent.1, hnone hm, Option.toList_none, List.append_nil]
  rw [ht'] at hc
  generalize hm : m.conns e = o at hc
  cases hc with
  | idle hsilent =>
    rw [hsilent.1, Option.toList_none, List.append_nil]
    exact h t' hm
  | accepted | dialed =>
    rw [hnone hm]
    exact ⟨nofun, nofun, rfl⟩
  | hungUp =>
    have ht := h _ hm
    exact ⟨ht.outbound, ht.frame, by simpa [Action.sends] using ht.said⟩
  | queued hf hp =>
    have ht := h _ hm
    refine ⟨fun f hf' => ?_, ht.frame, by simpa [Action.sends] using ht.said⟩
    obtain hf' | hf' := List.mem_append.mp hf'
    · exact ht.outbound f hf'
    · obtain rfl := List.mem_singleton.mp hf'
      exact Reachable.fansPlain hr _ _ hf _ (by simp [hp, FanPhase.frame])
  | moved hc hl =>
    simpa [Action.sends] using (h _ hm).local hl
  | @step1 t r hp =>
    have ht := h _ hm
    refine ht.move rfl rfl ?_
    obtain ⟨scope, rfl⟩ : Greeted m.device ws := by simpa [Said, hp] using ht.said
    exact ⟨scope, Yrs.stateVector (m.docs.heap r.doc), [], by simp [Action.sends], by simp⟩
  | fetched hp | entered hp =>
    have ht := h _ hm
    exact ht.move rfl rfl (by simpa [Said, hp, Action.sends] using ht.said)
  | refused | finished =>
    have ht := h _ hm
    exact ht.move rfl rfl (by simpa [Said, Action.sends] using ht.said.any)
  | rejected hp | unannounced hp =>
    have ht := h _ hm
    exact ht.move rfl rfl (by
      simpa [Said, hp, Action.sends, ConnTask.breakLoop] using ht.said)
  | @handled t r announced payload m₁ reply hp hf =>
    have ht := h _ hm
    have hst : Streaming m.device ws := by simpa [Said, hp] using ht.said
    refine ⟨ht.outbound, fun f hfr => ?_, ?_⟩
    · obtain rfl : reply = some f := by
        clear hf
        cases announced <;> cases reply <;> simp_all [Phase.frame, ConnTask.replyOrSelect]
      exact handleFrame_reply hf
    · clear hf
      cases announced <;> cases reply <;>
        simpa [Said, ConnTask.replyOrSelect, Action.sends] using hst
  | @announced t r reply c hp =>
    have ht := h _ hm
    have hst : Streaming m.device ws := by simpa [Said, hp] using ht.said
    refine ⟨ht.outbound, fun f hfr => ht.frame f ?_, ?_⟩
    · cases reply <;> simp_all [Phase.frame, ConnTask.replyOrSelect]
    · cases reply <;> simpa [Said, ConnTask.replyOrSelect, Action.sends] using hst

section Gate

variable {device : DeviceInfo} {m : Manager D P} {τ : History D P}

theorem Run.known (h : (system D P device).Run τ m) (e : EndId) :
    ∀ t, m.conns e = some t → Known device e τ t := by
  refine h.history (I := fun τ m => ∀ t, m.conns e = some t → Known device e τ t) ?_
    fun τ m a m' hr hI hs t' ht' => ?_
  · rintro m ⟨trust, rooms, rfl⟩ t ht
    simp [(new_bare device trust rooms).conns] at ht
  · have hd := Reachable.device_eq hr.reachable
    have := Known.step (step_cases hs) (fun t ht => by rw [hd]; exact hI t ht) ht'
    rwa [hd] at this

theorem Run.spoken (h : (system D P device).Run τ m) (e : EndId) :
    (m.conns e = none → written e τ = []) ∧
      ∀ t, m.conns e = some t → Spoken device t (written e τ) := by
  refine h.history (I := fun τ m => (m.conns e = none → written e τ = []) ∧
      ∀ t, m.conns e = some t → Spoken device t (written e τ)) ?_ fun τ m a m' hr hI hs => ?_
  · rintro m ⟨trust, rooms, rfl⟩
    exact ⟨fun _ => rfl, by simp [(new_bare device trust rooms).conns]⟩
  · have hd := Reachable.device_eq hr.reachable
    rw [written_concat]
    have := Spoken.step hr.reachable (step_cases hs) hI.1 (by rw [hd]; exact hI.2)
    rwa [hd] at this

/-- The peer passed every check of the handshake, up to the registering critical section. -/
structure Passed (device : DeviceInfo) (e : EndId) (peer : Hello) (τ : History D P) : Prop where
  entered : Entered e peer τ
  proto : peer.proto = protocolVersion
  other : peer.deviceId ≠ device.id
  scope : e.dialed = true → DialedFor e peer.scope τ

omit [Yrs D P] [DecidableEq P] in
theorem Known.passed {e : EndId} {t : ConnTask P} (h : Known device e τ t) {r : Registered}
    (hr : t.phase.registered = some r) : Passed device e r.peer τ := by
  have hh : t.phase.hello = some r.peer := by
    cases hp : t.phase <;> simp_all [Phase.hello, Phase.registered]
  have hne : t.phase ≠ .helloEcho r.peer := fun hp => by simp [hp, Phase.registered] at hr
  have hv := h.valid r.peer hh hne
  simp only [ConnTask.validatePeer, Bool.and_eq_true, decide_eq_true_eq] at hv
  refine ⟨h.entered r hr, hv.1.1, hv.1.2, fun hd => ?_⟩
  cases hs : t.dialedScope with
  | none => simp [h.inbound hs] at hd
  | some s =>
    obtain rfl : s = r.peer.scope := by simpa [hs] using hv.2
    exact h.dialed _ hs

/-- A step that writes something after the HELLO, or handles a frame, does so for a peer that
passed. -/
theorem Step.passed {e : EndId} {m' : Manager D P} {a : Action P}
    (hk : ∀ t, m.conns e = some t → Known device e τ t) (hs : m.Step a m')
    (ha : (∃ f, a.sends e = some f ∧ f.isHello = false) ∨
      (∃ f, a = .conn e (.startSend f)) ∨ a = .handleFrame e) :
    ∃ peer, Passed device e peer τ := by
  -- All three are steps of a registered task.
  have ha' : (∃ f, a = .conn e (.startSend f)) ∨ (∃ sv, a = .sendStep1 e sv) ∨
      a = .handleFrame e := by
    obtain ⟨f, hf, hn⟩ | ha | ha := ha
    · obtain h | ⟨sv, h, -⟩ := Action.sends_cases hf hn
      · exact .inl ⟨_, h⟩
      · exact .inr (.inl ⟨sv, h⟩)
    · exact .inl ha
    · exact .inr (.inr ha)
  obtain ⟨f, rfl⟩ | ⟨sv, rfl⟩ | rfl := ha'
  · obtain ⟨task, task', ht, -, hl, -⟩ := hs.of_conn
    cases hl with
    | leave _ _ _ hn => exact absurd rfl (hn f)
    | abort _ _ _ hn => exact absurd rfl (hn f)
    | @startSend r _ _ hp =>
      exact ⟨r.peer, (hk _ ht).passed (by simp [hp, Phase.registered])⟩
  · obtain ⟨task, r, ht, -, hp, -⟩ := hs.of_sendStep1
    exact ⟨r.peer, (hk _ ht).passed (by simp [hp, Phase.registered])⟩
  · obtain ⟨task, r, a, payload, ht, -, hp, -⟩ := hs.of_handleFrame
    exact ⟨r.peer, (hk _ ht).passed (by simp [hp, Phase.registered])⟩

/-- The app adds an entry to document `d`. -/
def AddsTo (m : Manager D P) (d : DocId) (a : Action P) : Prop :=
  ∃ i s entry cs, a = .call i ∧ m.calls i = .addEntry s entry :: cs ∧ m.docs.get s = some d

/-- Document `d` is the one of the connection on `e`, which has content of `peer` to handle. -/
def Applies (m : Manager D P) (d : DocId) (e : EndId) (peer : Hello) : Prop :=
  ∃ t r b f, m.conns e = some t ∧ t.phase = .received r b (some f) ∧ f.isContent = true ∧
    r.doc = d ∧ r.peer = peer

/-- The gate, against any peers and any interleaving. What a connection writes follows one
grammar. A frame after the HELLO is written, and a frame handled, for a peer that passed. Any step
that changes a document adds an entry, or handles content of a peer that passed; and any step that
reports a peer announces one that passed, and of which a frame was handled. -/
theorem handshake_gate (h : (system D P device).Run τ m) :
    (∀ e, ∃ hello sv rest, written e τ <+: .hello hello :: .syncStep1 sv :: rest ∧
      ∀ f ∈ rest, f.isHello = false) ∧
    ∀ τ₁ t τ₂, τ = τ₁ ++ t :: τ₂ →
      (∀ e, (∃ f, t.act.sends e = some f ∧ f.isHello = false) ∨
          (∃ f, t.act = .conn e (.startSend f)) ∨ t.act = .handleFrame e →
        ∃ peer, Passed device e peer τ₁) ∧
      (∀ d < t.pre.docs.next, t.post.docs.heap d ≠ t.pre.docs.heap d →
        t.pre.AddsTo d t.act ∨
          ∃ e peer, t.act = .handleFrame e ∧ t.pre.Applies d e peer ∧ Passed device e peer τ₁) ∧
      ∀ events d name s, t.post.events = t.pre.events ++ events →
        .peerConnected d name s ∈ events →
          ∃ e peer, t.act = .tryAnnounce e ∧ Passed device e peer τ₁ ∧ Handled e peer τ₁ ∧
            peer.deviceId = d ∧ peer.deviceName = name ∧ peer.scope = s := by
  refine ⟨fun e => ?_, fun τ₁ t τ₂ heq => ?_⟩
  · have hany : written e τ = [] ∨ Greeted device (written e τ) ∨
        Streaming device (written e τ) := by
      cases hc : m.conns e with
      | none => exact .inl ((Run.spoken h e).1 hc)
      | some t => exact ((Run.spoken h e).2 t hc).said.any
    obtain hw | ⟨scope, hw⟩ | ⟨scope, sv, rest, hw, hr⟩ := hany
    · exact ⟨ConnTask.helloFrame device .devices, Yrs.stateVector (Yrs.new : D), [], by simp [hw],
        by simp⟩
    · exact ⟨ConnTask.helloFrame device scope, Yrs.stateVector (Yrs.new : D), [],
        ⟨_, by rw [hw]; rfl⟩, by simp⟩
    · exact ⟨_, sv, rest, by rw [hw], hr⟩
  · obtain ⟨hr, hs⟩ := h.split heq
    have hk := Run.known hr
    have hs := step_cases hs
    refine ⟨fun e => hs.passed (hk e), fun d hlt hd => ?_, fun events d name s hev hmem => ?_⟩
    · obtain hadd | ⟨e, t, r, b, f, hact, ht, hp, hf, hdoc⟩ := hs.heap_cases hlt hd
      · exact .inl hadd
      · exact .inr ⟨e, r.peer, hact, ⟨t, r, b, f, ht, hp, hf, hdoc, rfl⟩,
          (hk e t ht).passed (by simp [hp, Phase.registered])⟩
    · obtain ⟨e, t, r, reply, hact, ht, hp, hd, hname, hscope⟩ :=
        hs.emits_connected (Run.owesDisconnects hr) hev hmem
      exact ⟨e, r.peer, hact, (hk e t ht).passed (by simp [hp, Phase.registered]),
        (hk e t ht).handled r reply hp, hd, hname, hscope⟩

/-- An inbound peer passes; its update is applied, and it is reported. -/
theorem handshake_gate_inbound :
    ∃ (τ : History GrowSet GrowSet) (m m₁ m₂ : Manager GrowSet GrowSet) (peer peer' : Hello),
      (system GrowSet GrowSet ⟨"a", "A"⟩).Run τ m ∧ m.step (.handleFrame ⟨0, false⟩) = some m₁ ∧
        m₁.step (.tryAnnounce ⟨0, false⟩) = some m₂ ∧ 7 ∈ m₁.docs.heap 0 ∧
        m.Applies 0 ⟨0, false⟩ peer ∧ Passed ⟨"a", "A"⟩ ⟨0, false⟩ peer τ ∧
        m₂.events = [.peerConnected "b" "B" .devices] ∧
        Handled ⟨0, false⟩ peer' (τ ++ [⟨m, .handleFrame ⟨0, false⟩, m₁⟩]) := by
  let e : EndId := ⟨0, false⟩
  obtain ⟨m, hm, hp⟩ := System.exists_of_exec
    (show (System.exec Manager.step (.new ⟨"a", "A"⟩ ⟨false, ∅, ∅⟩ [] : Manager GrowSet GrowSet)
      [.handleInbound e, .conn e (.recv (.frame (some (.hello ⟨"b", "B", 2, .devices⟩)))),
        .conn e (.sendHello ⟨"a", "A", 2, .devices⟩), .fetchDoc e, .register e, .sendStep1 e ∅,
        .conn e (.step1Sent true), .conn e (.recv (.frame (some (.update {7}))))]).any
          (fun m => (m.step (.handleFrame e)).any fun m₁ => (m₁.step (.tryAnnounce e)).any
            fun m₂ => decide (0 < m.docs.next ∧ 7 ∉ m.docs.heap 0 ∧ 7 ∈ m₁.docs.heap 0 ∧
              m₁.events = [] ∧ m₂.events = [.peerConnected "b" "B" .devices])) = true
      by decide +kernel)
  simp only [Option.any_eq_true, decide_eq_true_eq] at hp
  obtain ⟨m₁, h₁, m₂, h₂, hlt, hnot, hmem, hnone, hev⟩ := hp
  have hrun := (run_of_exec hm).next h₁
  have hne : m₁.docs.heap 0 ≠ m.docs.heap 0 := fun heq => hnot (heq ▸ hmem)
  obtain ⟨_, _, _, _, hact, -⟩ | ⟨e', peer, hact, happ, hpass⟩ :=
    ((handshake_gate hrun).2 _ _ [] rfl).2.1 0 hlt hne
  · cases hact
  cases hact
  obtain ⟨e', peer', hact', -, hhan, -⟩ := ((handshake_gate (hrun.next h₂)).2 _ _ [] rfl).2.2
    [.peerConnected "b" "B" .devices] "b" "B" .devices (by rw [hnone, hev]; rfl)
    List.mem_cons_self
  cases hact'
  exact ⟨_, m, m₁, m₂, peer, peer', run_of_exec hm, h₁, h₂, hmem, happ, hpass, hev, hhan⟩

end Gate

end Manager

end Yoink
