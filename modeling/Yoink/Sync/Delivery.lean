import Yoink.Sync.Provenance

/-!
# Where a change is on its way to a peer

Once a connection has answered its peer's first frame, a change of its document that the
peer may lack is `Due` on it: queued, or in the hands of the scope's fan-out, or the
connection is about to be closed because its queue was full. A step keeps it due, starts to
write it, or is the commit of a frame whose origin is that peer (`Skips`).
-/

namespace Yoink

variable {D P X : Type}

/-- The frame a task has taken up and not started to write. -/
def Phase.queued : Phase P → Option (Frame P)
  | .handled _ reply => reply
  | .sendOrHangup _ _ frame | .starting _ _ frame => frame
  | _ => none

/-- The peer's first frame was handled. -/
def Phase.answered : Phase P → Bool
  | .handled _ _ => true
  | .select _ a | .received _ a _ | .sendOrHangup _ a _ | .starting _ a _ | .sending _ a _ => a
  | _ => false

theorem Phase.live_of_answered {p : Phase P} (h : p.answered = true) : p.live = true := by
  cases p <;> first | rfl | cases h

theorem Phase.not_pending_of_live {p : Phase P} (h : p.live = true) : p.pending = false := by
  cases p <;> first | rfl | cases h

/-- A frame is queued at a task. -/
def ConnTask.Queues (t : ConnTask P) (f : Frame P) : Prop :=
  t.phase.queued = some f ∨ f ∈ t.outbound

/-- A queued frame stays queued until its write starts or the loop is left. -/
theorem ConnTask.Local.queues {device : DeviceInfo} {act : ConnTask.Act P} {t t' : ConnTask P}
    (h : t.Local device act t') (hlive : t'.phase.live = true) {f : Frame P} (hf : t.Queues f) :
    t'.Queues f ∨ act.sends = some f := by
  cases h with
  | activity => exact .inl hf
  | helloFailed | notHello | abort | leave | abortClosed | closed | returned => cases hlive
  | step1Failed | helloSent | helloArrived => cases hlive
  | helloEchoed | helloAnswered =>
    obtain ⟨-, hph⟩ | hph := validate_cases (P := P) device t.dialedScope ‹Hello› <;>
      simp [hph, Phase.live] at hlive
  | dequeue hp hq =>
    obtain hf | hf := hf
    · simp [hp, Phase.queued] at hf
    · rw [hq] at hf
      obtain rfl | hf := List.mem_cons.mp hf
      · exact .inl (.inl rfl)
      · exact .inl (.inr hf)
  | allowed hp =>
    exact .inl (hf.imp_left fun hf => by simpa [hp, Phase.queued] using hf)
  | startSend hp =>
    obtain hf | hf := hf
    · exact .inr (by simpa [hp, Phase.queued, Act.sends] using hf)
    · exact .inl (.inr hf)
  | step1Sent hp | ping hp | recvFrame hp | sent hp =>
    obtain hf | hf := hf
    · simp [hp, Phase.queued] at hf
    · exact .inl (.inr hf)

section Offers

variable [Yrs D P] [MergeSets D X]

/-- A fan-out is still to hand change `x` to the connection on `e` of device `peer`. -/
inductive FanOut.Offers (D : Type) [Yrs D P] [MergeSets D X] (f : FanOut P) (peer : DeviceId)
    (e : EndId) (x : X) : Prop where
  | lagged (h : f.lagged = true)
  | backlog {u : DocUpdate P} (hu : u ∈ f.backlog) (ho : u.origin ≠ some peer)
      (hx : x ∈ MergeSets.carried D u.update)
  | send {frame : Frame P} {skip : Option DeviceId} {lag : Bool}
      (hp : f.phase = .send frame skip lag) (hs : skip ≠ some peer) (hx : x ∈ frame.brings D)
  | push {frame : Frame P} {targets : List (ConnKey × ConnectionHandle)} {lag : Bool}
      {target : ConnKey × ConnectionHandle} (hp : f.phase = .push frame targets lag)
      (ht : target ∈ targets) (he : target.2.task = e) (hx : x ∈ frame.brings D)

/-- What is published stays on offer, also when the channel overflows. -/
theorem FanOut.Offers.publish {f : FanOut P} {peer : DeviceId} {e : EndId} {x : X}
    (h : f.Offers D peer e x) (u : DocUpdate P) : (f.publish u).Offers D peer e x := by
  unfold FanOut.publish
  split
  · cases h with
    | lagged h => exact .lagged h
    | backlog hu ho hx => exact .backlog (List.mem_append_left _ hu) ho hx
    | send hp hs hx => exact .send hp hs hx
    | push hp ht he hx => exact .push hp ht he hx
  · exact .lagged rfl

/-- A new update is on offer to everybody but its origin. -/
theorem FanOut.offers_published (f : FanOut P) {u : DocUpdate P} {peer : DeviceId}
    (ho : u.origin ≠ some peer) (e : EndId) {x : X} (hx : x ∈ MergeSets.carried D u.update) :
    (f.publish u).Offers D peer e x := by
  unfold FanOut.publish
  split
  · exact .backlog (List.mem_append_right _ (List.mem_singleton_self u)) ho hx
  · exact .lagged rfl

namespace Manager

variable {m m' : Manager D P} {a : Action P}

theorem Commit.offers {c : Commit D P} {f : FanOut P} {peer : DeviceId} {e : EndId} {x : X}
    (h : f.Offers D peer e x) : (c.publishTo f).Offers D peer e x := by
  unfold publishTo
  split
  · split
    · exact h.publish _
    · exact h
  · exact h

/-- A fan-out keeps what it has on offer until it hands it out. -/
theorem FanStep.offers {i : TaskId} {f : FanOut P} {o : Option (FanOut P)}
    (h : m.FanStep i a (some f) o) (hcan : f.cancelled = false)
    (howed : ∀ t, .dropFanOut i ∉ m.calls t) (hi : i < m.spawned) {peer : DeviceId}
    {c : ConnectionHandle} (hl : m.state.connections.lookup (peer, f.scope) = some c) {x : X}
    (hx : x ∈ m.contents f.doc) (ho : f.Offers D peer c.task x) :
    (∃ f', o = some f' ∧ f'.Offers D peer c.task x) ∨
      ∃ frame target rest lag, a = .fanPush i ∧ f.phase = .push frame (target :: rest) lag ∧
        target.2.task = c.task ∧ x ∈ frame.brings D := by
  cases h with
  | idle => exact .inl ⟨f, rfl, ho⟩
  | @cancelled t _ _ hc => exact absurd (by simp [hc]) (howed t)
  | spawned hs => exact absurd hs (Nat.ne_of_lt hi)
  | published => exact .inl ⟨_, rfl, Commit.offers ho⟩
  | pushed hp =>
    cases ho with
    | lagged h => exact .inl ⟨_, rfl, .lagged h⟩
    | backlog hu ho hx => exact .inl ⟨_, rfl, .backlog hu ho hx⟩
    | send hp' => simp [hp] at hp'
    | push hp' ht he hx =>
      rw [hp] at hp'
      cases hp'
      obtain rfl | ht := List.mem_cons.mp ht
      · exact .inr ⟨_, _, _, _, rfl, hp, he, hx⟩
      · exact .inl ⟨_, rfl, .push rfl ht he hx⟩
  | moved hs =>
    refine .inl ⟨_, rfl, ?_⟩
    cases hs with
    | cancelled h =>
      rw [hcan] at h
      cases h
    | lagged hp hlag =>
      refine .send rfl nofun ?_
      rwa [Frame.brings_of_content rfl, MergeSets.carried_snapshot]
    | update hp hlag hb =>
      cases ho with
      | lagged h => simp [hlag] at h
      | backlog hu ho hx =>
        rw [hb] at hu
        obtain rfl | hu := List.mem_cons.mp hu
        · exact .send rfl ho (by rwa [Frame.brings_of_content rfl])
        · exact .backlog hu ho hx
      | send hp' | push hp' => simp [hp] at hp'
    | targets hp =>
      cases ho with
      | lagged h => exact .lagged h
      | backlog hu ho hx => exact .backlog hu ho hx
      | send hp' hs hx =>
        rw [hp] at hp'
        cases hp'
        have ht : ((peer, f.scope), c) ∈ m.state.targets f.scope _ :=
          List.mem_filter.mpr ⟨FinMap.mem_toPairs.mpr hl, by simpa using hs⟩
        exact .push rfl ht rfl hx
      | push hp' => simp [hp] at hp'
    | pushed hp =>
      cases ho with
      | lagged h => exact .lagged h
      | backlog hu ho hx => exact .backlog hu ho hx
      | send hp' => simp [hp] at hp'
      | push hp' ht =>
        rw [hp] at hp'
        cases hp'
        cases ht
    | step1 hp =>
      cases ho with
      | lagged h => exact .lagged h
      | backlog hu ho hx => exact .backlog hu ho hx
      | send hp' | push hp' => simp [hp] at hp'

/-- Change `x` is still to be written on the connection `r` on `e`. -/
inductive Due (m : Manager D P) (e : EndId) (r : Registered) (x : X) : Prop where
  | queued {t : ConnTask P} {f : Frame P} (ht : m.conns e = some t) (hf : t.Queues f)
      (hx : x ∈ f.brings D)
  | offered {i : TaskId} {f : FanOut P} (hl : m.state.fanOuts.lookup r.peer.scope = some i)
      (hf : m.fans i = some f) (ho : f.Offers D r.peer.deviceId e x)
  /-- Its queue was full, and it is about to be closed for that. -/
  | closing {i : TaskId} (hc : .forceClose r.key r.generation ∈ m.calls (.fan i))

/-- An action commits `x` as received from the peer of `r`, so that the fan-out skips it. -/
def Skips (m : Manager D P) (a : Action P) (r : Registered) (x : X) : Prop :=
  ∃ e t r' b f, a = .handleFrame e ∧ m.conns e = some t ∧ t.phase = .received r' b (some f) ∧
    r'.doc = r.doc ∧ r'.peer.deviceId = r.peer.deviceId ∧ x ∈ f.brings D

/-- The connection on `e` is the registered one of its key. -/
structure Holder (m : Manager D P) (e : EndId) (r : Registered) (t : ConnTask P) : Prop where
  task : m.conns e = some t
  registered : t.phase.registered = some r
  entry : ∃ c, m.state.connections.lookup r.key = some c ∧ c.task = e

theorem commits_origin {c : Commit D P} (h : m.commits a = some c) {d : DeviceId}
    (hd : c.origin = some d) :
    ∃ e t r b f, a = .handleFrame e ∧ m.conns e = some t ∧ t.phase = .received r b (some f) ∧
      r.doc = c.doc ∧ r.peer.deviceId = d ∧
      ∀ u, c.update = some u → MergeSets.carried D u ⊆ (f.brings D : Set X) := by
  obtain ⟨t, s, entry, cs, doc, -, -, -, rfl⟩ |
      ⟨e, t, r, b, f, u, d, ev, ha, ht, hp, hu, hap, rfl⟩ :=
    commits_cases h
  · cases hd
  · refine ⟨e, t, r, b, f, ha, ht, hp, rfl, Option.some.inj hd, fun v hv => ?_⟩
    rw [(MergeSets.event_apply hap).1 v hv, Frame.brings_of_content hu]
    exact Set.sdiff_subset

variable [DecidableEq P]

/-- What is new in a document was published, or came from the peer. -/
theorem Step.published (hs : m.Step a m') {r : Registered} (hd : r.doc < m.docs.next)
    {i : TaskId} {f f' : FanOut P} (hf : m.fans i = some f) (hf' : m'.fans i = some f')
    (hfd : f.doc = r.doc) (e : EndId) {x : X} (hx : x ∈ m'.contents r.doc)
    (hnew : x ∉ m.contents r.doc) : f'.Offers D r.peer.deviceId e x ∨ m.Skips a r x := by
  have hcom := hs.commits_eq
  cases hc : m.commits a with
  | none =>
    rw [hc] at hcom
    rw [contents, hcom r.doc hd] at hx
    exact absurd hx hnew
  | some c =>
    rw [hc] at hcom
    obtain ⟨hdocs, hfans⟩ := hcom
    by_cases hdoc : r.doc = c.doc
    · have hres : x ∈ MergeSets.holds P c.result := by
        rwa [contents, hdocs, Docs.heap_write, if_pos hdoc] at hx
      obtain ⟨u, hu, hxu⟩ := ((commits_sound hc).reported x hres).resolve_left (hdoc ▸ hnew)
      by_cases ho : c.origin = some r.peer.deviceId
      · obtain ⟨e', t, r', b, g, ha, ht, hp, hr, hpeer, hb⟩ := commits_origin (X := X) hc ho
        exact .inr ⟨e', t, r', b, g, ha, ht, hp, hr.trans hdoc.symm, hpeer, hb u hu hxu⟩
      · obtain rfl : f' = c.publishTo f := by
          have hi := congrFun hfans i
          rw [hf', hf] at hi
          exact Option.some.inj hi
        refine .inl ?_
        rw [Commit.publishTo, hu]
        simp only [hfd, hdoc, if_true]
        exact f.offers_published ho e hxu
    · rw [contents, hdocs, Docs.heap_write, if_neg hdoc] at hx
      exact absurd hx hnew

omit [DecidableEq P] in
/-- A queued frame stays queued, or its write starts. -/
theorem ConnStep.queues {e : EndId} {t t' : ConnTask P} (h : m.ConnStep e a (some t) (some t'))
    (hlive : t'.phase.live = true) {f : Frame P} (hf : t.Queues f) :
    t'.Queues f ∨ a.sends e = some f := by
  cases h with
  | idle | hungUp => exact .inl hf
  | queued => exact .inl (hf.imp id fun hf => List.mem_append_left _ hf)
  | moved hc hs => exact (hs.queues hlive hf).imp id fun h => by simpa [Action.sends] using h
  | fetched | refused | rejected | unannounced | finished => cases hlive
  | entered hp | step1 hp | handled hp =>
    obtain hf | hf := hf
    · simp [hp, Phase.queued] at hf
    · exact .inl (.inr hf)
  | @announced t r reply c hp =>
    obtain hf | hf := hf
    · obtain rfl : reply = some f := by simpa [hp, Phase.queued] using hf
      exact .inl (.inl rfl)
    · exact .inl (.inr hf)

omit [MergeSets D X] [DecidableEq P] in
/-- The frame loop is entered from registration only. -/
theorem ConnStep.live {e : EndId} {t t' : ConnTask P} (h : m.ConnStep e a (some t) (some t'))
    (hl : t'.phase.live = true) : t.phase.live = true ∨ t.phase.pending = true := by
  cases h with
  | idle | hungUp | queued => exact .inl hl
  | fetched | refused | rejected | unannounced | finished => cases hl
  | entered hp => exact .inr (by simp [hp, Phase.pending])
  | step1 hp | handled hp | announced hp => exact .inl (by simp [hp, Phase.live])
  | moved hc hs =>
    cases hs with
    | activity => exact .inl hl
    | helloSent hp | helloEchoed hp | helloAnswered hp | helloArrived hp =>
      exact .inr (by simp [hp, Phase.pending])
    | step1Sent hp | ping hp | dequeue hp | recvFrame hp | allowed hp | startSend hp | sent hp =>
      exact .inl (by simp [hp, Phase.live])
    | _ => cases hl

/-- The receiver of a queue is open as long as its task is in the frame loop. -/
theorem Reachable.rxOpen {device : DeviceInfo} (h : (system D P device).Reachable m) {e : EndId}
    {t : ConnTask P} (ht : m.conns e = some t)
    (hp : t.phase.pending = true ∨ t.phase.live = true) : t.rxOpen = true := by
  refine h.invariant (I := fun m => ∀ t, m.conns e = some t →
    t.phase.pending = true ∨ t.phase.live = true → t.rxOpen = true) ?_
    (fun m a m' _ hI hs t' ht' hp' => ?_) t ht hp
  · rintro m ⟨trust, rooms, rfl⟩ t ht
    simp [(new_bare device trust rooms).conns] at ht
  · have hstep := (step_cases hs).connStep e
    rw [ht'] at hstep
    generalize hm : m.conns e = o at hstep
    cases hstep with
    | idle => exact hI _ hm hp'
    | accepted | dialed => rfl
    | hungUp | queued =>
      have h := hI _ hm hp'
      exact h
    | fetched hp | entered hp | step1 hp | handled hp | announced hp =>
      have h := hI _ hm (by simp [hp, Phase.pending, Phase.live])
      exact h
    | refused | rejected | unannounced | finished =>
      simp [Phase.pending, Phase.live, ConnTask.breakLoop] at hp'
    | @moved act t _ hc hs =>
      have hold : t.phase.pending = true ∨ t.phase.live = true → t'.rxOpen = t.rxOpen →
          t'.rxOpen = true := fun hp h => h.trans (hI t hm hp)
      cases hs with
      | activity => exact hI _ hm hp'
      | helloFailed | notHello | abort | leave | abortClosed | closed | returned | step1Failed =>
        simp [Phase.pending, Phase.live, ConnTask.breakLoop] at hp'
      | helloSent hp | helloEchoed hp | helloAnswered hp | helloArrived hp =>
        exact hold (by simp [hp, Phase.pending]) rfl
      | step1Sent hp | ping hp | dequeue hp | recvFrame hp | allowed hp | startSend hp | sent hp =>
        exact hold (by simp [hp, Phase.live]) rfl

/-- A scope that stays synced keeps its fan-out. -/
theorem Step.fanOut_keeps (hs : m.Step a m') {own : DeviceId} (hadm : m.state.Admitted own)
    {s : Scope} {i : TaskId} (hl : m.state.fanOuts.lookup s = some i)
    (hj : m'.state.Synced s) : m'.state.fanOuts.lookup s = some i := by
  cases hs.roomStep with
  | quiet _ _ _ hf => rwa [hf]
  | created | removed => exact hl
  | @joined t name cs _ hc hn _ _ hf =>
    rw [hf, FinMap.lookup_insert_ite, if_neg]
    · exact hl
    · rintro rfl
      have hsync : m.state.Synced (.room name) := (hadm.fanOuts _).mp (by rw [hl]; rfl)
      exact hn hsync
  | @left t name cs _ hc _ hjoin hf =>
    rw [hf, if_neg]
    · exact hl
    · rintro ⟨-, rfl⟩
      simp [State.Synced, hjoin] at hj

/-- The outcome of `try_send` for a target that can still be sent to. -/
theorem Step.pushes {i : TaskId} (hs : m.Step (.fanPush i) m') {f : FanOut P} {frame : Frame P}
    {target : ConnKey × ConnectionHandle} {rest : List (ConnKey × ConnectionHandle)} {lag : Bool}
    (hf : m.fans i = some f) (hp : f.phase = .push frame (target :: rest) lag) {t : ConnTask P}
    (ht : m.conns target.2.task = some t) (hr : t.rxOpen = true) :
    (∃ t', m'.conns target.2.task = some t' ∧ frame ∈ t'.outbound) ∨
      .forceClose target.1 target.2.generation ∈ m'.calls (.fan i) := by
  cases hs with
  | dial _ hs | fan _ hs => cases hs
  | fanPush hf' hp' =>
    obtain rfl := Option.some.inj (hf.symm.trans hf')
    rw [hp] at hp'
    cases hp'
    unfold trySend
    simp only [ht, hr, if_true]
    split
    · exact .inl ⟨_, Function.update_self .., by simp⟩
    · exact .inr (by simp)

/-- A close that is owed is still owed, unless its entry goes with it. -/
theorem Step.closes (hs : m.Step a m') {i : TaskId} {k : ConnKey} {g : Nat}
    (hc : .forceClose k g ∈ m.calls (.fan i)) (hid : m.state.identifies k g = true) :
    .forceClose k g ∈ m'.calls (.fan i) ∨ m'.state.connections.lookup k = none := by
  have hstep := hs.callStep (.fan i)
  generalize hcs : m.calls (.fan i) = cs at hstep hc
  generalize hcs' : m'.calls (.fan i) = cs' at hstep
  cases hstep with
  | idle => exact .inl hc
  | invoked | given => cases hc
  | made =>
    obtain rfl | hc := List.mem_cons.mp hc
    · obtain ⟨c, cs, hcs₁, rfl⟩ := hs.of_call
      rw [hcs] at hcs₁
      cases hcs₁
      right
      rw [setCalls_state, perform_connections, if_pos]
      simpa [Call.gone] using hid
    · exact .inl (List.mem_append_right _ hc)

/-- The invariants of a run that `Due` rests on. -/
structure Sound (m : Manager D P) : Prop where
  owned : m.Owned
  named : ∃ σ, m.Named σ
  held : m.FansHeld
  targeted : m.Targeted
  subscribed : m.Subscribed
  current : m.EntriesCurrent
  rxOpen : ∀ e t, m.conns e = some t → t.phase.live = true → t.rxOpen = true

theorem Reachable.sound {device : DeviceInfo} (h : (currentSystem D P device).Reachable m) :
    m.Sound := by
  have happ : (appSystem D P device).Reachable m := h.of_restrict
  have hsys : (system D P device).Reachable m := happ.of_restrict
  exact ⟨Reachable.owned hsys, Reachable.named hsys, Reachable.fansHeld hsys,
    Reachable.targeted hsys, (Reachable.roomsOwned happ).2, Reachable.entriesCurrent h,
    fun _ _ ht hl => Reachable.rxOpen hsys ht (.inr hl)⟩

section Holder

variable {e : EndId} {r : Registered} {t t' : ConnTask P} {x : X}

omit [Yrs D P] [MergeSets D X] [DecidableEq P] in
theorem Holder.registered_eq (h : m.Holder e r t) : m.registered e = some r := by
  rw [Manager.registered, h.task]
  exact h.registered

omit [Yrs D P] [DecidableEq P] in
/-- The document of a holder is its scope's, and the scope has a fan-out for it. -/
theorem Holder.fan (h : m.Holder e r t) (hm : m.Sound) :
    m.docs.get r.peer.scope = some r.doc ∧ ∃ i f, m.state.fanOuts.lookup r.peer.scope = some i ∧
      m.fans i = some f ∧ f.scope = r.peer.scope ∧ f.doc = r.doc ∧ f.cancelled = false ∧
      i < m.spawned := by
  obtain ⟨c, hl, rfl⟩ := h.entry
  have hdoc := hm.current _ _ r hl h.registered_eq
  have hsync := State.synced_of_accepts (hm.owned.admitted.connections r.key (by simp [hl]))
  obtain ⟨d, i, f, hd, hi, hf, rfl⟩ := hm.subscribed.current _ hsync
  obtain ⟨f', hf', hsc, hcan, -⟩ := hm.held.task _ i hi
  obtain rfl : f = f' := Option.some.inj (hf.symm.trans hf')
  exact ⟨hdoc, i, f, hi, hf, hsc, Option.some.inj (hd.symm.trans hdoc), hcan,
    hm.subscribed.spawned _ i hi⟩

omit [Yrs D P] [DecidableEq P] in
/-- The entry of a holder has its generation. -/
theorem Holder.identifies (h : m.Holder e r t) (hm : m.Sound) :
    m.state.identifies r.key r.generation = true := by
  rw [hm.owned.conns.identifies hm.owned.fresh h.registered_eq]
  exact holder_eq_some.mpr h.entry

/-- Every change of a holder's document stays where it was on its way, or is new and now due. -/
theorem Holder.step (h : m.Holder e r t) (h' : m'.Holder e r t') (hm : m.Sound) (hm' : m'.Sound)
    (hlive : t.phase.live = true) (hlive' : t'.phase.live = true) (hs : m.Step a m')
    (hx : x ∈ m'.contents r.doc) :
    (x ∈ m.contents r.doc ∧ ¬ m.Due e r x) ∨ m'.Due e r x ∨
      (∃ f, a.sends e = some f ∧ x ∈ f.brings D) ∨ m.Skips a r x := by
  obtain ⟨hdoc, i, f, hi, hf, hsc, hfd, hcan, hsp⟩ := h.fan hm
  obtain ⟨-, i', f', hi', hf', -⟩ := h'.fan hm'
  obtain ⟨c', hl', -⟩ := h'.entry
  have hsync := State.synced_of_accepts (hm'.owned.admitted.connections r.key (by simp [hl']))
  obtain rfl : i = i' := by
    have := hs.fanOut_keeps hm.owned.admitted hi hsync
    exact Option.some.inj (this.symm.trans hi')
  obtain ⟨σ, hσ⟩ := hm.named
  by_cases hold : x ∈ m.contents r.doc
  · by_cases hdue : m.Due e r x
    · right
      cases hdue with
      | @queued t₁ g ht hq hb =>
        obtain rfl : t = t₁ := Option.some.inj (h.task.symm.trans ht)
        have hstep := hs.connStep e
        rw [h.task, h'.task] at hstep
        obtain hq | hsend := hstep.queues hlive' hq
        · exact .inl (.queued h'.task hq hb)
        · exact .inr (.inl ⟨g, hsend, hb⟩)
      | @offered i₁ f₁ hl₁ hf₁ ho =>
        obtain rfl : i = i₁ := Option.some.inj (hi.symm.trans hl₁)
        obtain rfl : f = f₁ := Option.some.inj (hf.symm.trans hf₁)
        obtain ⟨c, hl, rfl⟩ := h.entry
        have hstep := hs.fanStep i
        rw [hf] at hstep
        obtain ⟨f₂, hf₂, ho⟩ | ⟨frame, target, rest, lag, rfl, hp, htask, hb⟩ :=
          hstep.offers hcan (hm.held.owed _ i · hi) hsp
            (by rw [hsc]; exact hl) (hfd ▸ hold) ho
        · exact .inl (.offered hi' hf₂ ho)
        · -- The fan-out comes to this connection.
          have haim := hm.targeted i f target hf (by simp [hp, FanPhase.targets])
          obtain ⟨hkey, hgen⟩ := haim.same r (htask ▸ h.registered_eq)
          obtain ⟨t₂, ht₂, hq⟩ | hclose := hs.pushes hf hp (htask ▸ h.task)
            (hm.rxOpen _ t h.task hlive)
          · exact .inl (.queued (htask ▸ ht₂) (.inr hq) hb)
          · exact .inl (.closing (i := i) (by rw [hkey, hgen]; exact hclose))
      | closing hc =>
        obtain hc | hgone := hs.closes hc (h.identifies hm)
        · exact .inl (.closing hc)
        · rw [hl'] at hgone
          cases hgone
    · exact .inl ⟨hold, hdue⟩
  · right
    obtain ho | hskip := hs.published (hσ.set _ _ hdoc).1 hf hf' hfd e hx hold
    · exact .inl (.offered hi' hf' ho)
    · exact .inr (.inr hskip)

/-- A holder past registration was the holder before. -/
theorem Holder.before (h' : m'.Holder e r t') (hm : m.Sound) (hs : m.Step a m')
    (ht : m.conns e = some t) (hp : t.phase.pending = false) : m.Holder e r t := by
  obtain ⟨c', hl', rfl⟩ := h'.entry
  have hentered : m.pending c'.task = false := by simp [pending, ht, hp]
  have hr := hs.registered_of_entered hentered h'.registered_eq
  rw [Manager.registered, ht] at hr
  refine ⟨ht, hr, ?_⟩
  obtain ⟨c, hl, htask, -⟩ | ⟨e, t₁, peer, doc, g, -, ht₁, hp₁, -, -, rfl, -⟩ :=
    hs.entry hm.owned.conns.exact hl' h'.registered_eq
  · exact ⟨c, hl, htask⟩
  · obtain rfl : t = t₁ := Option.some.inj (ht.symm.trans ht₁)
    simp [hp₁, Phase.pending] at hp

/-- Where an answer comes from. -/
theorem Step.answers (hs : m.Step a m') (ht' : m'.conns e = some t')
    (ha : t'.phase.answered = true) :
    (∃ t, m.conns e = some t ∧ t.phase.answered = true) ∨
      ∃ t r payload m₁ reply, a = .handleFrame e ∧ m.conns e = some t ∧
        t.phase = .received r false payload ∧
        m.handleFrame r.doc r.peer.deviceId payload = some (m₁, reply) ∧
        t' = { t with phase := .handled r reply } := by
  have hstep := hs.connStep e
  rw [ht'] at hstep
  generalize m.conns e = o at hstep
  cases hstep with
  | idle | hungUp | queued => exact .inl ⟨_, rfl, ha⟩
  | accepted | dialed | fetched | refused | entered | step1 | finished => cases ha
  | rejected | unannounced => cases ha
  | announced hp => exact .inl ⟨_, rfl, by simp [hp, Phase.answered]⟩
  | @handled t r b payload m₁ reply hp hf =>
    cases b with
    | false => exact .inr ⟨t, r, payload, m₁, reply, rfl, rfl, hp, hf, rfl⟩
    | true =>
      clear hf
      exact .inl ⟨t, rfl, by simp [hp, Phase.answered]⟩
  | @moved act t _ hc hl =>
    refine .inl ⟨t, rfl, ?_⟩
    cases hl with
    | activity => exact ha
    | helloSent | helloFailed | helloArrived | notHello | abort | leave | abortClosed => cases ha
    | step1Sent | step1Failed | closed | returned => cases ha
    | helloEchoed | helloAnswered =>
      obtain ⟨-, hph⟩ | hph := ConnTask.validate_cases (P := P) m.device t.dialedScope ‹Hello› <;>
        simp [hph, Phase.answered] at ha
    | ping hp | dequeue hp | recvFrame hp | allowed hp | startSend hp | sent hp =>
      simpa [hp, Phase.answered] using ha

/-- Once a SYNC_STEP_1 is answered, what it did not cover is due. -/
theorem Step.answered (hs : m.Step (.handleFrame e) m') (ht : m.conns e = some t) {sv : P}
    (hp : t.phase = .received r false (some (.syncStep1 sv))) {m₁ : Manager D P}
    {reply : Option (Frame P)}
    (hf : m.handleFrame r.doc r.peer.deviceId (some (.syncStep1 sv)) = some (m₁, reply))
    (ht' : m'.conns e = some { t with phase := .handled r reply }) (hd : r.doc < m.docs.next)
    (hx : x ∈ m'.contents r.doc) : x ∈ MergeSets.known D sv ∨ m'.Due e r x := by
  obtain ⟨diff, hdiff, heq⟩ := Option.map_eq_some_iff.mp hf
  cases heq
  have hcom := hs.commits_eq
  rw [commits_handleFrame ht hp] at hcom
  have hold : x ∈ m.contents r.doc := by
    rwa [contents, hcom r.doc hd] at hx
  by_cases hk : x ∈ MergeSets.known D sv
  · exact .inl hk
  · refine .inr (.queued ht' (.inl rfl) ?_)
    rw [Frame.brings_of_content rfl, MergeSets.carried_diff hdiff]
    exact ⟨hold, hk⟩

/-- The connection on `e` has change `x`: in its document, or in the frame it has in hand. -/
def Gets (m : Manager D P) (e : EndId) (r : Registered) (x : X) : Prop :=
  x ∈ m.contents r.doc ∨ ∃ t b f, m.conns e = some t ∧ t.phase = .received r b (some f) ∧
    x ∈ f.brings D

/-- A frame in hand is applied, unless the loop is left. -/
theorem Gets.step (h : m.Gets e r x) (hs : m.Step a m') (hd : r.doc < m.docs.next)
    (ht' : m'.conns e = some t') (hlive : t'.phase.live = true) : m'.Gets e r x := by
  obtain h | ⟨t, b, f, ht, hp, hx⟩ := h
  · exact .inl (hs.contents_mono hd h)
  have hstep := hs.connStep e
  rw [ht, ht'] at hstep
  cases hstep with
  | idle | hungUp | queued => exact .inr ⟨_, b, f, ht', hp, hx⟩
  | fetched | refused | rejected | unannounced | finished => cases hlive
  | entered hp' | step1 hp' | announced hp' => simp [hp] at hp'
  | @moved act _ _ hc hl =>
    cases hl with
    | activity => exact .inr ⟨_, b, f, ht', hp, hx⟩
    | abort hp' =>
      obtain hp' | ⟨_, hp'⟩ := hp' <;> simp [hp] at hp'
    | leave hp' =>
      obtain hp' | ⟨_, hp' | hp'⟩ := hp' <;> simp [hp] at hp'
    | _ hp' => simp [hp] at hp'
  | @handled _ r₀ b₀ payload m₁ reply hp' hf =>
    obtain ⟨rfl, rfl, rfl⟩ : r = r₀ ∧ b = b₀ ∧ some f = payload := by simpa [hp] using hp'
    obtain ⟨u, hu, hxu⟩ := hx
    have hcom := hs.commits_eq
    obtain ⟨-, hn⟩ | ⟨g, u', d, ev, heq, hg, hap, -, -⟩ := handleFrame_cases hf
    · have := Frame.content_of_not_isContent (hn f rfl)
      rw [hu] at this
      cases this
    · cases heq
      obtain rfl : u' = u := by obtain rfl | rfl := hg <;> exact Option.some.inj hu
      simp only [commits_handleFrame ht hp, Option.bind_some, hu, hap, Option.map_some] at hcom
      refine .inl ?_
      rw [contents, hcom.1, Docs.heap_write, if_pos rfl, MergeSets.holds_apply hap]
      exact .inr hxu

/-- A frame that is read is in hand. -/
theorem Step.gets (hs : m.Step a m') (ht' : m'.conns e = some t')
    (hr : t'.phase.registered = some r) (hlive : t'.phase.live = true) {f : Frame P}
    (hread : a.reads e = some (some f)) (hx : x ∈ f.brings D) : m'.Gets e r x := by
  have hstep := hs.connStep e
  rw [ht'] at hstep
  generalize m.conns e = o at hstep
  cases hstep with
  | idle hsilent =>
    rw [hsilent.2] at hread
    cases hread
  | @moved act t _ hc hl =>
    have hread : act.reads = some (some f) := by simpa [Action.reads] using hread
    cases hl with
    | @recvFrame r₀ b payload hp =>
      cases hread
      cases hr
      exact .inr ⟨_, b, f, ht', rfl, hx⟩
    | notHello => cases hlive
    | abort _ _ h | leave _ _ h =>
      rw [h] at hread
      cases hread
    | helloAnswered | helloArrived =>
      cases hread
      rw [Frame.brings_of_not_content rfl] at hx
      cases hx
    | _ => cases hread
  | _ => cases hread

end Holder

end Manager

end Offers

end Yoink
