import Yoink.Network.Agreement
import Yoink.Sync.Delivery

/-!
# Convergence of connected peers

For a connection registered at both ends, each change of the sender's document has arrived,
is on its way, or is due (`Delivers`). The origin skip is the only step that drops a change
on purpose: it is sound as long as whatever a displaced connection still applies, and
whatever a fan-out of a room that was left still pushes, is known to the running instance
of that device.
-/

namespace Yoink

variable {N D P X : Type}

namespace Net

variable [DecidableEq N] [Yrs D P] [MergeSets D X]

/-- A connection that lost its entry applies only what the document of the running instance with
its peer's device id has already. -/
def SkipsHeld (n : Net N D P) (a : NetAction N P) : Prop :=
  ∀ i e t r b f, a = .node i (.handleFrame e) → (n.node i).conns e = some t →
    t.phase = .received r b (some f) → (n.node i).state.identifies r.key r.generation = false →
    ∀ j d, n.up j = true → (n.node j).device.id = r.peer.deviceId →
      (n.node j).docs.get r.peer.scope = some d → f.brings D ⊆ (n.node j).contents d

/-- A step that neither enters a stale document nor passes on what a stale document or a
displaced connection knows better. -/
structure Current (n : Net N D P) (a : NetAction N P) : Prop where
  rooms : ∀ i act, a.at i = some act → Manager.AppDriven act = true
  enters : ∀ i act, a.at i = some act → (n.node i).EntersCurrent act = true
  pushes : ∀ i act, a.at i = some act → (n.node i).PushesKnown act
  skips : n.SkipsHeld a

variable [DecidableEq P]

end Net

/-- The runs of a net whose steps are all current. -/
def currentNetwork {N : Type} (D P : Type) {X : Type} [DecidableEq N] [Yrs D P] [MergeSets D X]
    [DecidableEq P] (device : N → DeviceInfo) : System (Net N D P) (NetAction N P) :=
  (network D P device).restrict fun n a _ => n.Current a

namespace Net

/-- Change `x` is at an end: at the connection that reads there, or on its way to it. -/
def Arrives [Yrs D P] [MergeSets D X] (n : Net N D P) (j : N) (e : EndId) (r : Registered)
    (x : X) : Prop :=
  (n.node j).Gets e r x ∨ ∃ f ∈ n.inbox e, x ∈ f.brings D

/-- A connection from `i` to `j` that is registered at both ends, and has answered at `i`. -/
structure Met [DecidableEq N] (n : Net N D P) (i j : N) (e : EndId) (r r' : Registered)
    (t t' : ConnTask P) : Prop where
  upHere : n.up i = true
  upThere : n.up j = true
  here : n.owner e = some i
  there : n.owner e.flip = some j
  holder : (n.node i).Holder e r t
  answered : t.phase.answered = true
  peer : (n.node j).Holder e.flip r' t'
  live : t'.phase.live = true

/-- What the sender of such a connection has integrated arrives, or is due. -/
def Delivers [DecidableEq N] [Yrs D P] [MergeSets D X] (n : Net N D P) : Prop :=
  ∀ i j e r r' t t', i ≠ j → n.Met i j e r r' t t' → ∀ x ∈ (n.node i).contents r.doc,
    n.Arrives j e.flip r' x ∨ (n.node i).Due e r x

section Runs

variable [DecidableEq N] [Yrs D P] [MergeSets D X] [DecidableEq P] {device : N → DeviceInfo}
  {n n' : Net N D P} {a : NetAction N P} {τ : Trace N D P}

/-- An instance that was not started has no connection, and who runs was started. -/
structure StartedFirst (n : Net N D P) : Prop where
  running : ∀ d i, n.running d = some i → n.started i = true
  conns : ∀ i e, n.started i = false → (n.node i).conns e = none

omit [Yrs D P] [MergeSets D X] [DecidableEq P] in
theorem StartedFirst.up (h : n.StartedFirst) {i : N} (hu : n.up i = true) :
    n.started i = true := h.running _ _ (by simpa [Net.up] using hu)

omit [MergeSets D X] in
theorem Reachable.startedFirst (h : (network D P device).Reachable n) : n.StartedFirst := by
  refine System.Reachable.invariant (S := network D P device) (I := StartedFirst) ?_
    (fun n a n' _ hI hs => ?_) h
  · rintro n ⟨trust, rooms, rfl⟩
    exact ⟨nofun, fun i e _ =>
      congrFun (Manager.new_bare (device i) (trust i) (rooms i)).conns e⟩
  -- A step of a running instance is none of one that was not started.
  have moved {i : N} (hu : n.up i = true) (m : Manager D P) (k : N) (e : EndId)
      (hk : n.started k = false) : (Function.update n.node i m k).conns e = none := by
    have hne : k ≠ i := by
      rintro rfl
      rw [hI.up hu] at hk
      cases hk
    rw [Function.update_of_ne hne]
    exact hI.conns k e hk
  cases step_cases hs with
  | @start i hst hr =>
    refine ⟨fun d k hk => ?_, fun k e hk => hI.conns k e ?_⟩
    · simp only [Function.update_apply] at hk ⊢
      split
      · rfl
      · split at hk
        · exact absurd (Option.some.inj hk).symm ‹_›
        · exact hI.running d k hk
    · simp only [Function.update_apply] at hk
      split at hk
      · cases hk
      · exact hk
  | crash hu =>
    refine ⟨fun d k hk => ?_, hI.conns⟩
    simp only [Function.update_apply] at hk
    split at hk
    · cases hk
    · exact hI.running d k hk
  | connect hi _ _ _ hm => exact ⟨hI.running, moved hi _⟩
  | node hu _ hm => exact ⟨hI.running, moved hu _⟩

omit [MergeSets D X] in
/-- Who runs after a step ran before, or is started by it. -/
theorem Run.up_before (h : (network D P device).Run τ n) (hs : (network D P device).step n a n')
    {i : N} (hu : n'.up i = true) : n.up i = true ∨ a = .start i := by
  have hd := Run.device_eq h
  have hd' := Run.device_eq (h.next hs)
  simp only [up, hd, hd', decide_eq_true_eq] at hu ⊢
  cases step_cases hs with
  | @start k =>
    simp only [hd, Function.update_apply] at hu
    split at hu
    · cases hu
      exact .inr rfl
    · exact .inl hu
  | crash =>
    simp only [Function.update_apply] at hu
    split at hu
    · cases hu
    · exact .inl hu
  | connect | node => exact .inl hu

theorem Run.serving (h : (currentNetwork D P device).Run τ n) (i : N) :
    (Manager.servingSystem D P (device i)).Run (historyOf i τ) (n.node i) := by
  have hrun := Run.history h.of_restrict i
  have hall : ∀ t ∈ historyOf i τ,
      Manager.AppDriven t.act = true ∧ t.pre.EntersCurrent t.act = true ∧
      t.pre.PushesKnown t.act := by
    intro t ht
    obtain ⟨t', ht', hact⟩ := List.mem_filterMap.mp ht
    obtain ⟨act, ha, rfl⟩ := Option.map_eq_some_iff.mp hact
    have hc := h.restricted t' ht'
    exact ⟨hc.rooms i act ha, hc.enters i act ha, hc.pushes i act ha⟩
  exact ((hrun.to_restrict fun t ht => (hall t ht).1).to_restrict
    fun t ht => (hall t ht).2.1).to_restrict fun t ht => (hall t ht).2.2

theorem Run.sound (h : (currentNetwork D P device).Run τ n) (i : N) : (n.node i).Sound :=
  Manager.Reachable.sound (Run.serving h i).of_restrict.reachable

omit [MergeSets D X] in
theorem Run.heard (h : (network D P device).Run τ n) {i : N} {e : EndId} {t : ConnTask P}
    {r : Registered} (ht : (n.node i).conns e = some t) (hr : t.phase.registered = some r) :
    some (.hello r.peer) ∈ Manager.taken e (historyOf i τ) :=
  ((Manager.Run.known (Run.history h i) e t ht).entered r hr).heard.mem_taken

omit [MergeSets D X] in
/-- An end that has a task belonged to the same instances before the step. -/
theorem Step.owners_before (hs : n.Step a n') (hw : n.Wired) {i j : N} {e : EndId}
    {t : ConnTask P} (ht : (n.node i).conns e = some t) (hj : n'.owner e.flip = some j) :
    n.owner e = some i ∧ n.owner e.flip = some j := by
  obtain ⟨hi, k, hk⟩ := hw.owners (i := i) (e := e) (by simp [ht])
  obtain rfl : k = j := Option.some.inj ((hs.owner_keeps hk).symm.trans hj)
  exact ⟨hi, hk⟩

omit [MergeSets D X] in
/-- An instance with a task that runs after a step ran before. -/
theorem Run.up_of_task (h : (network D P device).Run τ n)
    (hs : (network D P device).step n a n') {i : N} {e : EndId} {t : ConnTask P}
    (ht : (n.node i).conns e = some t) (hu : n'.up i = true) : n.up i = true := by
  obtain hu | rfl := Run.up_before h hs hu
  · exact hu
  · cases step_cases hs with
    | start hst =>
      rw [(Reachable.startedFirst h.reachable).conns i e hst] at ht
      cases ht

/-- What a sender commits and skips for its peer, that peer has. -/
theorem Met.skips (h : (currentNetwork D P device).Run τ n) {i j : N} {e : EndId}
    {r r' : Registered} {t t' : ConnTask P} (hm : n.Met i j e r r' t t') {act : Action P}
    (ha : a.at i = some act) (hc : n.Current a) {x : X} (hs : (n.node i).Skips act r x) :
    x ∈ (n.node j).contents r'.doc := by
  have hrun := h.of_restrict
  obtain ⟨e₁, t₁, r₁, b, f, rfl, ht₁, hp₁, hdoc, hpeer, hx⟩ := hs
  have hr₁ : t₁.phase.registered = some r₁ := by simp [hp₁, Phase.registered]
  have hreg₁ : (n.node i).registered e₁ = some r₁ := by simp [Manager.registered, ht₁, hr₁]
  have hsi := Run.sound h i
  -- Both connections of this device are for the scope of the one document.
  obtain ⟨σ, hσ⟩ := hsi.named
  have hscope : r₁.peer.scope = r.peer.scope := by
    have h1 := (hσ.conn e₁ r₁.peer.scope r₁.doc (by simp [ht₁, Phase.doc_of_registered hr₁])).2
    have h2 := (hσ.conn e r.peer.scope r.doc (by simp [hm.holder.task,
      Phase.doc_of_registered hm.holder.registered])).2
    rw [← h1, ← h2, hdoc]
  have hkey : r₁.key = r.key := Prod.ext hpeer hscope
  have hheard := Run.heard hrun hm.holder.task hm.holder.registered
  by_cases hid : (n.node i).state.identifies r₁.key r₁.generation = true
  · -- The entry's own connection: its peer wrote the frame out of its document.
    have hh := (hsi.owned.conns.identifies hsi.owned.fresh hreg₁).mp hid
    rw [hkey, Manager.holder_eq_some.mpr hm.holder.entry] at hh
    obtain rfl := Option.some.inj hh
    have htaken : some f ∈ Manager.taken e (historyOf i τ) := by
      obtain ⟨rest, hrs, -⟩ : ∃ rest, Manager.taken e (historyOf i τ) = rest ++ [some f] ∧
          Manager.Opened r₁.peer b rest := by
        simpa [Manager.Listened, hp₁] using (Manager.Run.listened (Run.history hrun i) e).2 t₁ ht₁
      simp [hrs]
    have hwrote := Run.written_of_taken hrun hm.here hm.there htaken
    have hsourced := Manager.Run.sourced (Run.serving h j) e.flip
    exact hsourced.written r' hm.peer.registered_eq f hwrote hx
  · have hact := NetAction.of_at ha (by simp)
    have hheard' := Run.heard hrun hm.peer.task hm.peer.registered
    have hsame := Run.one_scope hrun hm.here hm.there hheard hheard'
    refine hc.skips i e₁ t₁ r₁ b f hact ht₁ hp₁ (by simpa using hid) j r'.doc hm.upThere ?_ ?_ hx
    · rw [Run.device_eq hrun, hpeer, (Run.introduced hrun hm.here hm.there hheard).2]
    · rw [hscope, hsame]
      exact (hm.peer.fan (Run.sound h j)).1

omit [MergeSets D X] in
/-- Who answered has read two frames, so the other end has written two and is registered. -/
theorem Run.answered_peer (h : (network D P device).Run τ n) {i j : N} {e : EndId}
    (hi : n.owner e = some i) (hj : n.owner e.flip = some j) {t : ConnTask P}
    (ht : (n.node i).conns e = some t) (ha : t.phase.answered = true) :
    ∃ t', (n.node j).conns e.flip = some t' ∧ t'.phase.pending = false := by
  have hrs : 2 ≤ (Manager.taken e (historyOf i τ)).length := by
    have hlisten := (Manager.Run.listened (Run.history h i) e).2 t ht
    cases hp : t.phase with
    | handled r reply =>
      rw [hp] at hlisten
      exact Manager.Opened.two_le hlisten
    | select r b | sendOrHangup r b f | starting r b f | sending r b f =>
      obtain rfl : b = true := by simpa [hp, Phase.answered] using ha
      rw [hp] at hlisten
      exact Manager.Opened.two_le hlisten
    | received r b payload =>
      obtain rfl : b = true := by simpa [hp, Phase.answered] using ha
      obtain ⟨rest, hrs, hopen⟩ : ∃ rest, Manager.taken e (historyOf i τ) = rest ++ [payload] ∧
          Manager.Opened r.peer true rest := by simpa [Manager.Listened, hp] using hlisten
      rw [hrs, List.length_append]
      exact hopen.two_le.trans (Nat.le_add_right _ _)
    | _ => simp [hp, Phase.answered] at ha
  obtain ⟨f, hf, hn⟩ := Run.answered h hi hj hrs
  have hspoken := Manager.Run.spoken (Run.history h j) e.flip
  cases hc : (n.node j).conns e.flip with
  | none =>
    rw [hspoken.1 hc] at hf
    cases hf
  | some t' =>
    refine ⟨t', rfl, ?_⟩
    have hsaid := (hspoken.2 t' hc).said
    -- Before registration only the HELLO is written.
    have hgreeted (hg : Manager.Greeted (device j) (Manager.written e.flip (historyOf j τ))) :
        False := by
      obtain ⟨scope, hw⟩ := hg
      rw [hw, List.mem_singleton] at hf
      simp [hf] at hn
    have hnil (hw : Manager.written e.flip (historyOf j τ) = []) : False := by
      rw [hw] at hf
      cases hf
    cases hp : t'.phase with
    | helloSend | helloEcho =>
      rw [hp] at hsaid
      exact (hnil hsaid).elim
    | helloWait =>
      simp only [hp, Manager.Said] at hsaid
      split at hsaid
      · exact (hgreeted hsaid).elim
      · exact (hnil hsaid).elim
    | validated | fetched =>
      rw [hp] at hsaid
      exact (hgreeted hsaid).elim
    | _ => rfl

/-- The receiver keeps what has arrived, and reads what is on its way. -/
theorem Arrives.step {j : N} {e : EndId} {r' : Registered} {t t' : ConnTask P} {x : X}
    (h : n.Arrives j e r' x) (hs : n.Step a n') (hw : n.Wired) (hsound : (n.node j).Sound)
    {i : N} (hj : n.owner e = some j) (hi : n.owner e.flip = some i)
    (hp : (n.node j).Holder e r' t) (hp' : (n'.node j).Holder e r' t')
    (hl : t'.phase.live = true) : n'.Arrives j e r' x := by
  obtain ⟨hinbox, hnext⟩ := hs.inbox hw hj hi
  have hnode := hs.node_step j
  obtain ⟨σ, hσ⟩ := hsound.named
  have hd : r'.doc < (n.node j).docs.next :=
    (hσ.conn e r'.peer.scope r'.doc (by simp [hp.task, Phase.doc_of_registered hp.registered])).1
  cases ha : a.at j with
  | none =>
    simp only [ha] at hnode
    simp only [ha, Option.bind_none, Option.isSome_none, Bool.false_eq_true, if_false] at hinbox
    rw [Arrives, hnode, hinbox]
    obtain h | ⟨f, hf, hx⟩ := h
    · exact .inl h
    · exact .inr ⟨f, List.mem_append_left _ hf, hx⟩
  | some act =>
    simp only [ha] at hnode
    simp only [ha, Option.bind_some] at hinbox hnext
    have hstep := Manager.step_cases hnode
    obtain h | ⟨f, hf, hx⟩ := h
    · exact .inl (h.step hstep hd hp'.task hl)
    · cases hr : act.reads e with
      | none =>
        rw [hr] at hinbox
        exact .inr ⟨f, by rw [hinbox]; exact List.mem_append_left _ hf, hx⟩
      | some payload =>
        obtain ⟨g, rest, hin, rfl⟩ := hnext _ hr
        rw [hin] at hf
        obtain rfl | hf := List.mem_cons.mp hf
        · exact .inl (hstep.gets hp'.task hp'.registered hl hr hx)
        · rw [hr, hin] at hinbox
          exact .inr ⟨f, by rw [hinbox]; exact List.mem_append_left _ hf, hx⟩

/-- What is written arrives. -/
theorem Step.sent (hs : n.Step a n') (hw : n.Wired) {i j : N} {e : EndId}
    (hi : n.owner e = some i) (hj : n.owner e.flip = some j) {act : Action P}
    (ha : a.at i = some act) {f : Frame P} (hf : act.sends e = some f) (r' : Registered) {x : X}
    (hx : x ∈ f.brings D) : n'.Arrives j e.flip r' x := by
  obtain ⟨hinbox, -⟩ := hs.inbox hw hj (j := i) (by rwa [EndId.flip_flip])
  rw [EndId.flip_flip, ha, Option.bind_some, hf] at hinbox
  exact .inr ⟨f, by rw [hinbox]; exact List.mem_append_right _ List.mem_cons_self, hx⟩

/-- The first frame a connection handles is a SYNC_STEP_1 of what the other end has. -/
theorem Run.first_frame (h : (currentNetwork D P device).Run τ n) {i j : N} {e : EndId}
    (hi : n.owner e = some i) (hj : n.owner e.flip = some j) {t t' : ConnTask P}
    {r r' : Registered} {payload : Option (Frame P)} (ht : (n.node i).conns e = some t)
    (hp : t.phase = .received r false payload) (hpeer : (n.node j).Holder e.flip r' t') :
    ∃ sv, payload = some (.syncStep1 sv) ∧
      MergeSets.known D sv ⊆ (n.node j).contents r'.doc := by
  have hrun := h.of_restrict
  obtain ⟨rest, hrs, hopen⟩ : ∃ rest, Manager.taken e (historyOf i τ) = rest ++ [payload] ∧
      Manager.Opened r.peer false rest := by
    simpa [Manager.Listened, hp] using (Manager.Run.listened (Run.history hrun i) e).2 t ht
  obtain ⟨more, rfl, hm⟩ := hopen
  obtain rfl : more = [] := by simpa using hm
  have hflow := Run.flow hrun hi hj
  rw [hrs] at hflow
  obtain hw | ⟨scope, hw⟩ | ⟨scope, sv, rest, hw, -⟩ :=
    Manager.Run.wrote (Run.history hrun j) e.flip
  · simp [hw] at hflow
  · simp [hw] at hflow
  · rw [hw] at hflow
    obtain ⟨-, rfl, -⟩ : _ ∧ some (.syncStep1 sv) = payload ∧ _ := by simpa using hflow
    exact ⟨sv, rfl, (Manager.Run.sourced (Run.serving h j) e.flip).asked r' _ sv rest
      hpeer.registered_eq hw⟩

theorem Delivers.step (h : (currentNetwork D P device).Run τ n) (hI : n.Delivers)
    (hs : (network D P device).step n a n') (hc : n.Current a) : n'.Delivers := by
  intro i j e r r' t t' hij hmet x hx
  have hrun := h.of_restrict
  have hrun' : (currentNetwork D P device).Run (τ ++ [⟨n, a, n'⟩]) n' := h.next ⟨hs, hc⟩
  have hw := Reachable.wired hrun.reachable
  have hstep := step_cases hs
  have hnode_i := hstep.node_step i
  have hnode_j := hstep.node_step j
  have hsi := Run.sound h i
  have hsj := Run.sound h j
  -- The connection was met before, if it had answered and its peer was there.
  have before {t₀ t₁ : ConnTask P} (ht₀ : (n.node i).conns e = some t₀)
      (ha₀ : t₀.phase.answered = true) (hh : (n.node i).Holder e r t₀)
      (hp : (n.node j).Holder e.flip r' t₁) (hl : t₁.phase.live = true) :
      n.Met i j e r r' t₀ t₁ := by
    obtain ⟨hi, hj⟩ := hstep.owners_before hw ht₀ hmet.there
    exact ⟨Run.up_of_task hrun hs ht₀ hmet.upHere, Run.up_of_task hrun hs hp.task hmet.upThere,
      hi, hj, hh, ha₀, hp, hl⟩
  cases ha : a.at i with
  | some act =>
    -- The sender acts, so the receiver does not.
    have haj : a.at j = none := by
      cases a with
      | node k => simp_all [NetAction.at]
      | connect k => simp_all [NetAction.at]
      | _ => rfl
    simp only [ha] at hnode_i
    simp only [haj] at hnode_j
    have hact := Manager.step_cases hnode_i
    have hpeer : (n.node j).Holder e.flip r' t' := hnode_j ▸ hmet.peer
    obtain ⟨t₀, ht₀, ha₀⟩ | ⟨t₀, r₀, payload, m₁, reply, rfl, ht₀, hp₀, hf₀, rfl⟩ :=
      hact.answers hmet.holder.task hmet.answered
    · have hl₀ := Phase.live_of_answered ha₀
      have hh := hmet.holder.before hsi hact ht₀ (Phase.not_pending_of_live hl₀)
      have hmet₀ := before ht₀ ha₀ hh hpeer hmet.live
      obtain ⟨hold, hdue⟩ | hdue | ⟨f, hf, hxf⟩ | hskip := hh.step hmet.holder hsi
        (Run.sound hrun' i) hl₀ (Phase.live_of_answered hmet.answered) hact hx
      · have harr := (hI i j e r r' t₀ t' hij hmet₀ x hold).resolve_right hdue
        exact .inl (harr.step hstep hw hsj hmet₀.there (i := i)
          (by rw [EndId.flip_flip]; exact hmet₀.here) hpeer hmet.peer hmet.live)
      · exact .inr hdue
      · exact .inl (hstep.sent hw hmet₀.here hmet₀.there ha hf r' hxf)
      · have hknown := hmet₀.skips h ha hc hskip
        rw [← hnode_j] at hknown
        exact .inl (.inl (.inl hknown))
    · -- The connection answers its first frame.
      obtain ⟨hi, hj⟩ := hstep.owners_before hw ht₀ hmet.there
      obtain rfl : r₀ = r := by simpa [Phase.registered] using hmet.holder.registered
      obtain ⟨sv, rfl, hknown⟩ := Run.first_frame h hi hj ht₀ hp₀ hpeer
      obtain ⟨σ, hσ⟩ := hsi.named
      have hd : r₀.doc < (n.node i).docs.next :=
        (hσ.conn e r₀.peer.scope r₀.doc (by simp [ht₀, hp₀, Phase.doc, Phase.registered])).1
      obtain hx | hdue := hact.answered ht₀ hp₀ hf₀ hmet.holder.task hd hx
      · have hx := hknown hx
        rw [← hnode_j] at hx
        exact .inl (.inl (.inl hx))
      · exact .inr hdue
  | none =>
    simp only [ha] at hnode_i
    have hh : (n.node i).Holder e r t := hnode_i ▸ hmet.holder
    obtain ⟨hi, hj⟩ := hstep.owners_before hw hh.task hmet.there
    obtain ⟨t₁, ht₁, hp₁⟩ := Run.answered_peer hrun hi hj hh.task hmet.answered
    -- The peer was registered before as well.
    have hpeer : (n.node j).Holder e.flip r' t₁ ∧ t₁.phase.live = true := by
      cases haj : a.at j with
      | none =>
        simp only [haj] at hnode_j
        have hp : (n.node j).Holder e.flip r' t' := hnode_j ▸ hmet.peer
        obtain rfl : t₁ = t' := Option.some.inj (ht₁.symm.trans hp.task)
        exact ⟨hp, hmet.live⟩
      | some act =>
        simp only [haj] at hnode_j
        have hact := Manager.step_cases hnode_j
        refine ⟨hmet.peer.before hsj hact ht₁ hp₁, ?_⟩
        have hconn := hact.connStep e.flip
        rw [ht₁, hmet.peer.task] at hconn
        exact (hconn.live hmet.live).resolve_right (by simp [hp₁])
    have hmet₀ := before hh.task hmet.answered hh hpeer.1 hpeer.2
    rw [hnode_i] at hx ⊢
    obtain harr | hdue := hI i j e r r' t t₁ hij hmet₀ x hx
    · exact .inl (harr.step hstep hw hsj hj (i := i) (by rw [EndId.flip_flip]; exact hi)
        hpeer.1 hmet.peer hmet.live)
    · exact .inr hdue

theorem Reachable.delivers (h : (currentNetwork D P device).Reachable n) : n.Delivers := by
  obtain ⟨τ, h⟩ := h
  refine System.Run.history (S := currentNetwork D P device) (I := fun _ n => n.Delivers) ?_
    (fun τ n a n' hr hI hs => hI.step hr hs.1 hs.2) h
  rintro n ⟨trust, rooms, rfl⟩ i j e r r' t t' - hmet
  cases hmet.here

/-- Document updates, queues and sockets are drained, and every task that was hung up has
ended. -/
structure Drained (n : Net N D P) : Prop extends n.Calm where
  queues : ∀ i e t r, n.up i = true → (n.node i).conns e = some t →
    t.phase.registered = some r → t.phase.queued = none ∧ t.outbound = []
  fans : ∀ i k f, n.up i = true → (n.node i).fans k = some f → f.phase ≠ .returned →
    f.phase = .recv ∧ f.backlog = [] ∧ f.lagged = false
  pushes : ∀ i k, n.up i = true → (n.node i).calls (.fan k) = []

omit [DecidableEq P] in
/-- Nothing is due where everything is drained. -/
theorem Drained.not_due (hd : n.Drained) {i : N} (hu : n.up i = true) {e : EndId}
    {r : Registered} {t : ConnTask P} (hh : (n.node i).Holder e r t) (hs : (n.node i).Sound)
    (x : X) : ¬ (n.node i).Due e r x := by
  intro hdue
  cases hdue with
  | queued ht hf hx =>
    obtain rfl := Option.some.inj (hh.task.symm.trans ht)
    obtain ⟨hq, ho⟩ := hd.queues i e t r hu hh.task hh.registered
    obtain hf | hf := hf
    · simp [hq] at hf
    · simp [ho] at hf
  | @offered k f hl hf ho =>
    obtain ⟨f', hf', -, -, hne⟩ := hs.held.task _ k hl
    obtain rfl := Option.some.inj (hf.symm.trans hf')
    obtain ⟨hp, hb, hlag⟩ := hd.fans i k f hu hf hne
    cases ho with
    | lagged h => simp [hlag] at h
    | backlog hu => simp [hb] at hu
    | send hp' | push hp' => simp [hp] at hp'
  | @closing k hc =>
    rw [hd.pushes i k hu] at hc
    cases hc

/-- A check for drained states, over the instances, the sockets and the threads of a run. -/
def drainedCheck (n : Net N D P) (nodes : List N) (socks : List Nat) (threads : List ThreadId) :
    Bool :=
  let ends := socks.flatMap fun k => [⟨k, true⟩, ⟨k, false⟩]
  (nodes.all fun i => !n.up i ||
    ((threads.all fun t => decide ((n.node i).calls t = [])) &&
      ((List.range (n.node i).spawned).all fun k => ((n.node i).fans k).all fun f =>
        decide (f.phase = .recv ∧ f.backlog = [] ∧ f.lagged = false)) &&
      (ends.all fun e => ((n.node i).conns e).all fun t =>
        (t.phase.pumping && !t.hangup && decide (t.phase.queued = none ∧ t.outbound = [])) ||
          (match t.phase with | .ended _ => true | _ => false)))) &&
  ends.all fun e => (n.closed e || decide (n.inbox e = [])) && (!n.closed e || n.closed e.flip)

omit [MergeSets D X] in
theorem Run.drained (h : (network D P device).Run τ n) {nodes : List N} {socks : List Nat}
    {threads : List ThreadId} (hn : ∀ i, i ∈ nodes)
    (hk : ∀ k ∈ τ.filterMap (·.act.opens), k ∈ socks)
    (ht : ∀ i, ∀ t ∈ (historyOf i τ).filterMap (·.act.thread), t ∈ threads)
    (hc : n.drainedCheck nodes socks threads = true) : n.Drained := by
  have hw := Reachable.wired h.reachable
  simp only [drainedCheck, Bool.and_eq_true, List.all_eq_true, List.mem_flatMap, Bool.or_eq_true,
    decide_eq_true_eq, Bool.not_eq_true'] at hc
  obtain ⟨hnode, hends⟩ := hc
  have hend {e : EndId} (he : n.owner e ≠ none) :
      ∃ k ∈ socks, e ∈ [(⟨k, true⟩ : EndId), ⟨k, false⟩] := by
    refine ⟨e.sock, hk _ (Run.opened h he), ?_⟩
    obtain ⟨k, d⟩ := e
    cases d <;> simp
  have hconn (i : N) (e : EndId) (t : ConnTask P) (hu : n.up i = true)
      (ht : (n.node i).conns e = some t) : (t.phase.pumping = true ∧ t.hangup = false ∧
        t.phase.queued = none ∧ t.outbound = []) ∨ ∃ o, t.phase = .ended o := by
    obtain ⟨-, hall⟩ := (hnode i (hn i)).resolve_left (by simp [hu])
    have hcheck := hall e (hend (by simp [hw.task i e (by simp [ht])]))
    rw [ht, Option.all_some, Bool.or_eq_true] at hcheck
    obtain hcheck | hcheck := hcheck
    · simp only [Bool.and_eq_true, Bool.not_eq_true', decide_eq_true_eq] at hcheck
      exact .inl ⟨hcheck.1.1, hcheck.1.2, hcheck.2⟩
    · split at hcheck
      · exact .inr ⟨_, ‹_›⟩
      · cases hcheck
  have hcalls (i : N) (t : ThreadId) (hu : n.up i = true) : (n.node i).calls t = [] := by
    refine Manager.Run.idle (Run.history h i) (List.append_nil _).symm (fun t' ht' => ?_) t
    exact ((hnode i (hn i)).resolve_left (by simp [hu])).1.1 t' (ht i t' ht')
  have hopen {e : EndId} (he : n.closed e = false) : n.owner e ≠ none := fun ho => by
    simp [closed, ho] at he
  refine ⟨⟨fun i e t r hu ht hr => ?_, fun e i t hu hs ht => ?_, fun e he => ?_, fun e he => ?_⟩,
    fun i e t r hu ht hr => ?_, fun i k f hu hf _ => ?_, fun i k hu => hcalls i (.fan k) hu⟩
  · obtain h | ⟨o, ho⟩ := hconn i e t hu ht
    · exact h.1
    · simp [ho, Phase.registered] at hr
  · obtain h | ho := hconn i e t hu ht
    · obtain hs | ⟨x, hs⟩ := hs
      · simp [Manager.hungUp, ht, h.2.1] at hs
      · rw [hcalls i x hu] at hs
        cases hs
    · exact ho
  · exact ((hends e (hend (hopen he))).1).resolve_left (by simp [he])
  · by_cases ho : n.owner e = none
    · simp [closed, hw.pair e ho]
    · exact ((hends e (hend ho)).2).resolve_left (by simp [he])
  · obtain h | ⟨o, ho⟩ := hconn i e t hu ht
    · exact h.2.2
    · simp [ho, Phase.registered] at hr
  · have hlt := Manager.Reachable.fans_lt (Run.history h i).reachable k f hf
    have := ((hnode i (hn i)).resolve_left (by simp [hu])).1.2 k (List.mem_range.mpr hlt)
    simpa [hf] using this

/-- In a drained state, two connected instances know the same changes: as long as no step of the
run worked on a stale document or a displaced connection without its peer knowing better. -/
theorem connected_converge (h : (currentNetwork D P device).Reachable n) (hd : n.Drained)
    {i j : N} (hui : n.up i = true) (huj : n.up j = true) {s : Scope} {c c' : ConnectionHandle}
    (hl : (n.node i).state.connections.lookup ((device j).id, s) = some c)
    (hl' : (n.node j).state.connections.lookup ((device i).id, s) = some c') :
    ∃ d d', (n.node i).docs.get s = some d ∧ (n.node j).docs.get s = some d' ∧
      (n.node i).contents d = (n.node j).contents d' := by
  have hdel := Reachable.delivers h
  obtain ⟨τ, h⟩ := h
  have hrun := h.of_restrict
  -- Either end of the connection has what the other has integrated.
  have known (i j : N) (hij : i ≠ j) (hui : n.up i = true) (huj : n.up j = true)
      (c : ConnectionHandle)
      (hl : (n.node i).state.connections.lookup ((device j).id, s) = some c) :
      ∃ d d', (n.node i).docs.get s = some d ∧ (n.node j).docs.get s = some d' ∧
        (n.node i).contents d ⊆ (n.node j).contents d' := by
    obtain ⟨hi, hj, t, r, ht, hr, rfl⟩ := hd.entry_open hrun hui huj hl
    obtain ⟨-, t', r', ht', hr'⟩ := hd.met hrun hi hj hui ht hr
    obtain ⟨-, hann, hheard, hentry⟩ := hd.entry hrun hi hj hui ht hr
    obtain ⟨-, -, hheard', hentry'⟩ := hd.entry hrun hj (by rwa [EndId.flip_flip]) huj ht' hr'
    have hp := hd.pumping i _ t r hui ht hr
    have hp' := hd.pumping j _ t' r' huj ht' hr'
    have hh : (n.node i).Holder c.task r t := ⟨ht, hr, hentry.imp fun _ h => ⟨h.1, h.2.1⟩⟩
    have hh' : (n.node j).Holder c.task.flip r' t' :=
      ⟨ht', hr', hentry'.imp fun _ h => ⟨h.1, h.2.1⟩⟩
    have hmet : n.Met i j c.task r r' t t' := by
      refine ⟨hui, huj, hi, hj, hh, ?_, hh', ?_⟩
      · cases hph : t.phase <;> simp_all [Phase.pumping, Phase.answered, Phase.announced]
      · cases hph : t'.phase <;> simp_all [Phase.pumping, Phase.live]
    have hscope := Run.one_scope hrun hi hj hheard hheard'
    refine ⟨r.doc, r'.doc, (hh.fan (Run.sound h i)).1, ?_, fun x hx => ?_⟩
    · rw [hscope]
      exact (hh'.fan (Run.sound h j)).1
    obtain (hx | ⟨t₁, b, f, ht₁, hp₁, -⟩) | ⟨f, hf, -⟩ :=
      (hdel i j c.task r r' t t' hij hmet x hx).resolve_right
        (hd.not_due hui hh (Run.sound h i) x)
    · exact hx
    · rw [Option.some.inj (ht'.symm.trans ht₁), hp₁] at hp'
      cases hp'
    · rw [hd.frames _ (hd.is_open hj huj ht' hr')] at hf
      cases hf
  by_cases hij : i = j
  · subst hij
    obtain ⟨hi, hj, t, r, ht, hr, rfl⟩ := hd.entry_open hrun hui huj hl
    obtain ⟨-, -, -, hentry⟩ := hd.entry hrun hi hj hui ht hr
    have hh : (n.node i).Holder c.task r t := ⟨ht, hr, hentry.imp fun _ h => ⟨h.1, h.2.1⟩⟩
    exact ⟨r.doc, r.doc, (hh.fan (Run.sound h i)).1, (hh.fan (Run.sound h i)).1, rfl⟩
  · obtain ⟨d, d', hg, hg', hsub⟩ := known i j hij hui huj c hl
    obtain ⟨d₁', d₁, hg₁', hg₁, hsub'⟩ := known j i (Ne.symm hij) huj hui c' hl'
    obtain rfl : d = d₁ := Option.some.inj (hg.symm.trans hg₁)
    obtain rfl : d' = d₁' := Option.some.inj (hg'.symm.trans hg₁')
    exact ⟨d, d', hg, hg', hsub.antisymm hsub'⟩

/-- A check for current steps, where only the devices scope is in use. -/
def currentCheck (n : Net N D P) : NetAction N P → Bool
  | .node i act => Manager.AppDriven act && (n.node i).EntersCurrent act && match act with
    | .fanPush k => decide ((n.node i).state.fanOuts.lookup .devices = some k)
    | .handleFrame e => ((n.node i).registered e).all fun r =>
      (n.node i).state.identifies r.key r.generation
    | _ => true
  | _ => true

omit [DecidableEq P] in
theorem Current.of_check (h : n.currentCheck a = true) : n.Current a := by
  -- What an instance does is checked, or is the opening of a socket.
  have hact {i : N} {act : Action P} (ha : a.at i = some act) :
      (∃ l e, act = .connected l e) ∨ a = .node i act := by
    by_cases hn : ∀ l e, act ≠ .connected l e
    · exact .inr (NetAction.of_at ha hn)
    · push Not at hn
      exact .inl hn
  refine ⟨fun i act ha => ?_, fun i act ha => ?_, fun i act ha => ?_, ?_⟩
  · obtain ⟨l, e, rfl⟩ | rfl := hact ha
    · rfl
    · simp only [currentCheck, Bool.and_eq_true] at h
      exact h.1.1
  · obtain ⟨l, e, rfl⟩ | rfl := hact ha
    · rfl
    · simp only [currentCheck, Bool.and_eq_true] at h
      exact h.1.2
  · rintro k f frame target rest lag r rfl - - hnone
    obtain ⟨l, e, hc⟩ | rfl := hact ha
    · cases hc
    · simp only [currentCheck, Bool.and_eq_true, decide_eq_true_eq] at h
      exact absurd h.2 (hnone .devices)
  · rintro i e t r b f rfl ht hp hid
    simp only [currentCheck, Bool.and_eq_true, Manager.registered, ht, Option.bind_some, hp,
      Phase.registered, Option.all_some] at h
    rw [hid] at h
    cases h.2

end Runs

section Restart

/-- "b", and two runs of the device "a". -/
def trio : Fin 3 → DeviceInfo
  | 1 => ⟨"b", "B"⟩
  | _ => ⟨"a", "A"⟩

/-- Run `i` of "a" starts, dials "b" over socket `k`, and both exchange what they have, which is
nothing; "b" hangs up what it was `displacing`. -/
def session (i : Fin 3) (k : Nat) (displacing : List (NetAction (Fin 3) GrowSet)) :
    List (NetAction (Fin 3) GrowSet) :=
  [.start i, .node i (.invoke 0 (.peerDiscovered ⟨"b", []⟩)), .node i (.call (.caller 0)),
    .node i (.call (.caller 0)), .node i (.dialTarget 1), .connect i 1 k 1,
    .node 1 (.handleInbound ⟨k, false⟩),
    .node i (.conn ⟨k, true⟩ (.sendHello ⟨"a", "A", 2, .devices⟩)),
    .node 1 (.conn ⟨k, false⟩ (.recv (.frame (some (.hello ⟨"a", "A", 2, .devices⟩))))),
    .node 1 (.conn ⟨k, false⟩ (.sendHello ⟨"b", "B", 2, .devices⟩)),
    .node 1 (.fetchDoc ⟨k, false⟩), .node 1 (.register ⟨k, false⟩)] ++ displacing ++
  [.node 1 (.sendStep1 ⟨k, false⟩ ∅), .node 1 (.conn ⟨k, false⟩ (.step1Sent true)),
    .node i (.conn ⟨k, true⟩ (.recv (.frame (some (.hello ⟨"b", "B", 2, .devices⟩))))),
    .node i (.fetchDoc ⟨k, true⟩), .node i (.register ⟨k, true⟩),
    .node i (.sendStep1 ⟨k, true⟩ ∅), .node i (.conn ⟨k, true⟩ (.step1Sent true)),
    .node i (.conn ⟨k, true⟩ (.recv (.frame (some (.syncStep1 ∅))))),
    .node i (.handleFrame ⟨k, true⟩), .node i (.tryAnnounce ⟨k, true⟩),
    .node i (.conn ⟨k, true⟩ .sendAllowed),
    .node i (.conn ⟨k, true⟩ (.startSend (some (.syncStep2 ∅)))),
    .node i (.conn ⟨k, true⟩ (.sent true)),
    .node 1 (.conn ⟨k, false⟩ (.recv (.frame (some (.syncStep1 ∅))))),
    .node 1 (.handleFrame ⟨k, false⟩), .node 1 (.tryAnnounce ⟨k, false⟩),
    .node 1 (.conn ⟨k, false⟩ .sendAllowed),
    .node 1 (.conn ⟨k, false⟩ (.startSend (some (.syncStep2 ∅)))),
    .node 1 (.conn ⟨k, false⟩ (.sent true)),
    .node 1 (.conn ⟨k, false⟩ (.recv (.frame (some (.syncStep2 ∅))))),
    .node 1 (.handleFrame ⟨k, false⟩),
    .node i (.conn ⟨k, true⟩ (.recv (.frame (some (.syncStep2 ∅))))),
    .node i (.handleFrame ⟨k, true⟩)]

/-- "a" adds an entry, sends it to "b" and restarts with an empty document. "b" takes the
update from the socket of before once the new connection has registered and synced. -/
def restarted : List (NetAction (Fin 3) GrowSet) :=
  .start 1 :: session 0 0 [] ++
  [.node 0 (.invoke 0 (.addEntry .devices ⟨"id", "a", "A", "lost", 7⟩)),
    .node 0 (.call (.caller 0)), .node 0 (.fanRecv 0), .node 0 (.fanTargets 0),
    .node 0 (.fanPush 0), .node 0 (.conn ⟨0, true⟩ (.dequeue (.update {7}))),
    .node 0 (.conn ⟨0, true⟩ .sendAllowed),
    .node 0 (.conn ⟨0, true⟩ (.startSend (some (.update {7})))), .crash 0] ++
  session 2 1 [.node 1 (.call (.conn ⟨1, false⟩))] ++
  [.node 1 (.conn ⟨0, false⟩ (.recv (.frame (some (.update {7}))))),
    .node 1 (.handleFrame ⟨0, false⟩), .node 1 (.conn ⟨0, false⟩ .hangupSignalled),
    .node 1 (.conn ⟨0, false⟩ .closed), .node 1 (.finishConnection ⟨0, false⟩),
    .node 1 (.call (.conn ⟨0, false⟩)), .node 1 (.conn ⟨0, false⟩ .returned),
    .node 1 (.fanRecv 0), .node 1 (.fanTargets 0), .node 1 (.fanNext 0)]

/-- "b" does not pass that update on to the device it came from, which has lost it. -/
theorem displaced_update_lost :
    ∃ (n : Net (Fin 3) GrowSet GrowSet) (c c' : ConnectionHandle) (d d' : DocId),
      (network GrowSet GrowSet trio).Reachable n ∧ n.Drained ∧ n.up 1 = true ∧ n.up 2 = true ∧
        (n.node 1).state.connections.lookup ("a", .devices) = some c ∧
        (n.node 2).state.connections.lookup ("b", .devices) = some c' ∧
        (n.node 1).docs.get .devices = some d ∧ (n.node 2).docs.get .devices = some d' ∧
        (n.node 1).contents d ≠ (n.node 2).contents d' := by
  let start : Net (Fin 3) GrowSet GrowSet := .new trio (fun _ => ⟨false, ∅, ∅⟩) fun _ => []
  let τ := System.trace step start restarted
  let threads := (List.finRange 3).flatMap fun i => (historyOf i τ).filterMap (·.act.thread)
  obtain ⟨n, hn, hp⟩ := System.exists_of_exec
    (show (System.exec step start restarted).any (fun n =>
      n.drainedCheck (List.finRange 3) [0, 1] threads && n.up 1 && n.up 2 &&
        ((n.node 1).state.connections.lookup ("a", .devices)).isSome &&
        ((n.node 2).state.connections.lookup ("b", .devices)).isSome &&
        decide ((n.node 1).docs.get .devices = some 0 ∧ (n.node 2).docs.get .devices = some 0 ∧
          7 ∈ (n.node 1).docs.heap 0 ∧ 7 ∉ (n.node 2).docs.heap 0)) = true by decide +kernel)
  simp only [Bool.and_eq_true, decide_eq_true_eq, Option.isSome_iff_exists] at hp
  obtain ⟨⟨⟨⟨⟨hcheck, hu⟩, hu'⟩, c, hc⟩, c', hc'⟩, hd, hd', hmem, hnot⟩ := hp
  have hrun := run_of_exec hn
  have hsock : ∀ k ∈ τ.filterMap (·.act.opens), k ∈ [0, 1] := by decide +kernel
  refine ⟨n, c, c', 0, 0, hrun.reachable, ?_, hu, hu', hc, hc', hd, hd', fun heq => hnot ?_⟩
  · exact Run.drained hrun List.mem_finRange hsock
      (fun i t ht => List.mem_flatMap.mpr ⟨i, List.mem_finRange i, ht⟩) hcheck
  · have : 7 ∈ (n.node 2).contents 0 := heq ▸ (Finset.mem_coe.mpr hmem)
    exact Finset.mem_coe.mp this

/-- "a" adds an entry once it has synced with "b", and "b" takes it. -/
def shared (dialing accepting : EndId) : List (NetAction Bool GrowSet) :=
  synced dialing accepting ++ copying dialing ⟨"id", "a", "A", "kept", 7⟩ {7} ++
  [.node true (.conn accepting (.recv (.frame (some (.update {7}))))),
    .node true (.handleFrame accepting), .node true (.fanRecv 0), .node true (.fanTargets 0),
    .node true (.fanNext 0)]

/-- Both know the entry then. -/
theorem connected_converge_shared :
    ∃ (n : Net Bool GrowSet GrowSet) (d d' : DocId),
      (currentNetwork GrowSet GrowSet duo).Reachable n ∧ n.Drained ∧
        (n.node false).docs.get .devices = some d ∧ (n.node true).docs.get .devices = some d' ∧
        7 ∈ (n.node false).contents d ∧ (n.node false).contents d = (n.node true).contents d' := by
  let e : EndId := ⟨0, true⟩
  let start : Net Bool GrowSet GrowSet := .new duo (fun _ => ⟨false, ∅, ∅⟩) fun _ => []
  let τ := System.trace step start (shared e e.flip)
  let threads := [false, true].flatMap fun i => (historyOf i τ).filterMap (·.act.thread)
  obtain ⟨n, hn, hp⟩ := System.exists_of_exec
    (show (System.exec step start (shared e e.flip)).any (fun n =>
      n.drainedCheck [false, true] [0] threads && n.up false && n.up true &&
        ((n.node false).state.connections.lookup ("b", .devices)).isSome &&
        ((n.node true).state.connections.lookup ("a", .devices)).isSome &&
        decide ((n.node false).docs.get .devices = some 0 ∧ 7 ∈ (n.node false).docs.heap 0)) = true
      by decide +kernel)
  simp only [Bool.and_eq_true, decide_eq_true_eq, Option.isSome_iff_exists] at hp
  obtain ⟨⟨⟨⟨⟨hcheck, hu⟩, hu'⟩, c, hc⟩, c', hc'⟩, hd, hmem⟩ := hp
  have hall : τ.all (fun t => t.pre.currentCheck t.act) = true := by decide +kernel
  have hrun := run_of_exec hn
  have hcur := hrun.to_restrict (C := fun n a _ => n.Current a) fun t ht =>
    Current.of_check (List.all_eq_true.mp hall t ht)
  have hsock : ∀ k ∈ τ.filterMap (·.act.opens), k ∈ [0] := by decide +kernel
  have hdrained : n.Drained := by
    refine Run.drained hrun (by decide) hsock (fun i t ht => ?_) hcheck
    exact List.mem_flatMap.mpr ⟨i, by cases i <;> decide, ht⟩
  obtain ⟨d, d', hg, hg', heq⟩ := connected_converge hcur.reachable hdrained hu hu'
    (i := false) (j := true) hc hc'
  obtain rfl : d = 0 := Option.some.inj (hg.symm.trans hd)
  exact ⟨n, 0, d', hcur.reachable, hdrained, hg, hg', Finset.mem_coe.mpr hmem, heq⟩

end Restart

end Net

end Yoink
