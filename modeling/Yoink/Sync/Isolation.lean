import Yoink.Sync.Provenance

/-!
# Changes stay in their scope

Every change an instance holds belongs to the scope of the document or connection that holds it
(`Isolated`), if that is so of the frames it reads. The changes of a scope are a parameter here,
which a step may add to: an `add_entry` adds what its transaction wrote.
-/

namespace Yoink

variable {D P X : Type}

namespace Manager

/-- The targets of a fan-out are connections of its scope. -/
def TargetsScoped (m : Manager D P) : Prop :=
  ∀ i f target, m.fans i = some f → target ∈ f.phase.targets → target.1.2 = f.scope

/-- The step is the `add_entry` of `entry` on the document of scope `s`. -/
def AddsEntry (m : Manager D P) (a : Action P) (s : Scope) (entry : ClipEntry) (doc : DocId) :
    Prop :=
  ∃ t cs, a = .call t ∧ m.calls t = .addEntry s entry :: cs ∧ m.docs.get s = some doc

theorem AddsEntry.get {m : Manager D P} {a : Action P} {s : Scope} {entry : ClipEntry}
    {doc : DocId} (h : m.AddsEntry a s entry doc) : m.docs.get s = some doc := by
  obtain ⟨t, cs, -, -, hg⟩ := h
  exact hg

section Changes

variable [Yrs D P] [MergeSets D X] {m m' : Manager D P} {a : Action P}

/-- The step is an `add_entry` on the document of scope `s`, and makes the change `x`. -/
def Makes (m : Manager D P) (a : Action P) (s : Scope) (x : X) : Prop :=
  ∃ entry doc, m.AddsEntry a s entry doc ∧
    x ∈ MergeSets.carried D (Yrs.addEntry (m.docs.heap doc) entry).2

/-- What an instance holds of scope `s` are changes in `K s`. -/
structure Isolated (m : Manager D P) (σ : DocId → Scope) (K : Scope → Set X) : Prop where
  docs : ∀ d < m.docs.next, m.contents d ⊆ K (σ d)
  held : ∀ e t r f, m.conns e = some t → t.phase.registered = some r → t.Holds f →
    f.brings D ⊆ K r.peer.scope
  received : ∀ e t r b f, m.conns e = some t → t.phase = .received r b (some f) →
    f.brings D ⊆ K r.peer.scope

theorem Isolated.mono {σ : DocId → Scope} {K K' : Scope → Set X} (h : m.Isolated σ K)
    (hK : ∀ s, K s ⊆ K' s) : m.Isolated σ K' where
  docs d hd := (h.docs d hd).trans (hK _)
  held e t r f ht hr hf := (h.held e t r f ht hr hf).trans (hK _)
  received e t r b f ht hp := (h.received e t r b f ht hp).trans (hK _)

/-- What a fan-out hands out is of its scope. -/
theorem Isolated.fan {σ : DocId → Scope} {K : Scope → Set X} (h : m.Isolated σ K)
    (hσ : m.Named σ) (hb : m.FansBacked) {i : TaskId} {f : FanOut P} (hf : m.fans i = some f)
    {frame : Frame P} (hfr : f.phase.frame = some frame) : frame.brings D ⊆ K f.scope := by
  obtain ⟨hd, hs⟩ := hσ.fan i f hf
  exact ((hb i f hf).frame frame hfr).trans (hs ▸ h.docs f.doc hd)

/-- What a transaction brings is the entry it adds, or was in the frame it applies. -/
theorem commits_from {c : Commit D P} (h : m.commits a = some c) {u : P} (hu : c.update = some u)
    {x : X} (hx : x ∈ MergeSets.carried D u) :
    (∃ s entry, m.AddsEntry a s entry c.doc ∧
      x ∈ MergeSets.carried D (Yrs.addEntry (m.docs.heap c.doc) entry).2) ∨
      ∃ e t r b f, a = .handleFrame e ∧ m.conns e = some t ∧
        t.phase = .received r b (some f) ∧ r.doc = c.doc ∧ x ∈ f.brings D := by
  obtain ⟨t, s, entry, cs, doc, rfl, hc, hg, rfl⟩ |
    ⟨e, t, r, b, f, v, d, ev, rfl, ht, hp, hv, hap, rfl⟩ := commits_cases h
  · cases hu
    exact .inl ⟨s, entry, ⟨t, cs, rfl, hc, hg⟩, hx⟩
  · rw [(MergeSets.event_apply hap).1 u hu] at hx
    exact .inr ⟨e, t, r, b, f, rfl, ht, hp, rfl, v, hv, hx.1⟩

variable [DecidableEq P]

/-- A document that a step creates is empty. -/
theorem Step.contents_new (hs : m.Step a m') {d : DocId} (hd : m.docs.next ≤ d)
    (hd' : d < m'.docs.next) : m'.contents d = (∅ : Set X) := by
  have created {s : Scope} (h : m'.docs = (m.docs.getOrCreate s).1) :
      m'.contents d = (∅ : Set X) := by
    rw [h] at hd'
    rw [contents, h, Docs.getOrCreate_heap_new hd hd', MergeSets.holds_new]
  cases hs.roomStep with
  | quiet _ hn => exact absurd (hn ▸ hd') (Nat.not_lt.mpr hd)
  | created => exact created rfl
  | removed => exact absurd hd' (Nat.not_lt.mpr hd)
  | joined _ _ hdocs => exact created hdocs
  | left _ hdocs => exact absurd (hdocs ▸ hd') (Nat.not_lt.mpr hd)

/-- Where the changes of a document come from. -/
theorem Step.contents_from (hs : m.Step a m') {d : DocId} (hd : d < m'.docs.next) {x : X}
    (hx : x ∈ m'.contents d) :
    (d < m.docs.next ∧ x ∈ m.contents d) ∨
      (∃ s entry, m.AddsEntry a s entry d ∧
        x ∈ MergeSets.carried D (Yrs.addEntry (m.docs.heap d) entry).2) ∨
      ∃ e t r b f, a = .handleFrame e ∧ m.conns e = some t ∧
        t.phase = .received r b (some f) ∧ r.doc = d ∧ x ∈ f.brings D := by
  by_cases hold : d < m.docs.next
  swap
  · rw [hs.contents_new (Nat.not_lt.mp hold) hd] at hx
    cases hx
  by_cases hxd : x ∈ m.contents d
  · exact .inl ⟨hold, hxd⟩
  have hc := hs.commits_eq
  cases hcom : m.commits a with
  | none =>
    rw [hcom] at hc
    rw [contents, hc d hold] at hx
    exact absurd hx hxd
  | some c =>
    rw [hcom] at hc
    rw [contents, hc.1, Docs.heap_write] at hx
    split at hx
    · subst d
      obtain hx | ⟨u, hu, hxu⟩ := (commits_sound hcom).reported x hx
      · exact absurd hx hxd
      · exact .inr (commits_from hcom hu hxu)
    · exact absurd hx hxd

theorem TargetsScoped.step (h : m.TargetsScoped) (hs : m.Step a m') : m'.TargetsScoped := by
  intro i f' target hf' ht
  have hstep := hs.fanStep i
  rw [hf'] at hstep
  obtain ⟨f, hf, hsc, -, hold | ⟨-, hnew⟩⟩ := hstep.target ht
  · rw [hsc]
    exact h i f target hf hold
  · rw [hsc]
    exact hnew

/-- The facts about a run that decide which scope a frame is of. -/
structure Scoped (m : Manager D P) (σ : DocId → Scope) : Prop where
  named : m.Named σ
  backed : m.FansBacked
  targeted : m.Targeted
  targets : m.TargetsScoped
  unqueued : ∀ e t, m.conns e = some t → t.phase.pending = true → t.outbound = []

/-- A frame held after a step, or written in it, brings changes of its connection's scope. -/
theorem Isolated.step_holds {σ : DocId → Scope} {K : Scope → Set X} (h : m.Isolated σ K)
    (hsc : m.Scoped σ) (hs : m.Step a m') {e : EndId} {t' : ConnTask P}
    (ht' : m'.conns e = some t') {r : Registered} (hr' : t'.phase.registered = some r)
    {f : Frame P} (hf : t'.Holds f ∨ a.sends e = some f) : f.brings D ⊆ K r.peer.scope := by
  cases hs.held_from (hsc.unqueued e) ht' hr' hf with
  | kept ht hr hf => exact h.held e _ r f ht hr hf
  | plain hf =>
    rw [Frame.brings_of_not_content hf]
    exact Set.empty_subset _
  | @queued i fan target rest lag hfan hp htask hr =>
    subst htask
    -- The fan-out aims at the connection it found under its own scope.
    have hmem : target ∈ fan.phase.targets := by simp [hp, FanPhase.targets]
    obtain ⟨hkey, -⟩ := (hsc.targeted i fan target hfan hmem).same r hr
    have hscope : r.peer.scope = fan.scope := by
      rw [← hsc.targets i fan target hfan hmem, ← hkey]
      rfl
    rw [hscope]
    exact h.fan hsc.named hsc.backed hfan (by simp [hp, FanPhase.frame])
  | replied ht hp hh =>
    obtain ⟨hd, hσ⟩ := hsc.named.conn e r.peer.scope r.doc
      (by simp [ht, hp, Phase.doc, Phase.registered])
    exact (handleFrame_brings hh).trans (hσ ▸ h.docs r.doc hd)

/-- A received frame was received before the step, or is read by it. -/
theorem Step.received_from (hs : m.Step a m') {e : EndId} {t' : ConnTask P}
    (ht' : m'.conns e = some t') {r : Registered} {b : Bool} {f : Frame P}
    (hp' : t'.phase = .received r b (some f)) :
    (∃ t, m.conns e = some t ∧ t.phase = .received r b (some f)) ∨
      m.registered e = some r ∧ a.reads e = some (some f) := by
  have hstep := hs.connStep e
  rw [ht'] at hstep
  obtain ⟨t, ht, hp | ⟨rfl, hp⟩⟩ := hstep.received hp'
  · exact .inl ⟨t, ht, hp⟩
  · exact .inr ⟨by simp [registered, ht, hp, Phase.registered],
      by simp [Action.reads, ConnTask.Act.reads]⟩

/-- One step keeps the scopes apart, if what it reads is of the scope it is read for. -/
theorem Isolated.step {σ σ' : DocId → Scope} {K K' : Scope → Set X} (h : m.Isolated σ K)
    (hsc : m.Scoped σ) (hσ : ∀ d < m.docs.next, σ' d = σ d) (hs : m.Step a m')
    (hK : ∀ s, K s ⊆ K' s) (hmade : ∀ s x, m.Makes a s x → x ∈ K' s)
    (hin : ∀ e r f, m.registered e = some r → a.reads e = some (some f) →
      f.brings D ⊆ K r.peer.scope) : m'.Isolated σ' K' where
  docs d hd x hx := by
    obtain ⟨hold, hx⟩ | ⟨s, entry, hadd, hx⟩ | ⟨e, t, r, b, f, -, ht, hp, rfl, hxf⟩ :=
      hs.contents_from hd hx
    · rw [hσ d hold]
      exact hK _ (h.docs d hold hx)
    · obtain ⟨hold, hsd⟩ := hsc.named.set s d hadd.get
      rw [hσ d hold, hsd]
      exact hmade s x ⟨entry, d, hadd, hx⟩
    · obtain ⟨hold, hsd⟩ := hsc.named.conn e r.peer.scope r.doc
        (by simp [ht, hp, Phase.doc, Phase.registered])
      rw [hσ _ hold, hsd]
      exact hK _ (h.received e t r b f ht hp hxf)
  held e t' r f ht' hr' hf := (h.step_holds hsc hs ht' hr' (.inl hf)).trans (hK _)
  received e t' r b f ht' hp' := by
    obtain ⟨t, ht, hp⟩ | ⟨hr, hread⟩ := hs.received_from ht' hp'
    · exact (h.received e t r b f ht hp).trans (hK _)
    · exact (hin e r f hr hread).trans (hK _)

end Changes

/-- The HELLO a task has written is for the scope it dials or agreed on. -/
def Voiced (t : ConnTask P) (ws : List (Frame P)) : Prop :=
  ∀ hello, .hello hello ∈ ws → (t.phase = .helloWait → t.dialedScope = some hello.scope) ∧
    ∀ peer, t.phase.hello = some peer → peer.scope = hello.scope

/-- A move within the handshake or one registration, with no HELLO written. -/
theorem Voiced.move {t t' : ConnTask P} {ws ws' : List (Frame P)} (h : Voiced t ws)
    (hw : t'.phase ≠ .helloWait)
    (hh : ∀ peer, t'.phase.hello = some peer → t.phase.hello = some peer)
    (hws : ∀ hello, .hello hello ∈ ws' → .hello hello ∈ ws) : Voiced t' ws' := by
  intro hello hmem
  refine ⟨fun hp => absurd hp hw, fun peer hp => ?_⟩
  exact (h hello (hws hello hmem)).2 peer (hh peer hp)

/-- A phase that has heard no HELLO, after the own one was written. -/
theorem Voiced.unheard {t : ConnTask P} {ws : List (Frame P)} (hw : t.phase ≠ .helloWait)
    (hh : t.phase.hello = none) : Voiced t ws := by
  intro hello hmem
  refine ⟨fun hp => absurd hp hw, fun peer hp => ?_⟩
  rw [hh] at hp
  cases hp

/-- A phase that has heard a HELLO of the scope of the own one. -/
theorem Voiced.agreed {t : ConnTask P} {ws : List (Frame P)} {peer : Hello}
    (hw : t.phase ≠ .helloWait) (hh : t.phase.hello = some peer)
    (hscope : ∀ hello, .hello hello ∈ ws → peer.scope = hello.scope) : Voiced t ws := by
  intro hello hmem
  refine ⟨fun hp => absurd hp hw, fun peer' hp => ?_⟩
  obtain rfl := Option.some.inj (hh.symm.trans hp)
  exact hscope hello hmem

theorem Voiced.local {device : DeviceInfo} {t t' : ConnTask P} {act : ConnTask.Act P}
    {ws : List (Frame P)} (h : Voiced t ws) (hsp : Spoken device t ws)
    (hs : t.Local device act t') : Voiced t' (ws ++ act.sends.toList) := by
  -- Only the handshake writes a HELLO.
  have unsaid (hact : ∀ hello, act ≠ .sendHello hello)
      (hstart : ∀ f, act = .startSend (some f) → f.isHello = false) (hello : Hello)
      (hmem : .hello hello ∈ ws ++ act.sends.toList) : .hello hello ∈ ws := by
    obtain hmem | hmem := List.mem_append.mp hmem
    · exact hmem
    · cases act <;> simp_all [ConnTask.Act.sends]
  cases hs with
  | activity => simpa [ConnTask.Act.sends] using h
  | @helloSent scope hp hd =>
    obtain rfl : ws = [] := by simpa [Said, hp] using hsp.said
    intro hello hmem
    obtain rfl : hello = ConnTask.helloFrame device scope := by
      simpa [ConnTask.Act.sends] using hmem
    refine ⟨fun _ => hd, fun peer hh => ?_⟩
    cases hh
  | @helloEchoed peer hp =>
    obtain rfl : ws = [] := by simpa [Said, hp] using hsp.said
    obtain ⟨-, hph⟩ | hph := ConnTask.validate_cases (P := P) device t.dialedScope peer
    · rw [hph]
      refine .agreed (by simp) rfl fun hello hmem => ?_
      obtain rfl : hello = ConnTask.helloFrame device peer.scope := by
        simpa [ConnTask.Act.sends] using hmem
      rfl
    · rw [hph]
      exact .unheard (by simp) rfl
  | @helloAnswered peer hp hd =>
    obtain ⟨hv, hph⟩ | hph := ConnTask.validate_cases (P := P) device t.dialedScope peer
    · rw [hph]
      refine .agreed (by simp) rfl fun hello hmem => ?_
      have hscope := (h hello (by simpa [ConnTask.Act.sends] using hmem)).1 hp
      have : hello.scope = peer.scope := by
        simpa [ConnTask.validatePeer, hscope] using (Bool.and_eq_true_iff.mp hv).2
      exact this.symm
    · rw [hph]
      exact .unheard (by simp) rfl
  | helloArrived hp hd =>
    obtain rfl : ws = [] := by simpa [Said, hp, hd] using hsp.said
    simp [Voiced, ConnTask.Act.sends]
  | helloFailed | notHello | abortClosed | returned =>
    exact .unheard (by simp) rfl
  | abort => exact .unheard (by simp) rfl
  | leave hp hsend =>
    refine h.move (by simp [ConnTask.breakLoop]) (fun peer hh => ?_) fun hello hmem => ?_
    · obtain hp | ⟨_, hp | hp⟩ := hp <;>
        simpa [hp, Phase.hello, Phase.registered, ConnTask.breakLoop] using hh
    · simpa [hsend] using hmem
  | @startSend r b f hp =>
    refine h.move (by simp) (by simp [hp, Phase.hello, Phase.registered]) ?_
    refine unsaid (by simp) fun g hg => ?_
    cases hg
    exact hsp.frame g (by simp [hp, Phase.frame])
  | step1Sent hp | step1Failed hp | ping hp | dequeue hp | recvFrame hp | allowed hp | sent hp
  | closed hp =>
    exact h.move (by simp) (by simp [hp, Phase.hello, Phase.registered]) (unsaid (by simp) (by simp))

section Runs

variable [Yrs D P] [DecidableEq P] {m m' : Manager D P} {a : Action P}

theorem Voiced.step {device : DeviceInfo} {e : EndId} {ws : List (Frame P)}
    (hdev : m.device = device) (hnone : m.conns e = none → ws = [])
    (hsp : ∀ t, m.conns e = some t → Spoken device t ws)
    (h : ∀ t, m.conns e = some t → Voiced t ws) (hs : m.Step a m') {t' : ConnTask P}
    (ht' : m'.conns e = some t') : Voiced t' (ws ++ (a.sends e).toList) := by
  subst hdev
  have hstep := hs.connStep e
  rw [ht'] at hstep
  generalize hm : m.conns e = o at hstep
  cases hstep with
  | idle hsilent => simpa [hsilent.1] using h _ hm
  | hungUp | queued => simpa [Action.sends, Voiced] using h _ hm
  | accepted | dialed => simp [hnone hm, Voiced, Action.sends]
  | moved hc hl => simpa [Action.sends] using (h _ hm).local (hsp _ hm) hl
  | fetched hp =>
    exact (h _ hm).move (by simp) (by simp [hp, Phase.hello]) (by simp [Action.sends])
  | refused | finished => exact .unheard (by simp) rfl
  | entered hp | step1 hp | rejected hp | unannounced hp =>
    exact (h _ hm).move (by simp [ConnTask.breakLoop])
      (by simp [hp, Phase.hello, Phase.registered, ConnTask.breakLoop]) (by simp [Action.sends])
  | @announced t r reply c hp =>
    refine (h _ hm).move ?_ ?_ (by simp [Action.sends]) <;> cases reply <;>
      simp [hp, Phase.hello, Phase.registered, ConnTask.replyOrSelect]
  | @handled t r b payload m₁ reply hp hh =>
    clear hh
    refine (h _ hm).move ?_ ?_ (by simp [Action.sends]) <;> cases b <;> cases reply <;>
      simp [hp, Phase.hello, Phase.registered, ConnTask.replyOrSelect]

variable {device : DeviceInfo} {τ : History D P}

theorem Reachable.targetsScoped (h : (system D P device).Reachable m) : m.TargetsScoped := by
  refine h.invariant (I := TargetsScoped) ?_ fun m a m' _ hI hs => hI.step (step_cases hs)
  rintro m ⟨trust, rooms, rfl⟩ i f target hf ht
  obtain ⟨s, d, rfl⟩ := (new_fans device trust rooms).spawned i f hf
  cases ht

theorem Run.voiced (h : (system D P device).Run τ m) {e : EndId} {t : ConnTask P}
    (ht : m.conns e = some t) : Voiced t (written e τ) := by
  refine h.history (I := fun τ m => ∀ t, m.conns e = some t → Voiced t (written e τ)) ?_
    (fun τ m a m' hr hI hs t' ht' => ?_) t ht
  · rintro m ⟨trust, rooms, rfl⟩ t ht
    simp [(new_bare device trust rooms).conns] at ht
  · obtain ⟨hnone, hsp⟩ := Run.spoken hr e
    rw [written_concat]
    exact Voiced.step (Reachable.device_eq hr.reachable) hnone hsp hI (step_cases hs) ht'

/-- A registered connection is of the scope of the HELLO we wrote on it. -/
theorem Run.own_scope (h : (system D P device).Run τ m) {e : EndId} {r : Registered}
    (hr : m.registered e = some r) {hello : Hello} (hh : .hello hello ∈ written e τ) :
    r.peer.scope = hello.scope := by
  obtain ⟨t, ht, hph⟩ := Option.bind_eq_some_iff.mp hr
  refine (Run.voiced h ht hello hh).2 r.peer ?_
  cases hp : t.phase <;> simp_all [Phase.hello, Phase.registered]

end Runs

end Manager

end Yoink
