import Yoink.Sync.FanOuts
import Yoink.Sync.Handshake

/-!
# Where the frames of a connection come from

Whatever a registered connection holds to write, or has written, its document holds
(`Sourced`): a reply is taken from that document, and so is what its scope's fan-out hands it.
A fan-out that lost its handle may still work on the document of before, so that is asked
for (`PushesKnown`).
-/

namespace Yoink

variable {D P X : Type}

/-- A task holds `f` to be written. -/
def ConnTask.Holds (t : ConnTask P) (f : Frame P) : Prop :=
  t.phase.frame = some f ∨ f ∈ t.outbound

/-- What a task holds or starts to write after a local step, it held before, or it is its HELLO. -/
theorem ConnTask.Local.holds {device : DeviceInfo} {act : ConnTask.Act P} {t t' : ConnTask P}
    (h : t.Local device act t') {f : Frame P} (hf : t'.Holds f ∨ act.sends = some f) :
    t.Holds f ∨ f.isHello = true := by
  cases h with
  | activity => exact .inl (hf.resolve_right nofun)
  | helloSent | helloEchoed =>
    obtain (hf | hf) | hf := hf
    · first
        | cases hf
        | obtain ⟨-, hph⟩ | hph := validate_cases (P := P) device t.dialedScope ‹Hello› <;>
            simp [hph, Phase.frame] at hf
    · exact .inl (.inr hf)
    · cases hf
      exact .inr rfl
  | helloAnswered =>
    obtain (hf | hf) | hf := hf
    · obtain ⟨-, hph⟩ | hph := validate_cases (P := P) device t.dialedScope ‹Hello› <;>
        simp [hph, Phase.frame] at hf
    · exact .inl (.inr hf)
    · cases hf
  | abort _ hs | leave _ hs =>
    obtain (hf | hf) | hf := hf
    · cases hf
    · exact .inl (.inr hf)
    · rw [hs] at hf
      cases hf
  | dequeue hp hq =>
    obtain (hf | hf) | hf := hf
    · cases hf
      exact .inl (.inr (by simp [hq]))
    · exact .inl (.inr (by simp [hq, show f ∈ _ from hf]))
    · cases hf
  | allowed hp =>
    obtain (hf | hf) | hf := hf
    · exact .inl (.inl (by simpa [hp, Phase.frame] using hf))
    · exact .inl (.inr hf)
    · cases hf
  | startSend hp =>
    obtain (hf | hf) | hf := hf
    · exact .inl (.inl (by simpa [hp, Phase.frame] using hf))
    · exact .inl (.inr hf)
    · exact .inl (.inl (by simpa [hp, Phase.frame, Act.sends] using hf))
  | _ =>
    obtain (hf | hf) | hf := hf
    · cases hf
    · exact .inl (.inr hf)
    · cases hf

namespace Manager

variable [Yrs D P] [MergeSets D X] {m m' : Manager D P} {a : Action P}

/-- A fan-out whose handle is gone hands a connection only what its document has anyway. -/
def PushesKnown (m : Manager D P) (a : Action P) : Prop :=
  ∀ i f frame target rest lag r, a = .fanPush i → m.fans i = some f →
    f.phase = .push frame (target :: rest) lag → (∀ s, m.state.fanOuts.lookup s ≠ some i) →
    m.registered target.2.task = some r → frame.brings D ⊆ m.contents r.doc

/-- What the connection on `e` holds to write and what it has written, `ws`, its document
holds, and its SYNC_STEP_1 asked for no less. -/
structure Sourced (m : Manager D P) (e : EndId) (ws : List (Frame P)) : Prop where
  held : ∀ t r f, m.conns e = some t → t.phase.registered = some r → t.Holds f →
    f.brings D ⊆ m.contents r.doc
  written : ∀ r, m.registered e = some r → ∀ f ∈ ws, f.brings D ⊆ m.contents r.doc
  asked : ∀ r hello sv rest, m.registered e = some r → ws = hello :: .syncStep1 sv :: rest →
    MergeSets.known D sv ⊆ m.contents r.doc

theorem handleFrame_brings {doc : DocId} {peerId : DeviceId} {payload : Option (Frame P)}
    {f : Frame P} (h : m.handleFrame doc peerId payload = some (m', some f)) :
    f.brings D ⊆ m.contents doc := by
  unfold handleFrame at h
  split at h
  · cases h
  · obtain ⟨diff, hd, h⟩ := Option.map_eq_some_iff.mp h
    cases h
    rw [Frame.brings_of_content rfl, MergeSets.carried_diff hd]
    exact Set.sdiff_subset
  · obtain ⟨_, -, h⟩ := Option.map_eq_some_iff.mp h
    cases h
  · obtain ⟨_, -, h⟩ := Option.map_eq_some_iff.mp h
    cases h
  · cases h

theorem brings_of_isHello {f : Frame P} (h : f.isHello = true) : f.brings D = (∅ : Set X) := by
  cases f with
  | hello => exact Frame.brings_of_not_content rfl
  | _ => cases h

/-- A connection is handed what its document holds. -/
theorem Served.brings (h : m.Served) (hb : m.FansBacked) (hk : m.PushesKnown a) {i : TaskId}
    {f : FanOut P} {frame : Frame P} {target : ConnKey × ConnectionHandle}
    {rest : List (ConnKey × ConnectionHandle)} {lag : Bool} {r : Registered} (ha : a = .fanPush i)
    (hf : m.fans i = some f) (hp : f.phase = .push frame (target :: rest) lag)
    (hr : m.registered target.2.task = some r) : frame.brings D ⊆ m.contents r.doc := by
  by_cases hl : ∃ s, m.state.fanOuts.lookup s = some i
  · obtain ⟨s, hl⟩ := hl
    rw [h s i f target r hl hf (by simp [hp, FanPhase.targets]) hr]
    exact (hb i f hf).frame frame (by simp [hp, FanPhase.frame])
  · exact hk i f frame target rest lag r ha hf hp (fun s hs => hl ⟨s, hs⟩) hr

/-- The facts about a run that decide where frames come from. -/
structure Sources (m : Manager D P) : Prop where
  named : ∃ σ, m.Named σ
  served : m.Served
  backed : m.FansBacked
  unqueued : ∀ e t, m.conns e = some t → t.phase.pending = true → t.outbound = []

variable [DecidableEq P]

/-- Where a frame comes from that a registered task holds, or starts to write. -/
inductive HeldFrom (m : Manager D P) (e : EndId) (r : Registered) (f : Frame P) :
    Action P → Prop where
  /-- It was held before the step. -/
  | kept {a : Action P} {t : ConnTask P} (ht : m.conns e = some t)
      (hr : t.phase.registered = some r) (hf : t.Holds f) : HeldFrom m e r f a
  /-- It brings nothing: a HELLO or a SYNC_STEP_1. -/
  | plain {a : Action P} (hf : f.content = none) : HeldFrom m e r f a
  | queued {i : TaskId} {fan : FanOut P} {target : ConnKey × ConnectionHandle}
      {rest : List (ConnKey × ConnectionHandle)} {lag : Bool} (hfan : m.fans i = some fan)
      (hp : fan.phase = .push f (target :: rest) lag) (ht : target.2.task = e)
      (hr : m.registered e = some r) : HeldFrom m e r f (.fanPush i)
  | replied {t : ConnTask P} {b : Bool} {payload : Option (Frame P)} {m₁ : Manager D P}
      (ht : m.conns e = some t) (hp : t.phase = .received r b payload)
      (hh : m.handleFrame r.doc r.peer.deviceId payload = some (m₁, some f)) :
      HeldFrom m e r f (.handleFrame e)

omit [MergeSets D X] in
theorem Step.held_from (hs : m.Step a m') {e : EndId}
    (hunq : ∀ t, m.conns e = some t → t.phase.pending = true → t.outbound = [])
    {t' : ConnTask P} (ht' : m'.conns e = some t') {r : Registered}
    (hr' : t'.phase.registered = some r) {f : Frame P} (hf : t'.Holds f ∨ a.sends e = some f) :
    m.HeldFrom e r f a := by
  have hstep := hs.connStep e
  rw [ht'] at hstep
  generalize hm : m.conns e = o at hstep
  cases hstep with
  | idle hsilent => exact .kept hm hr' (hf.resolve_right (by simp [hsilent.1]))
  | accepted | dialed | fetched | refused | finished => cases hr'
  | hungUp => exact .kept hm hr' (hf.resolve_right nofun)
  | @queued i fan frame target rest lag t hfan hp htask =>
    obtain (hf | hf) | hf := hf
    · exact .kept hm hr' (.inl hf)
    · obtain hf | hf := List.mem_append.mp hf
      · exact .kept hm hr' (.inr hf)
      · obtain rfl := List.mem_singleton.mp hf
        refine .queued hfan hp htask ?_
        rw [registered, hm]
        exact hr'
    · cases hf
  | @moved act t _ hc hl =>
    obtain hf | hf := hl.holds (hf.imp id fun hf => by simpa [Action.sends] using hf)
    · exact .kept hm (hl.registered ▸ hr') hf
    · refine .plain ?_
      cases f with
      | hello => rfl
      | _ => cases hf
  | @entered t peer doc g hp =>
    obtain (hf | hf) | hf := hf
    · cases hf
    · rw [hunq t hm (by simp [hp, Phase.pending])] at hf
      cases hf
    · cases hf
  | @step1 t r₀ hp =>
    obtain (hf | hf) | hf := hf
    · cases hf
    · exact .kept hm (by simpa [hp, Phase.registered] using hr') (.inr hf)
    · have : f = .syncStep1 (Yrs.stateVector (m.docs.heap r₀.doc)) := by
        simpa [Action.sends, eq_comm] using hf
      exact .plain (by rw [this]; rfl)
  | @handled t r₀ b payload m₁ reply hp hh =>
    obtain rfl : r₀ = r := by
      clear hh
      cases b <;> cases reply <;> simpa [Phase.registered, ConnTask.replyOrSelect] using hr'
    obtain (hf | hf) | hf := hf
    · obtain rfl : reply = some f := by
        clear hh
        cases b <;> cases reply <;> simp_all [Phase.frame, ConnTask.replyOrSelect]
      exact .replied hm hp hh
    · exact .kept hm (by simp [hp, Phase.registered]) (.inr hf)
    · cases hf
  | @announced t r₀ reply c hp =>
    have hr : t.phase.registered = some r := by
      cases reply <;> simpa [hp, Phase.registered, ConnTask.replyOrSelect] using hr'
    obtain (hf | hf) | hf := hf
    · refine .kept hm hr (.inl ?_)
      cases reply <;> simp_all [Phase.frame, ConnTask.replyOrSelect]
    · exact .kept hm hr (.inr hf)
    · cases hf
  | rejected hp | unannounced hp =>
    obtain (hf | hf) | hf := hf
    · cases hf
    · exact .kept hm (by simpa [hp, Phase.registered, ConnTask.breakLoop] using hr') (.inr hf)
    · cases hf

theorem Sourced.step_holds {e : EndId} {ws : List (Frame P)} (h : m.Sourced e ws)
    (hsrc : m.Sources) (hk : m.PushesKnown a) (hs : m.Step a m') {t' : ConnTask P}
    (ht' : m'.conns e = some t') {r : Registered} (hr' : t'.phase.registered = some r)
    {f : Frame P} (hf : t'.Holds f ∨ a.sends e = some f) : f.brings D ⊆ m'.contents r.doc := by
  obtain ⟨σ, hσ⟩ := hsrc.named
  have hgrow {t : ConnTask P} (ht : m.conns e = some t) (hr : t.phase.registered = some r) :
      m.contents r.doc ⊆ m'.contents r.doc :=
    hs.contents_mono
      (hσ.conn e r.peer.scope r.doc (by simp [ht, Phase.doc_of_registered hr])).1
  cases hs.held_from (hsrc.unqueued e) ht' hr' hf with
  | kept ht hr hf => exact (h.held _ r f ht hr hf).trans (hgrow ht hr)
  | plain hf =>
    rw [Frame.brings_of_not_content hf]
    exact Set.empty_subset _
  | queued hfan hp htask hr =>
    subst htask
    obtain ⟨t, ht, hph⟩ := Option.bind_eq_some_iff.mp hr
    exact (hsrc.served.brings hsrc.backed hk rfl hfan hp hr).trans (hgrow ht hph)
  | replied ht hp hh =>
    exact (handleFrame_brings hh).trans (hgrow ht (by simp [hp, Phase.registered]))

/-- Who has written two frames is past registration, and the second was his SYNC_STEP_1. -/
theorem Step.asked (hs : m.Step a m') {device : DeviceInfo} {e : EndId} {ws : List (Frame P)}
    (hnone : m.conns e = none → ws = []) (hsp : ∀ t, m.conns e = some t → Spoken device t ws)
    {hello : Frame P} {sv : P} {rest : List (Frame P)}
    (hw : ws ++ (a.sends e).toList = hello :: .syncStep1 sv :: rest) :
    (∃ rest', ws = hello :: .syncStep1 sv :: rest') ∨
      ∃ t r, a = .sendStep1 e sv ∧ m.conns e = some t ∧ t.phase = .ready r ∧
        sv = Yrs.stateVector (m.docs.heap r.doc) := by
  cases hm : m.conns e with
  | none =>
    rw [hnone hm] at hw
    cases hsend : a.sends e <;> simp [hsend] at hw
  | some t =>
    obtain rfl | ⟨scope, rfl⟩ | ⟨scope, sv', rest', rfl, -⟩ := (hsp t hm).said.any
    · cases hsend : a.sends e <;> simp [hsend] at hw
    · have hsend : a.sends e = some (.syncStep1 sv) := by
        cases hsend : a.sends e <;> simp_all
      obtain rfl | ⟨sv', rfl, h⟩ := Action.sends_cases hsend rfl
      · -- The frame loop is entered with two frames written.
        obtain ⟨t₁, t', ht, -, hl, -⟩ := hs.of_conn
        obtain rfl : t = t₁ := Option.some.inj (hm.symm.trans ht)
        cases hl with
        | leave _ h => cases h
        | abort _ h => cases h
        | startSend hp =>
          obtain ⟨_, _, _, h, -⟩ : Streaming device _ := by simpa [Said, hp] using (hsp t hm).said
          simp at h
      · cases h
        obtain ⟨t₁, r, ht, -, hp, rfl, -⟩ := hs.of_sendStep1
        obtain rfl : t = t₁ := Option.some.inj (hm.symm.trans ht)
        exact .inr ⟨t, r, rfl, rfl, hp, rfl⟩
    · refine .inl ⟨rest', ?_⟩
      simp only [List.cons_append, List.cons.injEq, Frame.syncStep1.injEq] at hw
      obtain ⟨rfl, rfl, -⟩ := hw
      rfl

theorem Sourced.step {device : DeviceInfo} {e : EndId} {ws : List (Frame P)}
    (h : m.Sourced e ws) (hsrc : m.Sources) (hk : m.PushesKnown a)
    (hnone : m.conns e = none → ws = []) (hsp : ∀ t, m.conns e = some t → Spoken device t ws)
    (hs : m.Step a m') : m'.Sourced e (ws ++ (a.sends e).toList) := by
  obtain ⟨σ, hσ⟩ := hsrc.named
  have hgrow {r : Registered} (hr : m.registered e = some r) :
      m.contents r.doc ⊆ m'.contents r.doc := by
    obtain ⟨t, ht, hph⟩ := Option.bind_eq_some_iff.mp hr
    exact hs.contents_mono
      (hσ.conn e r.peer.scope r.doc (by simp [ht, Phase.doc_of_registered hph])).1
  -- Before registration nothing but the HELLO was written.
  have hentered {t : ConnTask P} {r : Registered} (ht : m.conns e = some t)
      (hp : t.phase = .fetched r.peer (some r.doc) r.generation) : Greeted device ws := by
    simpa [Said, hp] using (hsp t ht).said
  refine ⟨fun t' r f ht' hr' hf => h.step_holds hsrc hk hs ht' hr' (.inl hf),
    fun r hr f hf => ?_, fun r hello sv rest hr hw => ?_⟩
  · obtain hf | hf := List.mem_append.mp hf
    · obtain hr₀ | ⟨-, -, t, ht, hp⟩ := (hs.connStep e).entering hr
      · exact (h.written r hr₀ f hf).trans (hgrow hr₀)
      · obtain ⟨scope, rfl⟩ := hentered ht hp
        obtain rfl := List.mem_singleton.mp hf
        rw [brings_of_isHello rfl]
        exact Set.empty_subset _
    · obtain ⟨t', ht', hr'⟩ := Option.bind_eq_some_iff.mp hr
      exact h.step_holds hsrc hk hs ht' hr' (.inr (by simpa [eq_comm] using hf))
  · obtain ⟨rest', rfl⟩ | ⟨t, r₀, rfl, ht, hp, rfl⟩ := hs.asked hnone hsp hw
    · obtain hr₀ | ⟨-, -, t, ht, hp⟩ := (hs.connStep e).entering hr
      · exact (h.asked r hello sv rest' hr₀ rfl).trans (hgrow hr₀)
      · obtain ⟨_, hg⟩ := hentered ht hp
        cases hg
    · obtain hr₀ | ⟨hact, -⟩ := (hs.connStep e).entering hr
      · obtain rfl : r₀ = r := by
          simpa [ht, hp, Phase.registered] using hr₀
        rw [MergeSets.known_stateVector]
        exact hgrow hr₀
      · cases hact

/-- The runs in which nothing is pushed that its target's document may lack. -/
def servingSystem (D P : Type) {X : Type} [Yrs D P] [MergeSets D X] [DecidableEq P]
    (device : DeviceInfo) : System (Manager D P) (Action P) :=
  (currentSystem D P device).restrict fun m a _ => m.PushesKnown a

theorem Reachable.sources {device : DeviceInfo} (h : (currentSystem D P device).Reachable m) :
    m.Sources := by
  have hsys : (system D P device).Reachable m := h.of_restrict.of_restrict
  exact ⟨Reachable.named hsys, Reachable.served h, Reachable.fansBacked hsys,
    fun _ _ => Reachable.unqueued hsys⟩

theorem Run.sourced {device : DeviceInfo} {τ : History D P}
    (h : (servingSystem D P device).Run τ m) (e : EndId) : m.Sourced e (written e τ) := by
  refine System.Run.history (S := servingSystem D P device)
    (I := fun τ m => m.Sourced e (written e τ)) ?_ (fun τ m a m' hr hI hs => ?_) h
  · rintro m ⟨trust, rooms, rfl⟩
    have hc := (new_bare (D := D) (P := P) device trust rooms).conns
    refine ⟨fun t r f ht => ?_, fun r hr => ?_, fun r hello sv rest hr => ?_⟩
    · simp [hc] at ht
    · simp [registered, hc] at hr
    · simp [registered, hc] at hr
  · have hsys : (system D P device).Run τ m := hr.of_restrict.of_restrict.of_restrict
    have hspoken := Run.spoken hsys e
    rw [written_concat]
    exact hI.step (Reachable.sources hr.of_restrict.reachable) hs.2 hspoken.1 hspoken.2
      (step_cases hs.1.1.1)

end Manager

end Yoink
