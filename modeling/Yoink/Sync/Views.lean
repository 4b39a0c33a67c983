import Yoink.Sync.Effects

/-!
# Steps as one task and as the registry sees them

A step moves one task and leaves the others at their phases. `ConnStep` says what a step
may do to one given connection task, `TableStep` what it may do to the connection table
and to the hangups and events owed for it, and `DialStep` the same for the dialers.
-/

namespace Yoink

variable {D P : Type}

namespace Manager

/-- The registered connection the task of `e` drives, if it is at such a phase. -/
def registered (m : Manager D P) (e : EndId) : Option Registered :=
  (m.conns e).bind (·.phase.registered)

/-- Whether the hangup of `e` was signalled. -/
def hungUp (m : Manager D P) (e : EndId) : Bool := (m.conns e).any (·.hangup)

/-- Some thread still has `c` to do. -/
def owes (m : Manager D P) (c : Call) : Prop := ∃ t, c ∈ m.calls t

variable [Yrs D P] [DecidableEq P]

/-- What a step may do to the task of connection `e`. -/
inductive ConnStep (m : Manager D P) (e : EndId) :
    Action P → Option (ConnTask P) → Option (ConnTask P) → Prop where
  | idle {a : Action P} {o : Option (ConnTask P)} (hs : a.Silent e) : ConnStep m e a o o
  | hungUp {i : ThreadId} {cs : List Call} {t : ConnTask P} (hc : m.calls i = .hangup e :: cs) :
      ConnStep m e (.call i) (some t) (some { t with hangup := true })
  | queued {i : TaskId} {f : FanOut P} {frame : Frame P} {target : ConnKey × ConnectionHandle}
      {rest : List (ConnKey × ConnectionHandle)} {lag : Bool} {t : ConnTask P}
      (hf : m.fans i = some f) (hp : f.phase = .push frame (target :: rest) lag)
      (ht : target.2.task = e) (hr : t.rxOpen = true) (hl : t.outbound.length < outboundQueue) :
      ConnStep m e (.fanPush i) (some t) (some { t with outbound := t.outbound ++ [frame] })
  | accepted (hd : e.dialed = false) :
      ConnStep m e (.handleInbound e) none (some .inbound)
  | dialed {i : TaskId} {l : DialLoop} (hl : m.loops i = some l) (hp : l.phase = .connecting)
      (hd : e.dialed = true) :
      ConnStep m e (.connected i e) none (some (.dialed l.scope l.generation))
  | moved {act : ConnTask.Act P} {t t' : ConnTask P} (hc : m.calls (.conn e) = [])
      (hs : t.Local m.device act t') : ConnStep m e (.conn e act) (some t) (some t')
  | fetched {t : ConnTask P} {peer : Hello} (hp : t.phase = .validated peer) :
      ConnStep m e (.fetchDoc e) (some t)
        (some { t with phase := .fetched peer (m.docs.get peer.scope) m.generation })
  | refused {t : ConnTask P} {peer : Hello} {doc : Option DocId} {g : Nat}
      (hp : t.phase = .fetched peer doc g) :
      ConnStep m e (.register e) (some t) (some { t with phase := .aborting })
  | entered {t : ConnTask P} {peer : Hello} {doc : DocId} {g : Nat}
      (hp : t.phase = .fetched peer (some doc) g) (ha : m.state.accepts peer.key) :
      ConnStep m e (.register e) (some t) (some { t with phase := .ready ⟨peer, doc, g⟩ })
  | step1 {t : ConnTask P} {r : Registered} (hp : t.phase = .ready r)
      (hc : m.calls (.conn e) = []) :
      ConnStep m e (.sendStep1 e (Yrs.stateVector (m.docs.heap r.doc))) (some t)
        (some { t with phase := .step1Sending r })
  | handled {t : ConnTask P} {r : Registered} {a : Bool} {payload : Option (Frame P)}
      {m' : Manager D P} {reply : Option (Frame P)} (hp : t.phase = .received r a payload)
      (hf : m.handleFrame r.doc r.peer.deviceId payload = some (m', reply)) :
      ConnStep m e (.handleFrame e) (some t) (some { t with
        phase := if a then ConnTask.replyOrSelect r reply else .handled r reply })
  | rejected {t : ConnTask P} {r : Registered} {a : Bool} {payload : Option (Frame P)}
      (hp : t.phase = .received r a payload) :
      ConnStep m e (.handleFrame e) (some t) (some (t.breakLoop r a))
  | announced {t : ConnTask P} {r : Registered} {reply : Option (Frame P)}
      {c : ConnectionHandle} (hp : t.phase = .handled r reply)
      (hl : m.state.connections.lookup r.key = some c) (hg : c.generation = r.generation) :
      ConnStep m e (.tryAnnounce e) (some t)
        (some { t with phase := ConnTask.replyOrSelect r reply })
  | unannounced {t : ConnTask P} {r : Registered} {reply : Option (Frame P)}
      (hp : t.phase = .handled r reply) (hi : m.state.identifies r.key r.generation = false) :
      ConnStep m e (.tryAnnounce e) (some t) (some (t.breakLoop r false))
  | finished {t : ConnTask P} {r : Registered} {a : Bool} (hp : t.phase = .finishing r a) :
      ConnStep m e (.finishConnection e) (some t) (some { t with phase := .finished a })

omit [DecidableEq P] in
/-- Setting the task of one end: a step of that end, and nothing to the others. -/
theorem ConnStep.of_update {m : Manager D P} {e e₀ : EndId} {a : Action P} {t : ConnTask P}
    {o : Option (ConnTask P)} (hs : e ≠ e₀ → a.Silent e) (hm : m.conns e₀ = o)
    (h : m.ConnStep e₀ a o (some t)) :
    m.ConnStep e a (m.conns e) (Function.update m.conns e₀ (some t) e) := by
  by_cases he : e = e₀
  · subst he
    simpa [hm] using h
  · rw [Function.update_of_ne he]
    exact .idle (hs he)

theorem Step.connStep {m m' : Manager D P} {a : Action P} (h : m.Step a m') (e : EndId) :
    m.ConnStep e a (m.conns e) (m'.conns e) := by
  cases h with
  | call hc =>
    rename_i t c cs
    simp only [setCalls_conns, perform_conns]
    cases he : m.conns e with
    | none => exact .idle ⟨rfl, rfl⟩
    | some t =>
      by_cases hh : c = .hangup e
      · subst hh
        simpa using ConnStep.hungUp hc
      · simpa [hh] using ConnStep.idle ⟨rfl, rfl⟩
  | handleInbound hd hn => exact .of_update (fun _ => ⟨rfl, rfl⟩) hn (.accepted hd)
  | conn ht hc hs =>
    exact .of_update (fun he => by simp [Action.Silent, Action.sends, Action.reads, he.symm]) ht
      (.moved hc hs)
  | fetchDoc ht hc hp => exact .of_update (fun _ => ⟨rfl, rfl⟩) ht (.fetched hp)
  | register ht hc hp =>
    rename_i e₀ t peer doc g
    obtain h | ⟨d, rfl, ha, h⟩ := m.register_cases e₀ t peer doc g
    · rw [h]
      exact .of_update (fun _ => ⟨rfl, rfl⟩) ht (.refused hp)
    · rw [h]
      exact .of_update (fun _ => ⟨rfl, rfl⟩) ht (.entered hp ha)
  | sendStep1 ht hc hp =>
    exact .of_update (fun he => by simp [Action.Silent, Action.sends, Action.reads, he.symm]) ht
      (.step1 hp hc)
  | handleFrame ht hc hp =>
    rename_i e₀ t r a payload
    obtain ⟨-, h⟩ | ⟨m₁, reply, hf, h⟩ := m.handle_cases e₀ t r a payload
    · rw [h]
      exact .of_update (fun _ => ⟨rfl, rfl⟩) ht (.rejected hp)
    · obtain ⟨docs, fans, rfl⟩ := handleFrame_eq hf
      rw [h]
      exact .of_update (fun _ => ⟨rfl, rfl⟩) ht (.handled hp hf)
  | tryAnnounce ht hc hp =>
    rename_i e₀ t r reply
    obtain ⟨hi, h⟩ | ⟨c, hl, hg, h⟩ := m.announce_cases e₀ t r reply
    · rw [h]
      exact .of_update (fun _ => ⟨rfl, rfl⟩) ht (.unannounced hp hi)
    · rw [h]
      exact .of_update (fun _ => ⟨rfl, rfl⟩) ht (.announced hp hl hg)
  | finishConnection ht hc hp => exact .of_update (fun _ => ⟨rfl, rfl⟩) ht (.finished hp)
  | connected hl hp hd hn => exact .of_update (fun _ => ⟨rfl, rfl⟩) hn (.dialed hl hp hd)
  | fanPush hf hp hc =>
    rename_i i f frame target rest lag
    obtain h | ⟨t, ht, hr, hlt, h⟩ | ⟨t, -, -, h⟩ := m.trySend_cases i frame target
    · rw [h]; exact .idle ⟨rfl, rfl⟩
    · rw [h]
      exact .of_update (fun _ => ⟨rfl, rfl⟩) ht (.queued hf hp rfl hr hlt)
    · rw [h]; exact .idle ⟨rfl, rfl⟩
  | dial hl hs => cases hs <;> exact .idle ⟨rfl, rfl⟩
  | fan hf hs => cases hs <;> exact .idle ⟨rfl, rfl⟩
  | _ => exact .idle ⟨rfl, rfl⟩

/-- Where the task of an end comes from. -/
theorem Step.conns_new {m m' : Manager D P} {a : Action P} (h : m.Step a m') {e : EndId}
    (he : m.conns e = none) (he' : m'.conns e ≠ none) :
    a = .handleInbound e ∨ ∃ l, a = .connected l e := by
  have hc := h.connStep e
  rw [he] at hc
  generalize m'.conns e = o at hc he'
  cases hc with
  | idle => exact absurd rfl he'
  | accepted => exact .inl rfl
  | dialed => exact .inr ⟨_, rfl⟩

/-- A transaction: the document it changes, what that document is afterwards, and the update
event. -/
structure Commit (D P : Type) where
  doc : DocId
  result : D
  update : Option P
  origin : Option DeviceId

/-- The transaction an action commits. -/
def commits (m : Manager D P) : Action P → Option (Commit D P)
  | .call t =>
    match m.calls t with
    | .addEntry scope entry :: _ => (m.docs.get scope).map fun doc =>
      ⟨doc, (Yrs.addEntry (m.docs.heap doc) entry).1,
        some (Yrs.addEntry (m.docs.heap doc) entry).2, none⟩
    | _ => none
  | .handleFrame e =>
    match (m.conns e).map ConnTask.phase with
    | some (.received r _ (some f)) => (f.content.bind (Yrs.applyUpdate (m.docs.heap r.doc))).map
      fun p => ⟨r.doc, p.1, p.2, some r.peer.deviceId⟩
    | _ => none
  | _ => none

omit [DecidableEq P] in
/-- A transaction adds an entry, or applies the frame its connection received. -/
theorem commits_cases {m : Manager D P} {a : Action P} {c : Commit D P}
    (h : m.commits a = some c) :
    (∃ t s entry cs doc, a = .call t ∧ m.calls t = .addEntry s entry :: cs ∧
      m.docs.get s = some doc ∧ c = ⟨doc, (Yrs.addEntry (m.docs.heap doc) entry).1,
        some (Yrs.addEntry (m.docs.heap doc) entry).2, none⟩) ∨
    ∃ e t r b f u d ev, a = .handleFrame e ∧ m.conns e = some t ∧
      t.phase = .received r b (some f) ∧ f.content = some u ∧
      Yrs.applyUpdate (m.docs.heap r.doc) u = some (d, ev) ∧
      c = ⟨r.doc, d, ev, some r.peer.deviceId⟩ := by
  cases a with
  | call t =>
    simp only [commits] at h
    split at h
    · obtain ⟨doc, hg, rfl⟩ := Option.map_eq_some_iff.mp h
      exact .inl ⟨t, _, _, _, doc, rfl, ‹_›, hg, rfl⟩
    · cases h
  | handleFrame e =>
    simp only [commits] at h
    split at h
    · obtain ⟨t, ht, hp⟩ := Option.map_eq_some_iff.mp ‹_ = some (Phase.received _ _ _)›
      obtain ⟨⟨d, ev⟩, hap, rfl⟩ := Option.map_eq_some_iff.mp h
      obtain ⟨u, hu, hap⟩ := Option.bind_eq_some_iff.mp hap
      exact .inr ⟨e, t, _, _, _, u, d, ev, rfl, ht, hp, hu, hap, rfl⟩
    · cases h
  | _ => cases h

/-- What a commit does to a fan-out. -/
def Commit.publishTo (c : Commit D P) (f : FanOut P) : FanOut P :=
  match c.update with
  | some u => if f.doc = c.doc then f.publish ⟨u, c.origin⟩ else f
  | none => f

omit [Yrs D P] [DecidableEq P] in
@[simp] theorem Commit.publishTo_phase (c : Commit D P) (f : FanOut P) :
    (c.publishTo f).phase = f.phase := by
  simp only [publishTo, FanOut.publish]
  split <;> (try split) <;> (try split) <;> rfl

omit [Yrs D P] [DecidableEq P] in
theorem commit_spec (m : Manager D P) (doc : DocId) (d : D) (update : Option P)
    (origin : Option DeviceId) :
    (m.commit doc d update origin).docs = m.docs.write doc d ∧
      (m.commit doc d update origin).fans =
        fun i => (m.fans i).map (Commit.publishTo ⟨doc, d, update, origin⟩) := by
  rw [commit_eq]
  refine ⟨rfl, funext fun i => ?_⟩
  cases update <;> rfl

omit [DecidableEq P] in
theorem commits_handleFrame {m : Manager D P} {e : EndId} {t : ConnTask P} {r : Registered}
    {a : Bool} {payload : Option (Frame P)} (ht : m.conns e = some t)
    (hp : t.phase = .received r a payload) :
    m.commits (.handleFrame e) = ((payload.bind Frame.content).bind
      (Yrs.applyUpdate (m.docs.heap r.doc))).map
        fun p => ⟨r.doc, p.1, p.2, some r.peer.deviceId⟩ := by
  cases payload <;> simp [commits, ht, hp]

omit [DecidableEq P] in
/-- A frame that cannot be handled changes nothing. -/
theorem handleFrame_none {m : Manager D P} {doc : DocId} {peerId : DeviceId}
    {payload : Option (Frame P)} (h : m.handleFrame doc peerId payload = none) :
    (payload.bind Frame.content).bind (Yrs.applyUpdate (m.docs.heap doc)) = none := by
  cases payload with
  | none => rfl
  | some f =>
    cases f with
    | hello | syncStep1 => rfl
    | syncStep2 u | update u => simpa [handleFrame, Frame.content] using h

/-- A step does what it commits, and changes no document otherwise. -/
theorem Step.commits_eq {m m' : Manager D P} {a : Action P} (h : m.Step a m') :
    match m.commits a with
    | some c => m'.docs = m.docs.write c.doc c.result ∧
        m'.fans = fun i => (m.fans i).map c.publishTo
    | none => ∀ d < m.docs.next, m'.docs.heap d = m.docs.heap d := by
  cases h with
  | call hc =>
    rename_i t c cs
    cases c with
    | addEntry scope entry =>
      cases hg : m.docs.get scope with
      | none => simp [commits, hc, hg, perform]
      | some doc =>
        simp only [commits, hc, hg, Option.map_some, perform, setCalls_docs]
        exact commit_spec m doc _ _ none
    | joinRoom name =>
      simp only [commits, hc]
      obtain h | ⟨-, -, h, -⟩ := m.joinRoom_cases name
      · simp [perform, h]
      · simp only [perform, h]
        exact fun d hd => m.docs.getOrCreate_heap _ hd
    | docsGetOrCreate scope =>
      simp only [commits, hc]
      exact fun d hd => m.docs.getOrCreate_heap scope hd
    | maybeSpawnDialer d s n =>
      simp only [commits, hc]
      obtain h | ⟨-, -, h⟩ := m.maybeSpawnDialer_cases d s n <;> simp [perform, h]
    | _ =>
      simp [commits, hc, perform, signalHangup_eq, cancelLoop_eq, cancelFan_eq]
  | register ht hc hp =>
    rename_i e t peer doc g
    obtain h | ⟨d, -, -, h⟩ := m.register_cases e t peer doc g <;> simp [commits, h]
  | handleFrame ht hc hp =>
    rename_i e t r a payload
    rw [commits_handleFrame ht hp]
    obtain ⟨hn, h⟩ | ⟨m₁, reply, hf, h⟩ := m.handle_cases e t r a payload
    · rw [handleFrame_none hn, h]
      exact fun _ _ => rfl
    · rw [h]
      obtain ⟨rfl, hn⟩ | ⟨f, u, d, ev, rfl, hfu, happ, rfl, -⟩ := handleFrame_cases hf
      · have hnone : payload.bind Frame.content = none := by
          cases payload with
          | none => rfl
          | some f => exact Frame.content_of_not_isContent (hn f rfl)
        rw [hnone]
        exact fun _ _ => rfl
      · have hcont : f.content = some u := by obtain rfl | rfl := hfu <;> rfl
        simp only [Option.bind_some, hcont, happ, Option.map_some, setConn_docs]
        exact commit_spec m r.doc d ev _
  | tryAnnounce ht hc hp =>
    rename_i e t r reply
    obtain ⟨-, h⟩ | ⟨c, -, -, h⟩ := m.announce_cases e t r reply <;> simp [commits, h]
  | fanPush hf hp hc =>
    rename_i i f frame target rest lag
    obtain h | ⟨t, -, -, -, h⟩ | ⟨t, -, -, h⟩ := m.trySend_cases i frame target <;>
      simp [commits, h]
  | dial hl hs => cases hs <;> simp [commits]
  | fan hf hs => cases hs <;> simp [commits]
  | _ => simp [commits]

/-- A handled frame changes at most the document of its connection. -/
theorem Step.handleFrame_heap {m m' : Manager D P} {e : EndId} (h : m.Step (.handleFrame e) m')
    {d : DocId} (hd : m'.docs.heap d ≠ m.docs.heap d) :
    ∃ t r a f, m.conns e = some t ∧ t.phase = .received r a (some f) ∧ f.isContent = true ∧
      d = r.doc := by
  obtain ⟨t, r, a, payload, ht, -, hp, rfl⟩ := h.of_handleFrame
  obtain ⟨-, h⟩ | ⟨m₁, reply, hf, h⟩ := m.handle_cases e t r a payload
  · simp [h] at hd
  · rw [h] at hd
    obtain ⟨rfl, -⟩ | ⟨f, u, _, ev, rfl, hfu, -, rfl, -⟩ := handleFrame_cases hf
    · simp at hd
    · refine ⟨t, r, a, f, ht, hp, by obtain rfl | rfl := hfu <;> rfl, ?_⟩
      by_contra hne
      simp [commit_eq, hne] at hd

/-- A document changes when an entry is added to it, or when content from the socket of one of its
connections is handled. -/
theorem Step.heap_cases {m m' : Manager D P} {a : Action P} (h : m.Step a m') {d : DocId}
    (hlt : d < m.docs.next) (hd : m'.docs.heap d ≠ m.docs.heap d) :
    (∃ t s entry cs, a = .call t ∧ m.calls t = .addEntry s entry :: cs ∧
      m.docs.get s = some d) ∨
    ∃ e t r b f, a = .handleFrame e ∧ m.conns e = some t ∧ t.phase = .received r b (some f) ∧
      f.isContent = true ∧ r.doc = d := by
  have hc := h.commits_eq
  cases hcom : m.commits a with
  | none =>
    rw [hcom] at hc
    exact absurd (hc d hlt) hd
  | some c =>
    rw [hcom] at hc
    have hdoc : d = c.doc := by
      by_contra hne
      simp [hc.1, hne] at hd
    obtain ⟨t, s, entry, cs, doc, rfl, hcall, hget, rfl⟩ | ⟨e, -, -, -, -, -, -, -, rfl, -⟩ :=
      commits_cases hcom
    · exact .inl ⟨t, s, entry, cs, rfl, hcall, hdoc ▸ hget⟩
    · obtain ⟨t, r, b, f, ht, hp, hf, rfl⟩ := h.handleFrame_heap hd
      exact .inr ⟨e, t, r, b, f, rfl, ht, hp, hf, rfl⟩

/-- What a step may do to a fan-out task. -/
inductive FanStep (m : Manager D P) (i : TaskId) :
    Action P → Option (FanOut P) → Option (FanOut P) → Prop where
  | idle {a : Action P} {o : Option (FanOut P)} : FanStep m i a o o
  | cancelled {t : ThreadId} {f : FanOut P} {cs : List Call}
      (hc : m.calls t = .dropFanOut i :: cs) :
      FanStep m i (.call t) (some f) (some { f with cancelled := true })
  | spawned {t : ThreadId} {o : Option (FanOut P)} {name : String} {cs : List Call}
      (hi : i = m.spawned) (hc : m.calls t = .joinRoom name :: cs)
      (hn : Canonical name ∧ name ∉ m.state.joined) :
      FanStep m i (.call t) o
        (some (.spawn (.room name) (m.docs.getOrCreate (.room name)).2))
  | published {a : Action P} {f : FanOut P} {c : Commit D P} (hc : m.commits a = some c) :
      FanStep m i a (some f) (some (c.publishTo f))
  | moved {a : Action P} {f f' : FanOut P} (hs : f.Local m i a f') :
      FanStep m i a (some f) (some f')
  | pushed {f : FanOut P} {frame : Frame P} {target : ConnKey × ConnectionHandle}
      {rest : List (ConnKey × ConnectionHandle)} {lag : Bool}
      (hp : f.phase = .push frame (target :: rest) lag) :
      FanStep m i (.fanPush i) (some f) (some { f with phase := .push frame rest lag })

omit [DecidableEq P] in
theorem FanStep.of_update {m : Manager D P} {i i₀ : TaskId} {a : Action P} {f : FanOut P}
    {o : Option (FanOut P)} (hm : m.fans i₀ = o) (h : m.FanStep i₀ a o (some f)) :
    m.FanStep i a (m.fans i) (Function.update m.fans i₀ (some f) i) := by
  by_cases hi : i = i₀
  · subst hi
    simpa [hm] using h
  · rw [Function.update_of_ne hi]
    exact .idle

omit [DecidableEq P] in
theorem FanStep.of_commit {m : Manager D P} {a : Action P} {c : Commit D P}
    (hc : m.commits a = some c) (i : TaskId) :
    m.FanStep i a (m.fans i) ((m.fans i).map c.publishTo) := by
  cases m.fans i with
  | none => exact .idle
  | some f => exact .published hc

theorem Step.fanStep {m m' : Manager D P} {a : Action P} (h : m.Step a m') (i : TaskId) :
    m.FanStep i a (m.fans i) (m'.fans i) := by
  have hcommit := h.commits_eq
  cases hcom : m.commits a with
  | some c =>
    rw [hcom] at hcommit
    rw [hcommit.2]
    exact .of_commit hcom i
  | none =>
  cases h with
  | call hc =>
    rename_i t c cs
    cases c with
    | maybeSpawnDialer d s n =>
      obtain h | ⟨-, -, h⟩ := m.maybeSpawnDialer_cases d s n <;>
        (simp only [perform, h]; exact .idle)
    | joinRoom name =>
      obtain h | ⟨hca, hn, h, -⟩ := m.joinRoom_cases name
      · simp only [perform, h]
        exact .idle
      · simp only [perform, h]
        exact .of_update rfl (.spawned rfl hc ⟨hca, hn⟩)
    | addEntry scope entry =>
      simp only [perform]
      cases hg : m.docs.get scope with
      | none => exact .idle
      | some doc => simp [commits, hc, hg] at hcom
    | dropFanOut f =>
      simp only [perform, cancelFan_eq, setCalls_fans]
      cases hf : m.fans i with
      | none => exact .idle
      | some fan =>
        by_cases hi : i = f
        · subst hi
          simpa using FanStep.cancelled hc
        · simpa [hi] using FanStep.idle
    | _ =>
      simp only [perform, signalHangup_eq, cancelLoop_eq, setState, emit]
      exact .idle
  | register =>
    rename_i e t peer doc g _ _ _
    obtain h | ⟨d, -, -, h⟩ := m.register_cases e t peer doc g <;> (rw [h]; exact .idle)
  | handleFrame =>
    rename_i e t r a payload _ _ _
    obtain ⟨-, h⟩ | ⟨m₁, reply, hf, h⟩ := m.handle_cases e t r a payload
    · rw [h]
      exact .idle
    · rw [h]
      obtain ⟨rfl, -⟩ | ⟨f, u, d, ev, rfl, hfu, happ, -⟩ := handleFrame_cases hf
      · exact .idle
      · rw [commits_handleFrame ‹_› ‹_›] at hcom
        obtain rfl | rfl := hfu <;> simp [Frame.content, happ] at hcom
  | tryAnnounce =>
    rename_i e t r reply _ _ _
    obtain ⟨-, h⟩ | ⟨c, -, -, h⟩ := m.announce_cases e t r reply <;> (rw [h]; exact .idle)
  | fan hf hs => exact .of_update hf (.moved hs)
  | fanPush hf hp hc =>
    rename_i i₀ f frame target rest lag
    obtain h | ⟨t, -, -, -, h⟩ | ⟨t, -, -, h⟩ := m.trySend_cases i₀ frame target <;>
      (rw [h]; exact .of_update hf (.pushed hp))
  | _ => exact .idle

omit [DecidableEq P] in
/-- Registration is never undone. -/
theorem ConnStep.pending {m : Manager D P} {e : EndId} {a : Action P}
    {o o' : Option (ConnTask P)} (h : m.ConnStep e a o o')
    (hp : o'.all (·.phase.pending) = true) : o.all (·.phase.pending) = true := by
  cases h with
  | idle | queued | hungUp => exact hp
  | accepted | dialed => rfl
  | moved hc hs => exact hs.pending hp
  | fetched h | refused h => simp [h, Phase.pending]
  | @handled _ _ announced _ _ reply _ hf =>
    clear hf
    cases announced <;> cases reply <;> simp [Phase.pending, ConnTask.replyOrSelect] at hp
  | @announced _ _ reply => cases reply <;> simp [Phase.pending, ConnTask.replyOrSelect] at hp
  | _ => simp [Phase.pending, ConnTask.breakLoop] at hp

omit [DecidableEq P] in
/-- Only registration and teardown change which connection a task drives, and only a hangup its
flag. -/
theorem ConnStep.same {m : Manager D P} {e : EndId} {a : Action P} {o o' : Option (ConnTask P)}
    (h : m.ConnStep e a o o') (hcall : ∀ i, a ≠ .call i) (hreg : a ≠ .register e)
    (hfin : a ≠ .finishConnection e) :
    o'.bind (·.phase.registered) = o.bind (·.phase.registered) ∧
      o'.any (·.hangup) = o.any (·.hangup) := by
  cases h with
  | idle => exact ⟨rfl, rfl⟩
  | hungUp => exact absurd rfl (hcall _)
  | refused | entered => exact absurd rfl hreg
  | finished => exact absurd rfl hfin
  | accepted | dialed => exact ⟨rfl, rfl⟩
  | moved hc hs => exact ⟨hs.registered, by simp [hs.hangup]⟩
  | @handled _ _ announced _ _ reply hp hf =>
    clear hf
    cases announced <;> cases reply <;> simp [hp, Phase.registered, ConnTask.replyOrSelect]
  | @announced _ _ reply _ hp =>
    cases reply <;> simp [hp, Phase.registered, ConnTask.replyOrSelect]
  | rejected hp | unannounced hp => simp [hp, Phase.registered, ConnTask.breakLoop]
  | queued => simp
  | fetched hp | step1 hp => simp [hp, Phase.registered]

omit [DecidableEq P] in
/-- A connection becomes registered in the section that accepts it. -/
theorem ConnStep.entering {m : Manager D P} {e : EndId} {a : Action P}
    {o o' : Option (ConnTask P)} (h : m.ConnStep e a o o') {r : Registered}
    (hr : o'.bind (·.phase.registered) = some r) :
    o.bind (·.phase.registered) = some r ∨ (a = .register e ∧ m.state.accepts r.key = true ∧
      ∃ t, o = some t ∧ t.phase = .fetched r.peer (some r.doc) r.generation) := by
  cases h with
  | idle | hungUp | queued => exact .inl hr
  | accepted | dialed | refused | finished | fetched => cases hr
  | moved hc hs => exact .inl (by simpa [hs.registered] using hr)
  | entered hp ha =>
    cases hr
    exact .inr ⟨rfl, ha, _, rfl, hp⟩
  | @handled _ _ announced _ _ reply hp hf =>
    clear hf
    refine .inl ?_
    cases announced <;> cases reply <;>
      simpa [hp, Phase.registered, ConnTask.replyOrSelect] using hr
  | @announced _ _ reply _ hp =>
    refine .inl ?_
    cases reply <;> simpa [hp, Phase.registered, ConnTask.replyOrSelect] using hr
  | step1 hp | rejected hp | unannounced hp =>
    exact .inl (by simpa [hp, Phase.registered, ConnTask.breakLoop] using hr)

omit [DecidableEq P] in
/-- A connection is hung up by whoever owes it the hangup. -/
theorem ConnStep.hangup {m : Manager D P} {e : EndId} {a : Action P} {t t' : ConnTask P}
    (h : m.ConnStep e a (some t) (some t')) :
    t'.hangup = t.hangup ∨ ∃ i cs, a = .call i ∧ m.calls i = .hangup e :: cs := by
  cases h with
  | hungUp hc => exact .inr ⟨_, _, rfl, hc⟩
  | moved _ hs => exact .inl hs.hangup
  | _ => exact .inl rfl

omit [DecidableEq P] in
/-- A frame is taken from the socket, and is in hand until it is handled. -/
theorem ConnStep.received {m : Manager D P} {e : EndId} {a : Action P} {o : Option (ConnTask P)}
    {t' : ConnTask P} (h : m.ConnStep e a o (some t')) {r : Registered} {b : Bool}
    {payload : Option (Frame P)} (hp' : t'.phase = .received r b payload) :
    ∃ t, o = some t ∧ (t.phase = .received r b payload ∨
      a = .conn e (.recv (.frame payload)) ∧ t.phase = .select r b) := by
  cases h with
  | idle | hungUp | queued => exact ⟨_, rfl, .inl hp'⟩
  | @handled t r₀ b₀ payload₀ m₁ reply hp hf =>
    clear hf
    cases b₀ <;> cases reply <;> cases hp'
  | @announced t r₀ reply => cases reply <;> cases hp'
  | @moved act t _ _ hs =>
    refine ⟨t, rfl, ?_⟩
    cases hs with
    | activity => exact .inl hp'
    | helloEchoed | helloAnswered =>
      obtain ⟨-, hph⟩ | hph := ConnTask.validate_cases (P := P) m.device t.dialedScope ‹Hello› <;>
        simp [hph] at hp'
    | recvFrame hp =>
      cases hp'
      exact .inr ⟨rfl, hp⟩
    | _ => cases hp'
  | _ => cases hp'

omit [DecidableEq P] in
/-- The write of a frame is about to start once the watch was looked at and showed no hangup. -/
theorem ConnStep.starting {m : Manager D P} {e : EndId} {a : Action P} {o : Option (ConnTask P)}
    {t' : ConnTask P} (h : m.ConnStep e a o (some t')) {r : Registered} {b : Bool}
    {frame : Option (Frame P)} (hp' : t'.phase = .starting r b frame) :
    ∃ t, o = some t ∧ (t.phase = .starting r b frame ∨
      a = .conn e .sendAllowed ∧ t.phase = .sendOrHangup r b frame ∧ t.hangup = false) := by
  cases h with
  | idle | hungUp | queued => exact ⟨_, rfl, .inl hp'⟩
  | @handled t r₀ b₀ payload₀ m₁ reply hp hf =>
    clear hf
    cases b₀ <;> cases reply <;> cases hp'
  | @announced t r₀ reply => cases reply <;> cases hp'
  | @moved act t _ _ hs =>
    refine ⟨t, rfl, ?_⟩
    cases hs with
    | activity => exact .inl hp'
    | helloEchoed | helloAnswered =>
      obtain ⟨-, hph⟩ | hph := ConnTask.validate_cases (P := P) m.device t.dialedScope ‹Hello› <;>
        simp [hph] at hp'
    | allowed hp hn =>
      cases hp'
      exact .inr ⟨rfl, hp, hn⟩
    | _ => cases hp'
  | _ => cases hp'

/-- A step that leaves the connection table alone, and owes nothing new for it. -/
structure Quiet (m m' : Manager D P) : Prop where
  connections : ∀ k, m'.state.connections.lookup k = m.state.connections.lookup k
  registered : ∀ e, m'.registered e = m.registered e
  hungUp : ∀ e, m'.hungUp e = m.hungUp e
  events : m'.events = m.events
  calls : ∀ t, m'.calls t = m.calls t ∨
    (m.calls t = [] ∧ ∀ c ∈ m'.calls t, c.isEffect = false)

/-- What a step may do to the connection table. -/
inductive TableStep (m : Manager D P) : Action P → Manager D P → Prop where
  | quiet {a : Action P} {m' : Manager D P} (h : m.Quiet m') : TableStep m a m'
  | call {t : ThreadId} {c : Call} {cs : List Call} (hc : m.calls t = c :: cs) :
      TableStep m (.call t) ((m.perform c).1.setCalls t ((m.perform c).2 ++ cs))
  | register {e : EndId} {t : ConnTask P} {peer : Hello} {doc : DocId} {g : Nat}
      {m' : Manager D P} (ht : m.conns e = some t) (hc : m.calls (.conn e) = [])
      (hp : t.phase = .fetched peer (some doc) g) (ha : m.state.accepts peer.key)
      (hs : m'.state = m.state.register peer.key e g t.owningDialer)
      (hconns : m'.conns = Function.update m.conns e
        (some { t with phase := .ready ⟨peer, doc, g⟩ }))
      (hcalls : m'.calls = Function.update m.calls (.conn e)
        ((m.state.connections.lookup peer.key).toList.map fun old => .hangup old.task))
      (hev : m'.events = m.events) : TableStep m (.register e) m'
  | announce {e : EndId} {t : ConnTask P} {r : Registered} {reply : Option (Frame P)}
      {c : ConnectionHandle} (ht : m.conns e = some t) (hp : t.phase = .handled r reply)
      (hl : m.state.connections.lookup r.key = some c) (hg : c.generation = r.generation) :
      TableStep m (.tryAnnounce e) { m with
        state := { m.state with
          connections := m.state.connections.insert r.key { c with announced := true } }
        events := m.events ++ [.peerConnected r.peer.deviceId r.peer.deviceName r.peer.scope]
        conns := Function.update m.conns e
          (some { t with phase := ConnTask.replyOrSelect r reply }) }
  | finish {e : EndId} {t : ConnTask P} {r : Registered} {a : Bool} (ht : m.conns e = some t)
      (hc : m.calls (.conn e) = []) (hp : t.phase = .finishing r a) :
      TableStep m (.finishConnection e)
        (((m.setState (m.state.finishConnection r.key r.generation).1).setConn e
          { t with phase := .finished a }).setCalls (.conn e)
            ((m.state.finishConnection r.key r.generation).2 ++
              [.maybeSpawnDialer r.key.1 r.key.2 redialDelay]))

theorem Step.tableStep {m m' : Manager D P} {a : Action P} (h : m.Step a m') :
    m.TableStep a m' := by
  have hconn := h.connStep
  -- Away from calls, registration and teardown, only `connections`, `events`, `calls` matter.
  have quiet (hcall : ∀ i, a ≠ .call i) (hreg : ∀ e, a ≠ .register e)
      (hfin : ∀ e, a ≠ .finishConnection e)
      (hs : ∀ k, m'.state.connections.lookup k = m.state.connections.lookup k)
      (hev : m'.events = m.events)
      (hc : ∀ t, m'.calls t = m.calls t ∨
        (m.calls t = [] ∧ ∀ c ∈ m'.calls t, c.isEffect = false)) : m.TableStep a m' :=
    .quiet ⟨hs, fun e => ((hconn e).same hcall (hreg e) (hfin e)).1,
      fun e => ((hconn e).same hcall (hreg e) (hfin e)).2, hev, hc⟩
  cases h with
  | invoke hc =>
    rename_i i command
    refine quiet (by simp) (by simp) (by simp) (fun _ => rfl) rfl fun t => ?_
    by_cases ht : t = .caller i
    · subst ht
      exact .inr ⟨hc, by simpa using command.calls_isEffect⟩
    · simp [ht]
  | call hc => exact .call hc
  | register ht hc hp =>
    rename_i e t peer doc g
    obtain h | ⟨d, rfl, ha, h⟩ := m.register_cases e t peer doc g
    · rw [h] at hconn ⊢
      refine .quiet ⟨fun _ => rfl, fun e' => ?_, fun e' => ?_, rfl, fun _ => .inl rfl⟩
      all_goals
        by_cases he : e' = e
        · subst he
          simp [registered, Manager.hungUp, ht, hp, Phase.registered]
        · simp [registered, Manager.hungUp, he]
    · rw [h]
      exact .register ht hc hp ha rfl rfl rfl rfl
  | tryAnnounce ht hc hp =>
    rename_i e t r reply
    obtain ⟨hi, h⟩ | ⟨c, hl, hg, h⟩ := m.announce_cases e t r reply
    · rw [h] at hconn quiet ⊢
      exact quiet (by simp) (by simp) (by simp) (fun _ => rfl) rfl fun _ => .inl rfl
    · rw [h]
      exact .announce ht hp hl hg
  | finishConnection ht hc hp => exact .finish ht hc hp
  | handleFrame ht hc hp =>
    rename_i e t r a payload
    obtain ⟨-, h⟩ | ⟨m₁, reply, hf, h⟩ := m.handle_cases e t r a payload
    · rw [h] at hconn quiet ⊢
      exact quiet (by simp) (by simp) (by simp) (fun _ => rfl) rfl fun _ => .inl rfl
    · obtain ⟨docs, fans, rfl⟩ := handleFrame_eq hf
      rw [h] at hconn quiet ⊢
      exact quiet (by simp) (by simp) (by simp) (fun _ => rfl) rfl fun _ => .inl rfl
  | fanPush hf hp hc =>
    rename_i i f frame target rest lag
    obtain h | ⟨t, ht, hr, hlt, h⟩ | ⟨t, -, -, h⟩ := m.trySend_cases i frame target
    · rw [h] at hconn quiet ⊢
      exact quiet (by simp) (by simp) (by simp) (fun _ => rfl) rfl fun _ => .inl rfl
    · rw [h] at hconn quiet ⊢
      exact quiet (by simp) (by simp) (by simp) (fun _ => rfl) rfl fun _ => .inl rfl
    · rw [h] at hconn quiet ⊢
      refine quiet (by simp) (by simp) (by simp) (fun _ => rfl) rfl fun t => ?_
      by_cases ht : t = .fan i
      · subst ht
        exact .inr ⟨hc, by simp [Call.isEffect]⟩
      · simp [ht]
  | rehash hp hc hd =>
    exact quiet (by simp) (by simp) (by simp) (fun k => (hc.lookup k).symm) rfl fun _ => .inl rfl
  | removeDialerEntry hl hp =>
    rename_i i l
    obtain ⟨ds, h⟩ := m.state.removeDialerEntry_eq l.key l.generation
    rw [h] at hconn quiet ⊢
    exact quiet (by simp) (by simp) (by simp) (fun _ => rfl) rfl fun _ => .inl rfl
  | dial hl hs =>
    cases hs <;> exact quiet (by simp) (by simp) (by simp) (fun _ => rfl) rfl fun _ => .inl rfl
  | fan hf hs =>
    cases hs <;> exact quiet (by simp) (by simp) (by simp) (fun _ => rfl) rfl fun _ => .inl rfl
  | _ => exact quiet (by simp) (by simp) (by simp) (fun _ => rfl) rfl fun _ => .inl rfl

/-- The key and the generation of a dial loop that has not returned. -/
def dialing (m : Manager D P) (i : TaskId) : Option (ConnKey × Nat) :=
  (m.loops i).bind fun l => if l.phase = .returned then none else some (l.key, l.generation)

/-- Whether the cancel channel of a dial loop has fired or closed. -/
def cancelled (m : Manager D P) (i : TaskId) : Bool := (m.loops i).any (·.cancelled)

/-- A step that leaves the dialers alone, and owes no new cancel. -/
structure StillDials (m m' : Manager D P) : Prop where
  dialers : ∀ k, m'.state.dialers.lookup k = m.state.dialers.lookup k
  dialing : ∀ i, m'.dialing i = m.dialing i
  cancelled : ∀ i, m'.cancelled i = m.cancelled i
  owes : ∀ i, m'.owes (.cancelDialer i) ↔ m.owes (.cancelDialer i)

/-- What a step may do to the dialers. -/
inductive DialStep (m : Manager D P) : Action P → Manager D P → Prop where
  | quiet {a : Action P} {m' : Manager D P} (h : m.StillDials m') : DialStep m a m'
  | call {t : ThreadId} {c : Call} {cs : List Call} (hc : m.calls t = c :: cs)
      (hn : ∀ d s n, c ≠ .maybeSpawnDialer d s n) :
      DialStep m (.call t) ((m.perform c).1.setCalls t ((m.perform c).2 ++ cs))
  | spawn {t : ThreadId} {cs : List Call} {peerId : DeviceId} {scope : Scope} {delay : Nat}
      (hc : m.calls t = .maybeSpawnDialer peerId scope delay :: cs) (ho : m.device.id < peerId)
      (hw : m.state.wantsDialer peerId scope) :
      DialStep m (.call t) { m with
        loops := Function.update m.loops m.spawned (some (.spawn peerId scope m.generation delay))
        state := { m.state with
          dialers := m.state.dialers.insert (peerId, scope) ⟨m.generation, m.spawned⟩ }
        generation := m.generation + 1
        spawned := m.spawned + 1
        calls := Function.update m.calls t cs }
  | register {e : EndId} {key : ConnKey} {owner : Option Nat} {calls : List Call}
      {m' : Manager D P} (hc : m.calls (.conn e) = [])
      (hcs : ∀ i, Call.cancelDialer i ∉ calls)
      (hds : ∀ k, m'.state.dialers.lookup k =
        if k = key ∧ m.state.redundant key owner then none else m.state.dialers.lookup k)
      (hls : m'.loops = fun i => (m.loops i).map fun l => { l with
        cancelled := l.cancelled || decide (m.state.redundantDialer key owner = some i) })
      (hcalls : m'.calls = Function.update m.calls (.conn e) calls) :
      DialStep m (.register e) m'
  | returned {i : TaskId} {l : DialLoop} (hl : m.loops i = some l) (hc : l.cancelled = true) :
      DialStep m (.dialCancelled i) (m.setLoop i { l with phase := .returned })
  | removed {i : TaskId} {l : DialLoop} (hl : m.loops i = some l) (hp : l.phase = .targetless) :
      DialStep m (.removeDialerEntry i)
        ((m.setState (m.state.removeDialerEntry l.key l.generation)).setLoop i
          { l with phase := .returned })

omit [Yrs D P] [DecidableEq P] in
/-- A thread with nothing to do is given calls. -/
theorem owes_update {m m' : Manager D P} {t : ThreadId} (hc : m.calls t = []) {cs : List Call}
    (hm : m'.calls = Function.update m.calls t cs) (c : Call) :
    m'.owes c ↔ m.owes c ∨ c ∈ cs := by
  constructor
  · rintro ⟨t', h⟩
    by_cases ht : t' = t
    · subst ht
      exact .inr (by simpa [hm] using h)
    · exact .inl ⟨t', by simpa [hm, ht] using h⟩
  · rintro (⟨t', h⟩ | h)
    · have ht : t' ≠ t := by
        rintro rfl
        simp [hc] at h
      exact ⟨t', by simpa [hm, ht] using h⟩
    · exact ⟨t, by simpa [hm] using h⟩

omit [Yrs D P] [DecidableEq P] in
theorem owes_of_nil {m : Manager D P} {t : ThreadId} (hc : m.calls t = []) {cs : List Call}
    {c : Call} (hcs : c ∉ cs) : (m.setCalls t cs).owes c ↔ m.owes c := by
  rw [owes_update hc rfl]
  simp [hcs]

omit [Yrs D P] [DecidableEq P] in
theorem owes_of_cons {m : Manager D P} {t : ThreadId} {c₀ c : Call} {cs : List Call}
    (hc : m.calls t = c₀ :: cs) (hne : c ≠ c₀) : (m.setCalls t cs).owes c ↔ m.owes c := by
  constructor
  · rintro ⟨t', h⟩
    by_cases ht : t' = t
    · subst ht
      exact ⟨t', by simp [hc, show c ∈ cs by simpa using h]⟩
    · exact ⟨t', by simpa [ht] using h⟩
  · rintro ⟨t', h⟩
    by_cases ht : t' = t
    · subst ht
      rw [hc] at h
      exact ⟨t', by simpa using (List.mem_cons.mp h).resolve_left hne⟩
    · exact ⟨t', by simpa [ht] using h⟩

omit [DecidableEq P] in
/-- A call is done and leaves its own calls behind: nothing else owed is lost or added. -/
theorem owes_call {m : Manager D P} {t : ThreadId} {c : Call} {cs : List Call}
    (hc : m.calls t = c :: cs) (c' : Call) :
    (((m.perform c).1.setCalls t ((m.perform c).2 ++ cs)).owes c' ∨ c' = c) ↔
      (m.owes c' ∨ c' ∈ (m.perform c).2) := by
  constructor
  · rintro (⟨t', h⟩ | rfl)
    · by_cases ht : t' = t
      · subst ht
        obtain h | h := List.mem_append.mp (by simpa using h)
        · exact .inr h
        · exact .inl ⟨t', by simp [hc, h]⟩
      · exact .inl ⟨t', by simpa [ht] using h⟩
    · exact .inl ⟨t, by simp [hc]⟩
  · rintro (⟨t', h⟩ | h)
    · by_cases ht : t' = t
      · subst ht
        rw [hc] at h
        obtain h | h := List.mem_cons.mp h
        · exact .inr h
        · exact .inl ⟨t', by simp [h]⟩
      · exact .inl ⟨t', by simpa [ht] using h⟩
    · exact .inl ⟨t, by simp [h]⟩

omit [Yrs D P] [DecidableEq P] in
theorem Quiet.owes {m m' : Manager D P} (h : m.Quiet m') {c : Call} (hc : c.isEffect = true) :
    m'.owes c ↔ m.owes c := by
  constructor
  · rintro ⟨t, ht⟩
    obtain heq | ⟨-, hn⟩ := h.calls t
    · exact ⟨t, heq ▸ ht⟩
    · simp [hn c ht] at hc
  · rintro ⟨t, ht⟩
    obtain heq | ⟨hnil, -⟩ := h.calls t
    · exact ⟨t, heq.symm ▸ ht⟩
    · simp [hnil] at ht

theorem Step.dialStep {m m' : Manager D P} {a : Action P} (h : m.Step a m') :
    m.DialStep a m' := by
  have quiet (hd : ∀ k, m'.state.dialers.lookup k = m.state.dialers.lookup k)
      (hl : m'.loops = m.loops)
      (hc : ∀ i, m'.owes (.cancelDialer i) ↔ m.owes (.cancelDialer i)) : m.DialStep a m' :=
    .quiet ⟨hd, fun i => by rw [dialing, hl, dialing],
      fun i => by rw [cancelled, hl, cancelled], hc⟩
  -- A loop that moves on keeps its key, its generation and its flag.
  have moved {i : TaskId} {l l' : DialLoop} (hm : m' = m.setLoop i l') (hl : m.loops i = some l)
      (hk : l'.key = l.key) (hg : l'.generation = l.generation)
      (hc : l'.cancelled = l.cancelled) (hp : l.phase ≠ .returned)
      (hp' : l'.phase ≠ .returned) : m.DialStep a m' := by
    subst hm
    refine .quiet ⟨fun _ => rfl, fun i' => ?_, fun i' => ?_, fun _ => Iff.rfl⟩
    all_goals
      by_cases hi : i' = i
      · subst hi
        simp [dialing, cancelled, hl, hp, hp', hk, hg, hc]
      · simp [dialing, cancelled, hi]
  cases h with
  | invoke hc =>
    rename_i i command
    refine quiet (fun _ => rfl) rfl fun i' => owes_of_nil hc fun h => ?_
    simpa [Call.isEffect] using command.calls_isEffect _ h
  | call hc =>
    rename_i t c cs
    by_cases hn : ∀ d s n, c ≠ .maybeSpawnDialer d s n
    · exact .call hc hn
    · push Not at hn
      obtain ⟨d, s, n, rfl⟩ := hn
      obtain h | ⟨ho, hw, h⟩ := m.maybeSpawnDialer_cases d s n
      · simp only [perform, h] at quiet ⊢
        exact quiet (fun _ => rfl) rfl fun i => owes_of_cons hc (by simp)
      · simp only [perform, h]
        exact .spawn hc ho hw
  | register ht hc hp =>
    rename_i e t peer doc g
    obtain h | ⟨d, rfl, ha, h⟩ := m.register_cases e t peer doc g
    · rw [h] at quiet ⊢
      exact quiet (fun _ => rfl) rfl fun _ => Iff.rfl
    · rw [h]
      exact .register hc (by simp) (m.state.register_dialers _ · _ _ _) rfl rfl
  | tryAnnounce ht hc hp =>
    rename_i e t r reply
    obtain ⟨hi, h⟩ | ⟨c, hl, hg, h⟩ := m.announce_cases e t r reply
    · rw [h] at quiet ⊢
      exact quiet (fun _ => rfl) rfl fun _ => Iff.rfl
    · rw [h] at quiet ⊢
      exact quiet (fun _ => rfl) rfl fun _ => Iff.rfl
  | finishConnection ht hc hp =>
    rename_i e t r a
    obtain ⟨cs, h⟩ := m.state.finishConnection_eq r.key r.generation
    refine quiet (fun k => by simp [h]) rfl fun i => owes_of_nil hc ?_
    rw [State.finishConnection_calls]
    split <;> simp
  | handleFrame ht hc hp =>
    rename_i e t r a payload
    obtain ⟨-, h⟩ | ⟨m₁, reply, hf, h⟩ := m.handle_cases e t r a payload
    · rw [h] at quiet ⊢
      exact quiet (fun _ => rfl) rfl fun _ => Iff.rfl
    · obtain ⟨docs, fans, rfl⟩ := handleFrame_eq hf
      rw [h] at quiet ⊢
      exact quiet (fun _ => rfl) rfl fun _ => Iff.rfl
  | fanPush hf hp hc =>
    rename_i i f frame target rest lag
    obtain h | ⟨t, ht, hr, hlt, h⟩ | ⟨t, -, -, h⟩ := m.trySend_cases i frame target
    · rw [h] at quiet ⊢
      exact quiet (fun _ => rfl) rfl fun _ => Iff.rfl
    · rw [h] at quiet ⊢
      exact quiet (fun _ => rfl) rfl fun _ => Iff.rfl
    · rw [h] at quiet ⊢
      exact quiet (fun _ => rfl) rfl fun _ => owes_of_nil hc (by simp)
  | rehash hp hc hd => exact quiet (fun k => (hd.lookup k).symm) rfl fun _ => Iff.rfl
  | removeDialerEntry hl hp => exact .removed hl hp
  | connected hl hp hd hn =>
    rename_i i e l
    refine .quiet ⟨fun _ => rfl, fun i' => ?_, fun i' => ?_, fun _ => Iff.rfl⟩
    all_goals
      by_cases hi : i' = i
      · subst hi
        simp [dialing, cancelled, hl, hp, DialLoop.key]
      · simp [dialing, cancelled, hi]
  | dial hl hs =>
    cases hs with
    | cancelled hc hp => exact .returned hl hc
    | wake hp | target hp | noTarget hp =>
      exact moved rfl hl rfl rfl rfl (by simp [hp]) (by simp)
    | connectFailed hp =>
      exact moved rfl hl rfl rfl rfl (by simp [hp]) (by simp [DialLoop.again])
    | @redial _ _ outcome hp =>
      cases outcome <;>
        exact moved rfl hl rfl rfl rfl (by simp [hp]) (by simp [DialLoop.again])
  | fan hf hs => exact quiet (fun _ => rfl) rfl fun _ => Iff.rfl
  | _ => exact quiet (fun _ => rfl) rfl fun _ => Iff.rfl

end Manager

end Yoink
