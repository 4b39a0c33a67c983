import Yoink.Sync.Dialing

/-!
# Rooms, documents and the calls of a thread

`CallStep` says what a step may do to the calls of one thread, `RoomStep` what it may do
to the joined rooms, the document set and the fan-outs' handles. From these: a document
belongs to one scope for good, and every task that works on it is a task of that scope.
-/

namespace Yoink

variable {D P : Type}

/-- The scope and the document of a connection that has fetched one. -/
def Phase.doc : Phase P → Option (Scope × DocId)
  | .fetched peer doc _ => doc.map fun d => (peer.scope, d)
  | p => p.registered.map fun r => (r.peer.scope, r.doc)

theorem Phase.doc_of_registered {p : Phase P} {r : Registered} (h : p.registered = some r) :
    p.doc = some (r.peer.scope, r.doc) := by
  cases p <;> simp_all [Phase.doc, Phase.registered]

theorem ConnTask.Local.doc {device : DeviceInfo} {act : ConnTask.Act P} {t t' : ConnTask P}
    (h : t.Local device act t') : t'.phase.doc = t.phase.doc := by
  cases h with
  | helloEchoed hp | helloAnswered hp =>
    obtain ⟨-, h⟩ | h := validate_cases (P := P) device t.dialedScope ‹Hello› <;>
      simp [hp, h, Phase.doc, Phase.registered]
  | abort hp =>
    obtain hp | ⟨_, hp⟩ := hp <;> simp [hp, Phase.doc, Phase.registered]
  | leave hp =>
    obtain hp | ⟨_, hp | hp⟩ := hp <;> simp [hp, Phase.doc, Phase.registered, breakLoop]
  | activity => rfl
  | _ hp => simp [hp, Phase.doc, Phase.registered]

theorem FanOut.publish_doc (f : FanOut P) (u : DocUpdate P) :
    (f.publish u).scope = f.scope ∧ (f.publish u).doc = f.doc := by
  unfold publish
  split <;> exact ⟨rfl, rfl⟩

theorem Manager.Commit.publishTo_doc (c : Manager.Commit D P) (f : FanOut P) :
    (c.publishTo f).scope = f.scope ∧ (c.publishTo f).doc = f.doc := by
  unfold publishTo
  split
  · split
    · exact FanOut.publish_doc f _
    · exact ⟨rfl, rfl⟩
  · exact ⟨rfl, rfl⟩

theorem Manager.Commit.publishTo_cancelled (c : Manager.Commit D P) (f : FanOut P) :
    (c.publishTo f).cancelled = f.cancelled := by
  simp only [publishTo, FanOut.publish]
  split <;> (try split) <;> (try split) <;> rfl

/-- The thread an action may take a call from or give calls to. -/
def Action.thread : Action P → Option ThreadId
  | .invoke i _ => some (.caller i)
  | .call t => some t
  | .register e | .finishConnection e => some (.conn e)
  | .fanPush i => some (.fan i)
  | _ => none

namespace Manager

variable [Yrs D P]

/-- What a step may do to the calls of thread `t`. -/
inductive CallStep (m : Manager D P) (t : ThreadId) :
    Action P → List Call → List Call → Prop where
  | idle {a : Action P} {cs : List Call} : CallStep m t a cs cs
  | invoked {i : Nat} {command : Command} (ht : t = .caller i) :
      CallStep m t (.invoke i command) [] command.calls
  | made {c : Call} {cs : List Call} : CallStep m t (.call t) (c :: cs) ((m.perform c).2 ++ cs)
  /-- A connection task or a fan-out leaves calls to itself. -/
  | given {a : Action P} {cs : List Call} (ht : ∀ i, t ≠ .caller i)
      (hcs : ∀ c ∈ cs, c.isEffect = true ∨ ∃ k g, c = .forceClose k g)
      (hev : ∀ d n s, .emit (.peerConnected d n s) ∉ cs) (ha : a.thread = some t)
      (hd : ∀ f, .dropFanOut f ∉ cs) : CallStep m t a [] cs

theorem CallStep.of_update {m : Manager D P} {t t₀ : ThreadId} {a : Action P}
    {cs cs' : List Call} (hm : m.calls t₀ = cs) (h : m.CallStep t₀ a cs cs') :
    m.CallStep t a (m.calls t) (Function.update m.calls t₀ cs' t) := by
  by_cases ht : t = t₀
  · subst ht
    simpa [hm] using h
  · rw [Function.update_of_ne ht]
    exact .idle

variable [DecidableEq P]

theorem Step.callStep {m m' : Manager D P} {a : Action P} (h : m.Step a m') (t : ThreadId) :
    m.CallStep t a (m.calls t) (m'.calls t) := by
  cases h with
  | invoke hc => exact .of_update hc (.invoked rfl)
  | call hc =>
    rename_i t₀ c cs
    rw [setCalls_calls, perform_calls]
    exact .of_update hc .made
  | register ht hc hp =>
    rename_i e task peer doc g
    obtain h | ⟨d, -, -, h⟩ := m.register_cases e task peer doc g
    · rw [h]
      exact .idle
    · rw [h]
      exact .of_update hc (.given (by simp) (by simp [Call.isEffect]) (by simp) rfl (by simp))
  | handleFrame ht hc hp =>
    rename_i e task r b payload
    obtain ⟨-, h⟩ | ⟨m₁, reply, hf, h⟩ := m.handle_cases e task r b payload
    · rw [h]
      exact .idle
    · obtain ⟨docs, fans, rfl⟩ := handleFrame_eq hf
      rw [h]
      exact .idle
  | tryAnnounce ht hc hp =>
    rename_i e task r reply
    obtain ⟨-, h⟩ | ⟨c, -, -, h⟩ := m.announce_cases e task r reply <;> (rw [h]; exact .idle)
  | finishConnection ht hc hp =>
    rename_i e task r b
    have hmem {c : Call} (hcs : c ∈ (m.state.finishConnection r.key r.generation).2 ++
        [.maybeSpawnDialer r.key.1 r.key.2 redialDelay]) :
        c = r.key.disconnected ∨ c = .maybeSpawnDialer r.key.1 r.key.2 redialDelay := by
      rw [State.finishConnection_calls] at hcs
      split at hcs <;> simp at hcs <;> simp [hcs]
    refine .of_update hc (.given (by simp) (fun c hcs => .inl ?_) (fun d n s hcs => ?_) rfl
      fun f hcs => ?_)
    · obtain rfl | rfl := hmem hcs <;> rfl
    · obtain h | h := hmem hcs <;> cases h
    · obtain h | h := hmem hcs <;> cases h
  | fanPush hf hp hc =>
    rename_i i f frame target rest lag
    obtain h | ⟨task, -, -, -, h⟩ | ⟨task, -, -, h⟩ := m.trySend_cases i frame target
    · rw [h]
      exact .idle
    · rw [h]
      exact .idle
    · rw [h]
      exact .of_update hc
        (.given (by simp) (by simp [Call.isEffect, Prod.ext_iff]) (by simp) rfl (by simp))
  | _ => exact .idle

theorem Step.calls_of_ne {m m' : Manager D P} {a : Action P} (h : m.Step a m') {t : ThreadId}
    (ht : a.thread ≠ some t) : m'.calls t = m.calls t := by
  have hs := h.callStep t
  generalize m.calls t = cs at hs
  generalize m'.calls t = cs' at hs
  cases hs with
  | idle => rfl
  | invoked hi => exact absurd (by rw [hi]; rfl) ht
  | made => exact absurd rfl ht
  | given _ _ _ ha => exact absurd ha ht

/-- Only the threads a run names have calls to make. -/
theorem Run.busy {device : DeviceInfo} {m : Manager D P}
    {τ : List (Transition (Manager D P) (Action P))} (h : (system D P device).Run τ m)
    {t : ThreadId} (ht : m.calls t ≠ []) : t ∈ τ.filterMap (·.act.thread) := by
  refine h.history (I := fun τ m => m.calls t ≠ [] → t ∈ τ.filterMap (·.act.thread)) ?_
    (fun τ m a m' _ hI hs hc => ?_) ht
  · rintro m ⟨trust, rooms, rfl⟩ hc
    simp [(new_bare device trust rooms).calls] at hc
  · rw [List.filterMap_append, List.mem_append]
    by_cases ha : a.thread = some t
    · exact .inr (by simp [ha])
    · exact .inl (hI ((step_cases hs).calls_of_ne ha ▸ hc))

/-- A state of a run is idle if the threads the run names are. -/
theorem Run.idle {device : DeviceInfo} {m : Manager D P}
    {τ τ₁ τ₂ : List (Transition (Manager D P) (Action P))} (h : (system D P device).Run τ₁ m)
    (hτ : τ = τ₁ ++ τ₂) (hall : ∀ t ∈ τ.filterMap (·.act.thread), m.calls t = []) (t : ThreadId) :
    m.calls t = [] := by
  by_contra hne
  refine hne (hall t ?_)
  rw [hτ, List.filterMap_append, List.mem_append]
  exact .inl (Run.busy h hne)

/-- Only the connections a run opens have a task. -/
theorem Run.opened {device : DeviceInfo} {m : Manager D P}
    {τ : List (Transition (Manager D P) (Action P))} (h : (system D P device).Run τ m)
    {e : EndId} (he : m.conns e ≠ none) :
    ∃ u ∈ τ, u.act = .handleInbound e ∨ ∃ l, u.act = .connected l e := by
  refine h.history (I := fun τ m => m.conns e ≠ none →
    ∃ u ∈ τ, u.act = .handleInbound e ∨ ∃ l, u.act = .connected l e) ?_
    (fun τ m a m' _ hI hs he => ?_) he
  · rintro m ⟨trust, rooms, rfl⟩ he
    simp [(new_bare device trust rooms).conns] at he
  · by_cases hn : m.conns e = none
    · exact ⟨⟨m, a, m'⟩, by simp, (step_cases hs).conns_new hn he⟩
    · obtain ⟨u, hu, ha⟩ := hI hn
      exact ⟨u, List.mem_append_left _ hu, ha⟩

/-- What a step may do to the rooms. -/
inductive RoomStep (m : Manager D P) : Action P → Manager D P → Prop where
  | quiet {a : Action P} {m' : Manager D P} (hd : m'.docs.set = m.docs.set)
      (hn : m'.docs.next = m.docs.next) (hj : m'.state.joined = m.state.joined)
      (hf : m'.state.fanOuts = m.state.fanOuts)
      (hc : ∀ t name cs, a = .call t → m.calls t ≠ .leaveRoom name :: cs ∧
        (m.calls t = .joinRoom name :: cs → ¬ (Canonical name ∧ name ∉ m.state.joined))) :
      RoomStep m a m'
  | created {t : ThreadId} {s : Scope} {cs : List Call}
      (hc : m.calls t = .docsGetOrCreate s :: cs) :
      RoomStep m (.call t) { m with
        docs := (m.docs.getOrCreate s).1
        calls := Function.update m.calls t cs }
  | removed {t : ThreadId} {s : Scope} {cs : List Call} (hc : m.calls t = .docsRemove s :: cs) :
      RoomStep m (.call t) { m with
        docs := m.docs.remove s
        calls := Function.update m.calls t cs }
  | joined {t : ThreadId} {name : String} {cs : List Call} {m' : Manager D P}
      (hc : m.calls t = .joinRoom name :: cs) (hn : name ∉ m.state.joined)
      (hd : m'.docs = (m.docs.getOrCreate (.room name)).1)
      (hj : m'.state.joined = insert name m.state.joined)
      (hf : m'.state.fanOuts = m.state.fanOuts.insert (.room name) m.spawned)
      (hs : m'.fans = Function.update m.fans m.spawned
        (some (.spawn (.room name) (m.docs.getOrCreate (.room name)).2)))
      (hsp : m'.spawned = m.spawned + 1) : RoomStep m (.call t) m'
  | left {t : ThreadId} {name : String} {cs : List Call} {m' : Manager D P}
      (hc : m.calls t = .leaveRoom name :: cs) (hd : m'.docs = m.docs)
      (hj : m'.state.joined = m.state.joined.erase name)
      (hf : ∀ s, m'.state.fanOuts.lookup s =
        if name ∈ m.state.joined ∧ s = .room name then none else m.state.fanOuts.lookup s) :
      RoomStep m (.call t) m'

theorem Step.roomStep {m m' : Manager D P} {a : Action P} (h : m.Step a m') :
    m.RoomStep a m' := by
  have quiet (ha : ∀ t, a ≠ .call t) (hd : m'.docs.set = m.docs.set)
      (hn : m'.docs.next = m.docs.next) (hj : m'.state.joined = m.state.joined)
      (hf : m'.state.fanOuts = m.state.fanOuts) : m.RoomStep a m' :=
    .quiet hd hn hj hf fun t _ _ hact => absurd hact (ha t)
  cases h with
  | call hc =>
    rename_i t c cs
    -- A call other than the four about rooms.
    have other (hl : ∀ name, c ≠ .leaveRoom name ∧
          (c = .joinRoom name → ¬ (Canonical name ∧ name ∉ m.state.joined)))
        (hd : (m.perform c).1.docs.set = m.docs.set)
        (hn : (m.perform c).1.docs.next = m.docs.next)
        (hj : (m.perform c).1.state.joined = m.state.joined)
        (hf : (m.perform c).1.state.fanOuts = m.state.fanOuts) :
        m.RoomStep (.call t) ((m.perform c).1.setCalls t ((m.perform c).2 ++ cs)) := by
      refine .quiet hd hn hj hf fun t' name cs' hact => ?_
      cases hact
      rw [hc]
      exact ⟨fun h => (hl name).1 (List.cons.inj h).1, fun h => (hl name).2 (List.cons.inj h).1⟩
    cases c with
    | docsGetOrCreate s => exact .created hc
    | docsRemove s => exact .removed hc
    | leaveRoom name =>
      exact .left hc rfl (m.state.leaveRoom_joined name) (m.state.leaveRoom_fanOuts name)
    | joinRoom name =>
      obtain h | ⟨-, hn, h, -⟩ := m.joinRoom_cases name
      · refine other (fun n => ⟨by simp, fun hn hj => ?_⟩) ?_ ?_ ?_ ?_
        · cases hn
          simpa [joinRoom, hj.1, hj.2, spawnFanOut] using congrArg (fun p => p.1.spawned) h
        all_goals simp only [perform, h]
      · refine .joined hc hn ?_ ?_ ?_ ?_ ?_ <;> simp only [perform, h] <;> rfl
    | maybeSpawnDialer d s n =>
      obtain h | ⟨-, -, h⟩ := m.maybeSpawnDialer_cases d s n <;>
        (refine other (by simp) ?_ ?_ ?_ ?_ <;> simp only [perform, h])
    | addEntry scope entry =>
      cases hg : m.docs.get scope <;>
        (refine other (by simp) ?_ ?_ ?_ ?_ <;> simp only [perform, hg, commit_eq] <;> rfl)
    | setTrusted d b =>
      obtain ⟨_, _, h⟩ := m.state.setTrusted_eq d b
      exact other (by simp) rfl rfl (by simp [perform, h]) (by simp [perform, h])
    | forceClose key g =>
      obtain ⟨_, h⟩ := m.state.forceClose_eq key g
      exact other (by simp) rfl rfl (by simp [perform, h]) (by simp [perform, h])
    | peerDiscovered peer =>
      obtain ⟨_, h⟩ := m.state.peerDiscovered_eq m.device.id peer
      exact other (by simp) rfl rfl (by simp [perform, h]) (by simp [perform, h])
    | peerLost d => exact other (by simp) rfl rfl rfl rfl
    | emit event => exact other (by simp) rfl rfl rfl rfl
    | hangup | cancelDialer | dropFanOut =>
      refine other (by simp) ?_ ?_ ?_ ?_ <;>
        simp only [perform, signalHangup_eq, cancelLoop_eq, cancelFan_eq]
  | register ht hc hp =>
    rename_i e task peer doc g
    obtain h | ⟨d, -, -, h⟩ := m.register_cases e task peer doc g <;> rw [h] at quiet ⊢ <;>
      exact quiet (by simp) rfl rfl rfl rfl
  | handleFrame ht hc hp =>
    rename_i e task r b payload
    obtain ⟨-, h⟩ | ⟨m₁, reply, hf, h⟩ := m.handle_cases e task r b payload
    · rw [h] at quiet ⊢
      exact quiet (by simp) rfl rfl rfl rfl
    · rw [h] at quiet ⊢
      obtain ⟨rfl, -⟩ | ⟨_, _, d, ev, -, -, -, rfl, -⟩ := handleFrame_cases hf
      · exact quiet (by simp) rfl rfl rfl rfl
      · rw [commit_eq] at quiet ⊢
        exact quiet (by simp) rfl rfl rfl rfl
  | tryAnnounce ht hc hp =>
    rename_i e task r reply
    obtain ⟨-, h⟩ | ⟨c, -, -, h⟩ := m.announce_cases e task r reply <;> rw [h] at quiet ⊢ <;>
      exact quiet (by simp) rfl rfl rfl rfl
  | finishConnection ht hc hp =>
    rename_i e task r b
    obtain ⟨_, h⟩ := m.state.finishConnection_eq r.key r.generation
    exact quiet (by simp) rfl rfl (by simp [h]) (by simp [h])
  | fanPush hf hp hc =>
    rename_i i f frame target rest lag
    obtain h | ⟨task, -, -, -, h⟩ | ⟨task, -, -, h⟩ := m.trySend_cases i frame target <;>
      rw [h] at quiet ⊢ <;> exact quiet (by simp) rfl rfl rfl rfl
  | removeDialerEntry hl hp =>
    rename_i i l
    obtain ⟨_, h⟩ := m.state.removeDialerEntry_eq l.key l.generation
    rw [h] at quiet ⊢
    exact quiet (by simp) rfl rfl rfl rfl
  | dial hl hs => cases hs <;> exact quiet (by simp) rfl rfl rfl rfl
  | fan hf hs => cases hs <;> exact quiet (by simp) rfl rfl rfl rfl
  | _ => exact quiet (by simp) rfl rfl rfl rfl

/-- Where the calls other than effects come from: a caller was given them. -/
theorem Step.command {m m' : Manager D P} {a : Action P} (h : m.Step a m') {t : ThreadId}
    {c : Call} (hc : c ∈ m'.calls t) (he : c.isEffect = false)
    (hf : ∀ k g, c ≠ .forceClose k g) :
    c ∈ m.calls t ∨ ∃ i command, a = .invoke i command ∧ t = .caller i ∧
      m'.calls t = command.calls := by
  have hs := h.callStep t
  generalize m.calls t = cs at hs ⊢
  generalize hcs : m'.calls t = cs' at hs
  rw [hcs] at hc
  cases hs with
  | idle => exact .inl hc
  | invoked ht => exact .inr ⟨_, _, rfl, ht, rfl⟩
  | made =>
    obtain hc | hc := List.mem_append.mp hc
    · simp [m.perform_isEffect _ c hc] at he
    · exact .inl (List.mem_cons_of_mem _ hc)
  | given ht hn _ =>
    obtain h | ⟨k, g, rfl⟩ := hn c hc
    · simp [h] at he
    · exact absurd rfl (hf k g)

/-- A room is joined by the call that says so. -/
theorem Step.joins {m m' : Manager D P} {a : Action P} (h : m.Step a m') {n : String}
    (hn : n ∈ m'.state.joined) :
    n ∈ m.state.joined ∨ ∃ t cs, a = .call t ∧ m.calls t = .joinRoom n :: cs := by
  cases h.roomStep with
  | quiet hd hnx hj => exact .inl (hj ▸ hn)
  | created | removed => exact .inl hn
  | joined hc _ _ hj =>
    obtain rfl | hn := Finset.mem_insert.mp (hj ▸ hn)
    · exact .inr ⟨_, _, rfl, hc⟩
    · exact .inl hn
  | left hc _ hj => exact .inl (Finset.mem_of_mem_erase (hj ▸ hn))

omit [DecidableEq P] in
/-- A connection fetches its document once. -/
theorem ConnStep.doc {m : Manager D P} {e : EndId} {a : Action P} {o o' : Option (ConnTask P)}
    (h : m.ConnStep e a o o') {s : Scope} {d : DocId}
    (hd : o'.bind (·.phase.doc) = some (s, d)) :
    o.bind (·.phase.doc) = some (s, d) ∨ m.docs.get s = some d := by
  cases h with
  | idle | hungUp | queued => exact .inl hd
  | accepted | dialed | refused | finished => cases hd
  | moved hc hs => exact .inl (by simpa [hs.doc] using hd)
  | fetched hp =>
    refine .inr ?_
    simp only [Option.bind_some, Phase.doc, Option.map_eq_some_iff, Prod.mk.injEq] at hd
    obtain ⟨_, h, rfl, rfl⟩ := hd
    exact h
  | @handled _ _ announced _ _ reply hp hf =>
    clear hf
    refine .inl ?_
    cases announced <;> cases reply <;>
      simpa [hp, Phase.doc, Phase.registered, ConnTask.replyOrSelect] using hd
  | @announced _ _ reply _ hp =>
    refine .inl ?_
    cases reply <;> simpa [hp, Phase.doc, Phase.registered, ConnTask.replyOrSelect] using hd
  | entered hp | step1 hp | rejected hp | unannounced hp =>
    exact .inl (by simpa [hp, Phase.doc, Phase.registered, ConnTask.breakLoop] using hd)

omit [DecidableEq P] in
/-- A fan-out keeps its scope and its document. -/
theorem FanStep.doc {m : Manager D P} {i : TaskId} {a : Action P} {o o' : Option (FanOut P)}
    (h : m.FanStep i a o o') {f' : FanOut P} (hf : o' = some f') :
    (∃ f, o = some f ∧ f'.scope = f.scope ∧ f'.doc = f.doc) ∨
      ∃ t name cs, a = .call t ∧ i = m.spawned ∧ m.calls t = .joinRoom name :: cs ∧
        (Canonical name ∧ name ∉ m.state.joined) ∧
        f' = .spawn (.room name) (m.docs.getOrCreate (.room name)).2 := by
  cases h with
  | idle => exact .inl ⟨f', hf, rfl, rfl⟩
  | spawned hi hc hn =>
    cases hf
    exact .inr ⟨_, _, _, rfl, hi, hc, hn, rfl⟩
  | published =>
    cases hf
    exact .inl ⟨_, rfl, Commit.publishTo_doc _ _⟩
  | moved hs =>
    cases hf
    cases hs <;> exact .inl ⟨_, rfl, rfl, rfl⟩
  | cancelled | pushed =>
    cases hf
    exact .inl ⟨_, rfl, rfl, rfl⟩

omit [DecidableEq P] in
/-- A fan-out that was spawned stays, with its document. -/
theorem FanStep.keeps {m : Manager D P} {i : TaskId} {a : Action P} {o o' : Option (FanOut P)}
    (h : m.FanStep i a o o') {f : FanOut P} (hf : o = some f) (hi : i ≠ m.spawned) :
    ∃ f', o' = some f' ∧ f'.doc = f.doc := by
  subst hf
  cases h with
  | idle => exact ⟨f, rfl, rfl⟩
  | spawned hi' => exact absurd hi' hi
  | published => exact ⟨_, rfl, (Commit.publishTo_doc _ f).2⟩
  | moved hs => cases hs <;> exact ⟨_, rfl, rfl⟩
  | cancelled | pushed => exact ⟨_, rfl, rfl⟩

omit [Yrs D P] [DecidableEq P] in
/-- Document `d` exists and belongs to scope `s`, by the assignment `σ`. -/
def Belongs (m : Manager D P) (σ : DocId → Scope) (s : Scope) (d : DocId) : Prop :=
  d < m.docs.next ∧ σ d = s

omit [Yrs D P] [DecidableEq P] in
/-- An assignment of every document to the one scope it was created for. -/
structure Named (σ : DocId → Scope) (m : Manager D P) : Prop where
  set : ∀ s d, m.docs.get s = some d → m.Belongs σ s d
  conn : ∀ e s d, (m.conns e).bind (·.phase.doc) = some (s, d) → m.Belongs σ s d
  fan : ∀ i f, m.fans i = some f → m.Belongs σ f.scope f.doc

omit [Yrs D P] [DecidableEq P] in
theorem Belongs.mono {m m' : Manager D P} {σ σ' : DocId → Scope} {s : Scope} {d : DocId}
    (h : m.Belongs σ s d) (hn : m.docs.next ≤ m'.docs.next)
    (hσ : ∀ d < m.docs.next, σ' d = σ d) : m'.Belongs σ' s d :=
  ⟨lt_of_lt_of_le h.1 hn, (hσ d h.1).trans h.2⟩

omit [DecidableEq P] in
/-- The document `get_or_create` returns, and those it leaves alone, have a scope. -/
theorem Named.getOrCreate {σ : DocId → Scope} {m : Manager D P} (h : m.Named σ) (s : Scope) :
    ∃ σ' : DocId → Scope, (∀ d < m.docs.next, σ' d = σ d) ∧
      m.docs.next ≤ (m.docs.getOrCreate s).1.next ∧
      ∀ s' d, (m.docs.getOrCreate s).1.get s' = some d →
        d < (m.docs.getOrCreate s).1.next ∧ σ' d = s' := by
  obtain ⟨d, -, heq⟩ | ⟨hg, hd, hn⟩ := m.docs.getOrCreate_cases s
  · rw [heq]
    exact ⟨σ, fun _ _ => rfl, le_rfl, h.set⟩
  · have hle : m.docs.next ≤ (m.docs.getOrCreate s).1.next := hn ▸ Nat.le_succ _
    refine ⟨Function.update σ m.docs.next s, fun d hd => ?_, hle, fun s' d hs => ?_⟩
    · exact Function.update_of_ne (Nat.ne_of_lt hd) s σ
    · by_cases hss : s' = s
      · subst hss
        rw [Docs.getOrCreate_get, Option.some.injEq] at hs
        subst hs
        rw [hd, hn]
        exact ⟨Nat.lt_succ_self _, by simp⟩
      · rw [Docs.getOrCreate_get_ne _ hss] at hs
        obtain ⟨h1, h2⟩ := h.set s' d hs
        exact ⟨lt_of_lt_of_le h1 hle, by rw [Function.update_of_ne (Nat.ne_of_lt h1), h2]⟩

omit [DecidableEq P] in
theorem Named.joinRoom {σ : DocId → Scope} {m : Manager D P} (h : m.Named σ) (name : String) :
    ∃ σ', (m.joinRoom name).1.Named σ' := by
  obtain heq | ⟨-, -, heq, -⟩ := m.joinRoom_cases name
  · exact ⟨σ, by rwa [heq]⟩
  · obtain ⟨σ', hσ, hn, hset⟩ := h.getOrCreate (.room name)
    rw [heq]
    refine ⟨σ', hset, fun e s d hd => (h.conn e s d hd).mono hn hσ, fun i f hf => ?_⟩
    simp only [Function.update_apply] at hf
    split at hf
    · cases hf
      exact hset _ _ (Docs.getOrCreate_get _ _)
    · exact (h.fan i f hf).mono hn hσ

/-- A step names new documents and renames none. -/
theorem Named.step {σ : DocId → Scope} {m m' : Manager D P} {a : Action P} (h : m.Named σ)
    (hs : m.Step a m') : ∃ σ', m'.Named σ' ∧ ∀ d < m.docs.next, σ' d = σ d := by
  -- It is enough to name what the document set holds after the step.
  have enough {σ' : DocId → Scope} (hn : m.docs.next ≤ m'.docs.next)
      (hσ : ∀ d < m.docs.next, σ' d = σ d)
      (hset : ∀ s d, m'.docs.get s = some d → m'.Belongs σ' s d)
      (hnew : ∀ t name cs, a = .call t → m.calls t = .joinRoom name :: cs →
        Canonical name ∧ name ∉ m.state.joined →
        m'.Belongs σ' (.room name) (m.docs.getOrCreate (.room name)).2) :
      ∃ σ', m'.Named σ' ∧ ∀ d < m.docs.next, σ' d = σ d := by
    refine ⟨σ', ⟨hset, fun e s d hd => ?_, fun i f hf => ?_⟩, hσ⟩
    · obtain hd | hd := (hs.connStep e).doc hd
      · exact (h.conn e s d hd).mono hn hσ
      · exact (h.set s d hd).mono hn hσ
    · obtain ⟨f₀, hf₀, hsc, hdo⟩ | ⟨t, name, cs, ha, -, hc, hj, rfl⟩ := (hs.fanStep i).doc hf
      · rw [hsc, hdo]
        exact (h.fan i f₀ hf₀).mono hn hσ
      · exact hnew t name cs ha hc hj
  cases hs.roomStep with
  | quiet hd hn hj hf hc =>
    refine enough hn.ge (fun _ _ => rfl) (fun s d hg => ?_) fun t name cs ha hcs hj' =>
      absurd hj' ((hc t name cs ha).2 hcs)
    rw [Docs.get, hd] at hg
    exact (h.set s d hg).mono hn.ge fun _ _ => rfl
  | created hc =>
    rename_i t s cs
    obtain ⟨σ', hσ, hn, hset⟩ := h.getOrCreate s
    refine enough hn hσ hset fun t name cs ha hcs _ => ?_
    cases ha
    rw [hc] at hcs
    cases hcs
  | removed hc =>
    rename_i t s cs
    refine enough le_rfl (fun _ _ => rfl) (fun s' d hg => ?_) fun t name cs ha hcs _ => ?_
    · rw [Docs.get_remove] at hg
      split at hg
      · cases hg
      · exact h.set s' d hg
    · cases ha
      rw [hc] at hcs
      cases hcs
  | joined hc hn hd hj hf hfs hsp =>
    rename_i t name cs
    obtain ⟨σ', hσ, hn, hset⟩ := h.getOrCreate (.room name)
    rw [← hd] at hn hset
    refine enough hn hσ hset fun t name cs ha hcs _ => ?_
    cases ha
    rw [hc] at hcs
    cases hcs
    refine hset _ _ ?_
    rw [hd, Docs.getOrCreate_get]
  | left hc hd hj hf =>
    refine enough (by rw [hd]) (fun _ _ => rfl) (fun s d hg => ?_) fun t name cs ha hcs _ => ?_
    · rw [hd] at hg
      exact (h.set s d hg).mono (by rw [hd]) fun _ _ => rfl
    · cases ha
      rw [hc] at hcs
      cases hcs

theorem Reachable.named {device : DeviceInfo} {m : Manager D P}
    (h : (system D P device).Reachable m) : ∃ σ, m.Named σ := by
  refine h.invariant (I := fun m : Manager D P => ∃ σ, m.Named σ) ?_ fun m a m' _ hI hs => ?_
  · rintro m ⟨trust, rooms, rfl⟩
    refine new_induction (I := fun m : Manager D P => ∃ σ, m.Named σ) ?_ fun m name ⟨σ, h⟩ =>
      h.joinRoom name
    refine ⟨fun _ => .devices, fun s d hd => ?_, fun e s d hd => ?_, fun i f hf => ?_⟩
    · cases s with
      | devices =>
        cases hd
        exact ⟨Nat.zero_lt_one, rfl⟩
      | room n => cases hd
    · cases hd
    · simp only [spawnFanOut, setFan, initial, Function.update_apply] at hf
      split at hf <;> cases hf
      exact ⟨Nat.zero_lt_one, rfl⟩
  · obtain ⟨σ, hσ⟩ := hI
    obtain ⟨σ', h, -⟩ := hσ.step (step_cases hs)
    exact ⟨σ', h⟩

end Manager

end Yoink
