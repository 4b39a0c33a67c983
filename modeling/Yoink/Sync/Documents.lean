import Yoink.Sync.Rooms
import Yoink.Core.GrowSet

/-!
# The document of a live connection

A connection fetches its document before it takes the state lock, and the room it is for may
be left and joined again in between. As long as no registration enters such a stale
document, every entry's task works on the document the set holds for its scope, which is
the one the scope's fan-out is subscribed to.
-/

namespace Yoink

variable {D P : Type}

/-- The calls that decide which rooms have a document. -/
def Call.isRoom : Call → Bool
  | .joinRoom _ | .docsRemove _ => true
  | _ => false

theorem Command.calls_alone {command : Command} {n : String} {s : Scope}
    (hn : .joinRoom n ∈ command.calls) : .docsRemove s ∉ command.calls := by
  cases command <;> simp only [Command.calls] at hn ⊢ <;> try split at hn
  all_goals simp_all

theorem Command.calls_removal {command : Command} {n : String}
    (h : .docsRemove (.room n) ∈ command.calls) :
    command.calls.head? = some (.leaveRoom n) := by
  cases command <;> simp only [Command.calls] at h ⊢ <;> try split at h
  all_goals simp_all

namespace Manager

/-- Rooms are joined, and their documents dropped, by the app's one command loop. -/
def AppDriven : Action P → Bool
  | .invoke _ (.joinRoom _) => false
  | .invoke i (.appJoinRoom _) | .invoke i (.appLeaveRoom _) => i = 0
  | _ => true

theorem AppDriven.caller {i : Nat} {command : Command}
    (h : AppDriven (P := P) (.invoke i command) = true) {c : Call} (hc : c ∈ command.calls)
    (hr : c.isRoom = true) : i = 0 := by
  cases command with
  | appJoinRoom | appLeaveRoom => simpa [AppDriven] using h
  | joinRoom => cases h
  | _ =>
    obtain rfl := List.mem_singleton.mp hc
    cases hr

/-- A registration that is accepted finds its document still current. -/
def EntersCurrent (m : Manager D P) : Action P → Bool
  | .register e =>
    match (m.conns e).map ConnTask.phase with
    | some (.fetched peer (some doc) _) =>
      !m.state.accepts peer.key || decide (m.docs.get peer.scope = some doc)
    | _ => true
  | _ => true

/-- Every synced scope has a document and a fan-out subscribed to it. -/
structure Subscribed (m : Manager D P) : Prop where
  current : ∀ s, m.state.Synced s → ∃ d i f, m.docs.get s = some d ∧
    m.state.fanOuts.lookup s = some i ∧ m.fans i = some f ∧ f.doc = d
  spawned : ∀ s i, m.state.fanOuts.lookup s = some i → i < m.spawned

/-- Who may join rooms and drop their documents, and when. -/
structure RoomsOwned (m : Manager D P) : Prop where
  caller : ∀ t c, c ∈ m.calls t → c.isRoom = true → t = .caller 0
  alone : ∀ n s, .joinRoom n ∈ m.calls (.caller 0) → .docsRemove s ∉ m.calls (.caller 0)
  /-- A document is dropped after its room was left. -/
  removal : ∀ t n, .docsRemove (.room n) ∈ m.calls t → n ∈ m.state.joined →
    (m.calls t).head? = some (.leaveRoom n)

section RoomsOwned

variable [Yrs D P] {m m' : Manager D P} {a : Action P}

theorem Subscribed.join (h : m.Subscribed) {name : String}
    (hd : m'.docs = (m.docs.getOrCreate (.room name)).1)
    (hj : m'.state.joined = insert name m.state.joined)
    (hf : m'.state.fanOuts = m.state.fanOuts.insert (.room name) m.spawned)
    (hfs : m'.fans = Function.update m.fans m.spawned
      (some (.spawn (.room name) (m.docs.getOrCreate (.room name)).2)))
    (hsp : m'.spawned = m.spawned + 1) : m'.Subscribed where
  current s hs := by
    by_cases hsn : s = .room name
    · subst hsn
      refine ⟨_, m.spawned, .spawn (.room name) (m.docs.getOrCreate (.room name)).2,
        ?_, ?_, ?_, rfl⟩
      · rw [hd, Docs.getOrCreate_get]
        rfl
      · rw [hf, AList.lookup_insert]
      · rw [hfs, Function.update_self]
    · have hs' : m.state.Synced s := by
        cases s with
        | devices => trivial
        | room n =>
          have hmem : n ∈ insert name m.state.joined := hj ▸ hs
          exact (Finset.mem_insert.mp hmem).resolve_left fun hn => hsn (by rw [hn])
      obtain ⟨d, i, f, hg, hi, hfi, hdoc⟩ := h.current s hs'
      refine ⟨d, i, f, ?_, ?_, ?_, hdoc⟩
      · rw [hd]
        exact Docs.getOrCreate_get_of_some _ hg
      · rwa [hf, AList.lookup_insert_ne hsn]
      · rwa [hfs, Function.update_of_ne (Nat.ne_of_lt (h.spawned s i hi))]
  spawned s i hi := by
    rw [hsp]
    rw [hf, FinMap.lookup_insert_ite] at hi
    split at hi
    · cases hi
      exact Nat.lt_succ_self _
    · exact Nat.lt_succ_of_lt (h.spawned s i hi)

theorem Subscribed.new (device : DeviceInfo) (trust : TrustSettings) (rooms : List String) :
    (Manager.new device trust rooms : Manager D P).Subscribed := by
  refine new_induction ⟨fun s hs => ?_, fun s i hi => ?_⟩ fun m name h => ?_
  · cases s with
    | devices => exact ⟨0, 0, .spawn .devices 0, rfl, rfl, rfl, rfl⟩
    | room n => simp [State.Synced, spawnFanOut, initial] at hs
  · simp only [spawnFanOut, initial, FinMap.lookup_insert_ite] at hi
    split at hi
    · cases hi
      exact Nat.zero_lt_one
    · cases hi
  · obtain heq | ⟨-, -, heq, -⟩ := m.joinRoom_cases name
    · rwa [heq]
    · rw [heq]
      exact h.join rfl rfl rfl rfl rfl

variable [DecidableEq P]

/-- A synced scope keeps its document. -/
theorem RoomsOwned.get_keeps (h : m.RoomsOwned) (hs : m.Step a m') {s : Scope} {d : DocId}
    (hd : m.docs.get s = some d) (hj : m.state.Synced s) : m'.docs.get s = some d := by
  cases hs.roomStep with
  | quiet hset => rwa [Docs.get, hset]
  | created => exact Docs.getOrCreate_get_of_some _ hd
  | joined _ _ hdocs =>
    rw [hdocs]
    exact Docs.getOrCreate_get_of_some _ hd
  | left _ hdocs => rwa [hdocs]
  | @removed t s₀ cs hc =>
    rw [Docs.get_remove, if_neg]
    · exact hd
    · rintro ⟨rfl, hne⟩
      cases s with
      | devices => exact hne rfl
      | room n =>
        have := h.removal t n (by simp [hc]) hj
        simp [hc] at this

theorem Subscribed.step (h : m.Subscribed) (hr : m.RoomsOwned) (hs : m.Step a m') :
    m'.Subscribed := by
  -- A fan-out that had its handle before the step keeps it and its document.
  have kept {s : Scope} (hj : m.state.Synced s)
      (hf : m'.state.fanOuts.lookup s = m.state.fanOuts.lookup s) :
      ∃ d i f, m'.docs.get s = some d ∧ m'.state.fanOuts.lookup s = some i ∧
        m'.fans i = some f ∧ f.doc = d := by
    obtain ⟨d, i, f, hd, hi, hfi, hdoc⟩ := h.current s hj
    obtain ⟨f', hf', hdoc'⟩ := (hs.fanStep i).keeps hfi (Nat.ne_of_lt (h.spawned s i hi))
    exact ⟨d, i, f', hr.get_keeps hs hd hj, hf.trans hi, hf', hdoc'.trans hdoc⟩
  have same (hj : m'.state.joined = m.state.joined)
      (hf : m'.state.fanOuts = m.state.fanOuts) : m'.Subscribed := by
    refine ⟨fun s hs' => kept ?_ (by rw [hf]), fun s i hi => ?_⟩
    · cases s with
      | devices => trivial
      | room n => simpa [State.Synced, hj] using hs'
    · exact lt_of_lt_of_le (h.spawned s i (hf ▸ hi)) hs.spawned_le
  cases hs.roomStep with
  | quiet _ _ hj hf => exact same hj hf
  | created | removed => exact same rfl rfl
  | joined _ _ hd hj hf hfs hsp => exact h.join hd hj hf hfs hsp
  | @left t name cs _ hc hd hj hf =>
    refine ⟨fun s hs' => ?_, fun s i hi => ?_⟩
    · have hsn : ¬ (name ∈ m.state.joined ∧ s = .room name) := by
        rintro ⟨-, rfl⟩
        simp [State.Synced, hj] at hs'
      refine kept ?_ (by rw [hf, if_neg hsn])
      cases s with
      | devices => trivial
      | room n =>
        have hmem : n ∈ m.state.joined.erase name := hj ▸ hs'
        exact Finset.mem_of_mem_erase hmem
    · rw [hf] at hi
      split at hi
      · cases hi
      · exact lt_of_lt_of_le (h.spawned s i hi) hs.spawned_le

theorem RoomsOwned.step (h : m.RoomsOwned) (hs : m.Step a m') (ha : AppDriven a = true) :
    m'.RoomsOwned where
  caller t c hc hr := by
    have he : c.isEffect = false ∧ ∀ k g, c ≠ .forceClose k g := by
      cases c <;> simp_all [Call.isRoom, Call.isEffect]
    obtain hc | ⟨i, command, rfl, rfl, heq⟩ := hs.command hc he.1 he.2
    · exact h.caller t c hc hr
    · rw [AppDriven.caller ha (heq ▸ hc) hr]
  alone n s hn hd := by
    obtain hn' | ⟨i, command, rfl, -, heq⟩ := hs.command hn rfl (by simp)
    · obtain hd' | ⟨i, command, rfl, -, heq⟩ := hs.command hd rfl (by simp)
      · exact h.alone n s hn' hd'
      · exact Command.calls_alone (heq ▸ hn) (heq ▸ hd)
    · exact Command.calls_alone (heq ▸ hn) (heq ▸ hd)
  removal t n hd hj := by
    obtain hd' | ⟨i, command, rfl, -, heq⟩ := hs.command hd rfl (by simp)
    · have ht := h.caller t _ hd' rfl
      obtain hj' | ⟨t', cs, rfl, hc⟩ := hs.joins hj
      · -- The room was joined before: only its `leave_room` stands before the removal.
        have hhead := h.removal t n hd' hj'
        obtain ⟨c, cs, hc⟩ := List.exists_cons_of_ne_nil (List.ne_nil_of_mem hd')
        obtain rfl : c = .leaveRoom n := by simpa [hc] using hhead
        have hstep := hs.callStep t
        rw [hc] at hstep
        generalize hcs : m'.calls t = cs' at hstep
        cases hstep with
        | idle => rfl
        | made =>
          cases hs.roomStep with
          | quiet _ _ _ _ hq => exact absurd hc (hq t n cs rfl).1
          | left hc' _ hj₁ =>
            rw [hc] at hc'
            cases hc'
            simp [hj₁] at hj
          | created hc' | removed hc' | joined hc' =>
            rw [hc] at hc'
            cases hc'
      · -- The room is joined by this step, by the thread that has the removal to do.
        have hn : .joinRoom n ∈ m.calls t' := by simp [hc]
        rw [h.caller t' _ hn rfl] at hn
        rw [ht] at hd'
        exact absurd hd' (h.alone n _ hn)
    · exact heq ▸ Command.calls_removal (heq ▸ hd)

/-- Every entry's task works on the document its scope has. -/
def EntriesCurrent (m : Manager D P) : Prop :=
  ∀ k c r, m.state.connections.lookup k = some c → m.registered c.task = some r →
    m.docs.get k.2 = some r.doc

theorem EntriesCurrent.step (h : m.EntriesCurrent) (ho : m.Owned) (hr : m.RoomsOwned)
    (hs : m.Step a m') (hc : m.EntersCurrent a = true) : m'.EntriesCurrent := by
  intro k c r hl hreg
  obtain ⟨c₀, hl₀, -, -, -, hr₀⟩ | ⟨e, t, peer, doc, g, rfl, ht, hp, ha, rfl, rfl, rfl⟩ :=
    hs.entry ho.conns.exact hl hreg
  · exact hr.get_keeps hs (h k c₀ r hl₀ hr₀)
      (State.synced_of_accepts (ho.admitted.connections k (by simp [hl₀])))
  · have hd : m.docs.get peer.scope = some doc := by simpa [EntersCurrent, ht, hp, ha] using hc
    exact hr.get_keeps hs hd (State.synced_of_accepts ha)

end RoomsOwned

section Current

variable [Yrs D P] [DecidableEq P] {device : DeviceInfo} {m : Manager D P}

/-- The runs in which rooms come and go through the app. -/
def appSystem (D P : Type) [Yrs D P] [DecidableEq P] (device : DeviceInfo) :
    System (Manager D P) (Action P) :=
  (system D P device).restrict fun _ a _ => AppDriven a

theorem Reachable.roomsOwned (h : (appSystem D P device).Reachable m) :
    m.RoomsOwned ∧ m.Subscribed := by
  refine System.Reachable.invariant (S := appSystem D P device)
    (I := fun m => m.RoomsOwned ∧ m.Subscribed) ?_ (fun m a m' _ hI hs => ?_) h
  swap
  · exact ⟨hI.1.step (step_cases hs.1) hs.2, hI.2.step hI.1 (step_cases hs.1)⟩
  rintro m ⟨trust, rooms, rfl⟩
  refine ⟨?_, .new device trust rooms⟩
  constructor <;> simp [(new_bare device trust rooms).calls]

/-- The runs in which no registration enters a stale document either. -/
def currentSystem (D P : Type) [Yrs D P] [DecidableEq P] (device : DeviceInfo) :
    System (Manager D P) (Action P) :=
  (appSystem D P device).restrict fun m a _ => m.EntersCurrent a = true

theorem Reachable.entriesCurrent (h : (currentSystem D P device).Reachable m) :
    m.EntriesCurrent := by
  refine System.Reachable.invariant (S := currentSystem D P device) (I := EntriesCurrent) ?_
    (fun m a m' hr hI hs => ?_) h
  · rintro m ⟨trust, rooms, rfl⟩ k c r hl
    simp [(new_bare device trust rooms).connections] at hl
  · have hr : (appSystem D P device).Reachable m := hr.of_restrict
    exact EntriesCurrent.step hI (Reachable.owned hr.of_restrict) (Reachable.roomsOwned hr).1
      (step_cases hs.1.1) hs.2

/-- While no registration enters a stale document, live connections use the current one. -/
theorem connections_current
    (h : ((appSystem D P device).restrict fun m a _ => m.EntersCurrent a = true).Reachable m)
    {k : ConnKey} {c : ConnectionHandle} (hc : m.state.connections.lookup k = some c) :
    ∃ t r i f, m.conns c.task = some t ∧ t.phase.registered = some r ∧ r.key = k ∧
      m.docs.get k.2 = some r.doc ∧ m.state.fanOuts.lookup k.2 = some i ∧
      m.fans i = some f ∧ f.doc = r.doc := by
  have hcur := Reachable.entriesCurrent h
  have ho := Reachable.owned h.of_restrict.of_restrict
  have hkey := ho.conns.exact.key_of_holder (holder_eq_some.mpr ⟨c, hc, rfl⟩)
  obtain ⟨r, hreg, rfl⟩ := Option.map_eq_some_iff.mp hkey
  obtain ⟨t, ht, hph⟩ := Option.bind_eq_some_iff.mp hreg
  have hdoc := hcur r.key c r hc hreg
  have hsync := State.synced_of_accepts (ho.admitted.connections r.key (by simp [hc]))
  obtain ⟨d, i, f, hd, hi, hf, hfd⟩ := (Reachable.roomsOwned h.of_restrict).2.current _ hsync
  rw [hdoc] at hd
  cases hd
  exact ⟨t, r, i, f, ht, hph, rfl, hdoc, hi, hf, hfd⟩

/-- An inbound connection fetches the room's document, the app leaves the room and joins it
again, and the connection registers with the document that was dropped. -/
theorem stale_document_enters :
    ∃ (m : Manager GrowSet GrowSet) (k : ConnKey) (c : ConnectionHandle)
      (t : ConnTask GrowSet) (r : Registered),
      (appSystem GrowSet GrowSet ⟨"a", "A"⟩).Reachable m ∧
        m.state.connections.lookup k = some c ∧ m.conns c.task = some t ∧
        t.phase.registered = some r ∧ m.docs.get k.2 ≠ some r.doc := by
  let e : EndId := ⟨0, false⟩
  let key : ConnKey := ("b", .room "r")
  let acts : List (Action GrowSet) :=
    [.handleInbound e, .conn e (.recv (.frame (some (.hello ⟨"b", "B", 2, .room "r"⟩)))),
      .conn e (.sendHello ⟨"a", "A", 2, .room "r"⟩), .fetchDoc e,
      .invoke 0 (.appLeaveRoom "r"), .call (.caller 0), .call (.caller 0), .call (.caller 0),
      .invoke 0 (.appJoinRoom "r"), .call (.caller 0), .call (.caller 0), .register e]
  obtain ⟨m, hm, hp⟩ := System.exists_of_exec
    (show (System.exec Manager.step (.new ⟨"a", "A"⟩ ⟨false, ∅, ∅⟩ ["r"] : Manager GrowSet GrowSet)
      acts).any (fun m => (m.state.connections.lookup key).any fun c => (m.conns c.task).any
        fun t => t.phase.registered.any fun r => decide (m.docs.get key.2 ≠ some r.doc)) = true
      by decide +kernel)
  have hacts : ∀ a ∈ acts, AppDriven a = true := by decide
  simp only [Option.any_eq_true, decide_eq_true_eq] at hp
  obtain ⟨c, hc, t, ht, r, hr, hne⟩ := hp
  have hrun := (run_of_exec hm).to_restrict (C := fun _ a _ => AppDriven a = true)
    fun t ht => hacts _ (System.act_mem_of_mem_trace ht)
  exact ⟨m, key, c, t, r, hrun.reachable, hc, ht, hr, hne⟩

/-- An inbound connection enters a room that was joined at the start. -/
theorem connections_current_inbound :
    ∃ (m : Manager GrowSet GrowSet) (c : ConnectionHandle) (r : Registered),
      m.state.connections.lookup ("b", .room "r") = some c ∧
        m.registered c.task = some r ∧ m.docs.get (.room "r") = some r.doc := by
  let e : EndId := ⟨0, false⟩
  let start : Manager GrowSet GrowSet := .new ⟨"a", "A"⟩ ⟨false, ∅, ∅⟩ ["r"]
  let acts : List (Action GrowSet) :=
    [.handleInbound e, .conn e (.recv (.frame (some (.hello ⟨"b", "B", 2, .room "r"⟩)))),
      .conn e (.sendHello ⟨"a", "A", 2, .room "r"⟩), .fetchDoc e, .register e]
  obtain ⟨m, hm, hp⟩ := System.exists_of_exec
    (show (System.exec Manager.step start acts).any
      (fun m => (m.state.connections.lookup ("b", .room "r")).isSome) = true by decide +kernel)
  have hcond : ∀ t ∈ System.trace Manager.step start acts,
      AppDriven t.act = true ∧ t.pre.EntersCurrent t.act = true := by
    have h : (System.trace Manager.step start acts).all
        (fun t => AppDriven t.act && t.pre.EntersCurrent t.act) = true := by decide +kernel
    simpa using h
  have hrun := ((run_of_exec hm).to_restrict (C := fun _ a _ => AppDriven a = true)
    fun t ht => (hcond t ht).1).to_restrict (C := fun m a _ => m.EntersCurrent a = true)
      fun t ht => (hcond t ht).2
  obtain ⟨c, hc⟩ := Option.isSome_iff_exists.mp hp
  obtain ⟨t, r, -, -, ht, hr, -, hd, -⟩ := connections_current hrun.reachable hc
  exact ⟨m, c, r, hc, by simp [registered, ht, hr], hd⟩

end Current

end Manager

end Yoink
