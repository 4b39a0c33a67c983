import Yoink.App.Backend
import Yoink.App.Posture
import Yoink.Sync.Sessions

/-!
# What the pages are told

`Sound.tells` is what the pages can rely on: whatever they show changes only if they are going to be
told, or if something is on its way to the loop that will make it tell them (an update of a
document, the report of a connection), and nothing on its way is dropped before.
-/

namespace Yoink

variable {D P : Type}

/-- Applying an update changes no history without an update event. -/
def SilentApply (D : Type) {P : Type} [Yrs D P] [Entries D] : Prop :=
  ∀ (d d' : D) (u : P), Yrs.applyUpdate d u = some (d', none) →
    Entries.entries d' = Entries.entries d

/-- The scope of the connection an event reports. -/
def SyncEvent.scope : SyncEvent → Scope
  | .peerConnected _ _ s | .peerDisconnected _ s => s

namespace Backend

section Reporting

/-- A report about a connection of the scope is on its way to the loop, which has taken `n`. -/
def Reporting (m : Manager D P) (n : Nat) (s : Scope) : Prop :=
  (∃ event ∈ m.events.drop n, event.scope = s) ∨ ∃ d t, m.owed (d, s) t ≠ 0

variable [Yrs D P] [DecidableEq P] {m m' : Manager D P} {a : Action P} {n : Nat} {s : Scope}

omit [Yrs D P] [DecidableEq P] in
theorem reporting_of_report {events : List SyncEvent} (hev : m'.events = m.events ++ events)
    (hn : n ≤ m.events.length) {d : DeviceId}
    (h : (m'.reports (d, s)).length ≠ (m.reports (d, s)).length) : Reporting m' n s := by
  have hrep : m'.reports (d, s) = m.reports (d, s) ++ events.filterMap (·.session (d, s)) := by
    rw [Manager.reports, hev, List.filterMap_append, Manager.reports]
  have hne : events.filterMap (·.session (d, s)) ≠ [] := by
    intro hnil
    rw [hrep, hnil, List.append_nil] at h
    exact h rfl
  obtain ⟨b, hb⟩ := List.exists_mem_of_ne_nil _ hne
  obtain ⟨event, hmem, hevent⟩ := List.mem_filterMap.mp hb
  refine .inl ⟨event, ?_, ?_⟩
  · rw [hev, List.drop_append_of_le_length hn]
    exact List.mem_append_right _ hmem
  · cases event <;> simp_all [SyncEvent.session, SyncEvent.scope]

/-- A report that is on its way stays so. -/
theorem Reporting.step (h : Reporting m n s) (hs : m.Step a m')
    (ho : m.OwesDisconnects) (hn : n ≤ m.events.length) : Reporting m' n s := by
  obtain ⟨events, hev⟩ := hs.events
  obtain ⟨event, hmem, hscope⟩ | ⟨d, t, howed⟩ := h
  · refine .inl ⟨event, ?_, hscope⟩
    rw [hev, List.drop_append_of_le_length hn]
    exact List.mem_append_left _ hmem
  · cases hs.sessionStep ho (d, s) with
    | quiet _ _ hw | announced _ _ _ _ _ _ hw => exact .inr ⟨d, t, by rwa [hw]⟩
    | @ended _ _ t' _ _ _ hw =>
      refine .inr ⟨d, t, ?_⟩
      rw [hw, Function.update_apply]
      split
      · exact Nat.succ_ne_zero _
      · exact howed
    | reported _ hr =>
      refine reporting_of_report hev hn (d := d) ?_
      rw [hr, List.length_append, List.length_singleton]
      omega

/-- The connections of a scope change only with a report. -/
theorem connected_step (hs : m.Step a m') (ho : m.OwesDisconnects) (hn : n ≤ m.events.length)
    (s : Scope) : Reporting m' n s ∨ m'.state.connected s = m.state.connected s := by
  by_cases hall : ∀ d, m'.state.announced (d, s) = m.state.announced (d, s)
  · refine .inr (Finset.ext fun d => ?_)
    rw [State.mem_connected, State.mem_connected, hall]
  · obtain ⟨d, hd⟩ := not_forall.mp hall
    cases hs.sessionStep ho (d, s) with
    | quiet ha | reported ha => exact absurd ha hd
    | @ended _ _ t _ _ _ hw => exact .inl (.inr ⟨d, t, by simp [hw]⟩)
    | announced _ _ _ _ _ hev =>
      refine .inl (reporting_of_report hev hn (d := d) ?_)
      simp [Manager.reports, hev, SyncEvent.session]

end Reporting

section Tells

/-- An update of the scope's document is on its way to the loop. -/
def UpdatesPending (b : Backend D P) (s : Scope) : Prop :=
  (∃ i f, b.handles s = some i ∧ b.forwarders i = some f ∧
    (f.updates.pending = true ∨ ∃ event, f.holding = some event ∧ event.Concerns s)) ∨
  ∃ event ∈ b.docEvents, event.Concerns s

/-- A report about a connection of the scope is. -/
def ReportsPending (b : Backend D P) (s : Scope) : Prop := Reporting b.inst.sync b.inst.taken s

/-- The history that is shown of a scope. -/
def history [Entries D] (b : Backend D P) (s : Scope) : List ClipEntry :=
  (b.inst.sync.docs.view.get s).getD []

/-- What is shown changes only if the pages are going to be told, or something that is on its way
will make the loop tell them; and neither ends before they are told. -/
structure Tells [Entries D] (b b' : Backend D P) : Prop where
  notice : b.notice ≠ .none → b'.notice ≠ .none
  updates : ∀ s, b.UpdatesPending s → b'.notice ≠ .none ∨ b'.UpdatesPending s
  reports : ∀ s, b.ReportsPending s → b'.notice ≠ .none ∨ b'.ReportsPending s
  shared : b'.notice ≠ .none ∨ (b'.inst.app.peers = b.inst.app.peers ∧
    b'.inst.app.joinedRooms = b.inst.app.joinedRooms ∧ b'.settings = b.settings ∧
    b'.inst.sync.state.trust = b.inst.sync.state.trust ∧
    ∀ s, b'.inst.sync.docs.get s = b.inst.sync.docs.get s)
  history : ∀ s, b'.notice ≠ .none ∨ b'.UpdatesPending s ∨ b'.history s = b.history s
  connected : ∀ s, b'.notice ≠ .none ∨ b'.ReportsPending s ∨
    b'.inst.sync.state.connected s = b.inst.sync.state.connected s
  model : b'.inst.sync.state.requirePairing = b.inst.sync.state.requirePairing

theorem view_get [Entries D] (docs : Docs D) (s : Scope) :
    docs.view.get s = (docs.get s).map fun d => Entries.entries (docs.heap d) := by
  cases s with
  | devices => simp [Docs.view, DocsView.get, Docs.get, DocSet.get_devices]
  | room name => rfl

theorem history_eq [Entries D] (b : Backend D P) (s : Scope) :
    b.history s = ((b.inst.sync.docs.get s).map
      fun d => Entries.entries (b.inst.sync.docs.heap d)).getD [] := by
  rw [history, view_get]

/-- While a handler is going to notify, that accounts for everything. -/
theorem tells_of_notice [Entries D] {b b' : Backend D P} (h : b'.notice ≠ .none)
    (hm : b'.inst.sync.state.requirePairing = b.inst.sync.state.requirePairing) : b.Tells b' :=
  ⟨fun _ => h, fun _ _ => .inl h, fun _ _ => .inl h, .inl h, fun _ => .inl h, fun _ => .inl h, hm⟩

variable {b b' : Backend D P}

/-- A transaction only adds to what is on its way. -/
theorem UpdatesPending.hear {s : Scope} (h : b.UpdatesPending s)
    (c : Option (Manager.Commit D P)) : (b.hear c).UpdatesPending s := by
  cases c with
  | none => exact h
  | some c =>
    obtain ⟨i, f, hi, hf, hp⟩ | hmem := h
    · refine .inl ⟨i, f.hear c, hi, by simp [Backend.hear, hf], ?_⟩
      rw [(f.hear_fields c).2.2.2]
      refine hp.imp_left fun hp => ?_
      unfold Forwarder.hear
      split
      · split
        · simp
        · exact hp
      · exact hp
    · exact .inr hmem

/-- A transaction with an update is on its way to the loop. -/
theorem Wired.updatesPending (h : b.Wired) {s : Scope} {c : Manager.Commit D P}
    (hd : b.inst.sync.docs.get s = some c.doc) {u : P} (hu : c.update = some u) :
    (b.hear (some c)).UpdatesPending s := by
  obtain ⟨i, hi⟩ := Option.isSome_iff_exists.mp (h.doc s (by simp [hd]))
  obtain ⟨-, f, hf, -, -, hdoc⟩ := h.handle s i hi
  have heq : f.doc = c.doc := Option.some.inj (hdoc.symm.trans hd)
  refine .inl ⟨i, f.hear c, hi, by simp [Backend.hear, hf], .inl ?_⟩
  simp [Forwarder.hear, hu, heq]

theorem UpdatesPending.setForwarder {s : Scope} (h : b.UpdatesPending s) {i : TaskId}
    {f : Forwarder P} (hf : b.forwarders i = some f) {o : Option (Forwarder P)}
    (ho : b.handles s = some i →
      (f.updates.pending = true ∨ ∃ event, f.holding = some event ∧ event.Concerns s) →
      ∃ f', o = some f' ∧
        (f'.updates.pending = true ∨ ∃ event, f'.holding = some event ∧ event.Concerns s)) :
    (b.setForwarder i o).UpdatesPending s := by
  obtain ⟨j, g, hj, hg, hp⟩ | hmem := h
  · by_cases hij : j = i
    · subst hij
      obtain rfl := Option.some.inj (hg.symm.trans hf)
      obtain ⟨f', rfl, hp'⟩ := ho hj hp
      exact .inl ⟨j, f', hj, Function.update_self _ _ _, hp'⟩
    · exact .inl ⟨j, g, hj, (Function.update_of_ne hij _ _).trans hg, hp⟩
  · exact .inr hmem

variable [Yrs D P] [Entries D] [DecidableEq P]

/-- The trust model is chosen at startup. -/
theorem Step.model {a : Act P} (hs : b.Step a b') :
    b'.inst.sync.state.requirePairing = b.inst.sync.state.requirePairing := by
  cases hs with
  | @handle env event inst hn hoff hi =>
    cases Instance.step_cases hi with
    | handle => cases (b.inst.react env event).command <;> rfl
  | @sync a inst hi =>
    cases Instance.step_cases hi with
    | sync ha hm => exact (Manager.step_cases hm).model
  | _ => rfl

/-- A handler that is not going to notify changes nothing that is shown. -/
theorem Step.tells_handle {env : Env} {event : Event P}
    (hs : b.Step (.handle env event) b') : b.Tells b' := by
  have hmodel := hs.model
  cases hs with
  | @handle _ _ inst hn hoff hi =>
    by_cases hnot : b.inst.app.notifies event = true
    · exact tells_of_notice (by simp [hnot]) hmodel
    · have hquiet : b.inst.app.notifies event = false := by simpa using hnot
      obtain ⟨hpeers, hjoined, -⟩ := b.inst.app.handle_unnotified b.inst.sync.docs.view
        b.inst.sync.view env hquiet
      have hpeers : (b.inst.react env event).app.peers = b.inst.app.peers := hpeers
      have hjoined : (b.inst.react env event).app.joinedRooms = b.inst.app.joinedRooms := hjoined
      cases Instance.step_cases hi with
      | handle hidle hdel =>
        have htaken : b.inst.takenAfter event = b.inst.taken := by
          cases event <;> first | rfl | cases hquiet
        have hevents : b.docEventsAfter event = b.docEvents := by
          cases event <;> first | rfl | cases hquiet
        generalize hr : b.inst.react env event = r at *
        have hcalls : b.inst.sync.calls (.caller 0) = [] := hidle
        have hshared : (b.inst.sync.request r.command).docs = b.inst.sync.docs ∧
            (b.inst.sync.request r.command).state = b.inst.sync.state ∧
            (b.inst.sync.request r.command).events = b.inst.sync.events ∧
            ∀ k t, b.inst.sync.owed k t ≠ 0 →
              (b.inst.sync.request r.command).owed k t ≠ 0 := by
          cases r.command with
          | none => exact ⟨rfl, rfl, rfl, fun _ _ => id⟩
          | some command =>
            refine ⟨rfl, rfl, rfl, fun k t howed => ?_⟩
            have ht : t ≠ .caller 0 := by
              rintro rfl
              simp [Manager.owed, hcalls] at howed
            simpa [Manager.owed, Manager.request, Function.update_of_ne ht] using howed
        obtain ⟨hdocs, hstate, hev, howed⟩ := hshared
        refine ⟨fun hne => absurd hn hne, fun s hp => .inr ?_, fun s hp => .inr ?_, .inr ?_,
          fun s => .inr (.inr ?_), fun s => .inr (.inr ?_), hmodel⟩
        · simpa only [UpdatesPending, hevents] using hp
        · simp only [ReportsPending, Reporting, htaken, hev] at hp ⊢
          obtain hp | ⟨d, t, ho⟩ := hp
          · exact .inl hp
          · exact .inr ⟨d, t, howed _ t ho⟩
        · refine ⟨hpeers, hjoined, rfl, ?_, fun s => ?_⟩
          · simp only [hstate]
          · simp only [hdocs]
        · simp only [history_eq, hdocs]
        · simp only [hstate]

/-- A task of the manager changes nothing that is shown without a word. -/
theorem Sound.tells_sync (h : b.Sound) (hlaw : SilentApply D) (ho : b.inst.sync.AppOnly)
    (hw : b.inst.sync.OwesDisconnects) {σ : DocId → Scope} (hσ : b.inst.sync.Named σ)
    {a : Action P} (hs : b.Step (.sync a) b') : b.Tells b' := by
  have hmodel := hs.model
  cases hs with
  | @sync _ inst hi =>
    by_cases hn : b.notice = .none
    swap
    · exact tells_of_notice (by simpa using hn) hmodel
    cases Instance.step_cases hi with
    | @sync _ m ha hm =>
      have hstep := Manager.step_cases hm
      -- The app loop makes no call but to add an entry.
      have hcall (c : Call) (cs : List Call) (t : ThreadId) (hact : a = .call t)
          (hc : b.inst.sync.calls t = c :: cs) : (∃ s e, c = .addEntry s e) ∨
            c.isEffect = true ∨ ∃ k g, c = .forceClose k g := by
        by_cases ht : t = .caller 0
        · subst ht
          obtain hidle | ⟨s, e, hadd⟩ := h.calls hn
          · rw [Instance.Idle, hc] at hidle
            cases hidle
          · exact .inl ⟨s, e, (List.cons.inj (hc.symm.trans hadd)).1⟩
        · exact .inr (ho t ht c (by rw [hc]; exact List.mem_cons_self))
      have hrewire (b₀ : Backend D P) : b₀.rewire (appCall b.inst.sync a) = b₀ := by
        by_cases hact : a = .call (.caller 0)
        · subst hact
          obtain ⟨c, cs, hc, -⟩ := hstep.of_call
          have happ : appCall b.inst.sync (.call (.caller 0)) = some c := by simp [appCall, hc]
          rw [happ]
          obtain ⟨s, e, rfl⟩ | he | ⟨k, g, rfl⟩ := hcall c cs _ rfl hc
          · rfl
          · cases c <;> first | rfl | cases he
          · rfl
        · rw [appCall_of_ne hact]
          rfl
      have htrust : m.state.trust = b.inst.sync.state.trust := by
        obtain ht | ⟨t, d, v, cs, hact, hc, -⟩ := hstep.trust
        · exact ht
        · obtain ⟨_, _, he⟩ | he | ⟨_, _, he⟩ := hcall _ cs t hact hc <;> cases he
      have hget (s : Scope) : m.docs.get s = b.inst.sync.docs.get s := by
        by_cases hact : a = .call (.caller 0)
        · subst hact
          obtain ⟨c, cs, hc, rfl⟩ := hstep.of_call
          have hc := hcall c cs _ rfl hc
          refine perform_docs_get ?_ ?_ ?_ s
          all_goals
            rintro _ rfl
            obtain ⟨_, _, he⟩ | he | ⟨_, _, he⟩ := hc <;> cases he
        · rw [Docs.get, hstep.docs_set ho hact, Docs.get]
      rw [hrewire] at hmodel ⊢
      have hpending {s : Scope} (hp : (b.hear (b.inst.sync.commits a)).UpdatesPending s) :
          ({ b.hear (b.inst.sync.commits a) with inst := { b.inst with sync := m } } :
            Backend D P).UpdatesPending s := hp
      refine ⟨fun hne => absurd hn hne, fun s hp => .inr (hpending (hp.hear _)),
        fun s hp => .inr (Reporting.step hp hstep hw h.taken),
        .inr ⟨by simp, by simp, by simp, htrust, hget⟩, fun s => .inr ?_,
        fun s => .inr (connected_step hstep hw h.taken s), hmodel⟩
      rw [history_eq, history_eq]
      simp only [hget]
      cases hd : b.inst.sync.docs.get s with
      | none => exact .inr rfl
      | some d =>
        have hcommits := hstep.commits_eq
        split at hcommits
        · next c hc =>
          rw [hc] at hpending ⊢
          by_cases hdoc : d = c.doc
          · subst hdoc
            cases hu : c.update with
            | some u => exact .inl (hpending (h.wired.updatesPending hd hu))
            | none =>
              refine .inr ?_
              have hresult : Entries.entries c.result =
                  Entries.entries (b.inst.sync.docs.heap c.doc) := by
                obtain ⟨_, _, _, _, _, -, -, -, rfl⟩ |
                  ⟨_, _, _, _, _, _, _, _, -, -, -, -, hap, rfl⟩ := Manager.commits_cases hc
                · cases hu
                · obtain rfl : _ = none := hu
                  exact hlaw _ _ _ hap
              simp [hcommits.1, hresult]
          · exact .inr (by simp [hcommits.1, hdoc])
        · exact .inr (by simp [hcommits d (hσ.set s d hd).1])

/-- What a step tells of its changes, if it is not itself the notification. -/
theorem Sound.tells (h : b.Sound) (hlaw : SilentApply D) (ho : b.inst.sync.AppOnly)
    (hw : b.inst.sync.OwesDisconnects) {σ : DocId → Scope} (hσ : b.inst.sync.Named σ)
    {a : Act P} (hs : b.Step a b') (ha : a ≠ .notify) : b.Tells b' := by
  have hmodel := hs.model
  -- The forwarders' own steps only move updates on.
  have moved (hinst : b'.inst = b.inst) (hset : b'.settings = b.settings)
      (hnotice : b'.notice = b.notice) (hup : ∀ s, b.UpdatesPending s → b'.UpdatesPending s) :
      b.Tells b' := by
    refine ⟨by rw [hnotice]; exact id, fun s hp => .inr (hup s hp), fun s hp => .inr ?_,
      .inr ⟨by rw [hinst], by rw [hinst], hset, by rw [hinst], fun s => by rw [hinst]⟩,
      fun s => .inr (.inr ?_), fun s => .inr (.inr (by rw [hinst])), hmodel⟩
    · rwa [ReportsPending, hinst]
    · rw [Backend.history, hinst, Backend.history]
  cases hs with
  | handle hn hoff hi => exact Step.tells_handle (.handle hn hoff hi)
  | sync hi => exact h.tells_sync hlaw ho hw hσ (.sync hi)
  | refresh hn hi => exact tells_of_notice (by simp) hmodel
  | notify => exact absurd rfl ha
  | @forward i f f' hf hr =>
    refine moved rfl rfl rfl fun s hp => hp.setForwarder hf fun hi _ => ⟨f', rfl, .inr ?_⟩
    unfold Forwarder.receive at hr
    split at hr
    · obtain ⟨⟨x, updates⟩, -, rfl⟩ := Option.map_eq_some_iff.mp hr
      obtain ⟨-, g, hg, hscope, -, -⟩ := h.wired.handle s i hi
      obtain rfl := Option.some.inj (hg.symm.trans hf)
      refine ⟨_, rfl, ?_⟩
      cases x with
      | value u => exact hscope
      | lagged => trivial
    · cases hr
  | @deliver i f event hf hh hroom =>
    refine moved rfl rfl rfl fun s hp => ?_
    by_cases hev : event.Concerns s
    · exact .inr ⟨event, List.mem_append_right _ (List.mem_singleton_self _), hev⟩
    · have hmoved := hp.setForwarder hf (o := some { f with holding := none }) fun _ hp' => by
        obtain hp' | ⟨event', hh', hev'⟩ := hp'
        · exact ⟨_, rfl, .inl hp'⟩
        · obtain rfl := Option.some.inj (hh'.symm.trans hh)
          exact absurd hev' hev
      obtain hp | ⟨e, hmem, he⟩ := hmoved
      · exact .inl hp
      · exact .inr ⟨e, List.mem_append_left _ hmem, he⟩
  | @stop i f hf hab =>
    refine moved rfl rfl rfl fun s hp => hp.setForwarder hf fun hi _ => ?_
    obtain ⟨-, g, hg, -, hab', -⟩ := h.wired.handle s i hi
    obtain rfl := Option.some.inj (hg.symm.trans hf)
    rw [hab] at hab'
    cases hab'

end Tells

end Backend

end Yoink
