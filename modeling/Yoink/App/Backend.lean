import Yoink.App.Loop
import Yoink.App.Rooms
import Yoink.Library.Broadcast
import Yoink.Server.StateJson
import Yoink.Sync.Reports

/-!
# The tasks around the loop

A `Backend` is an instance with the tasks that feed its loop: one forwarder per open scope takes
the updates of its document to the loop's document channel. As the last thing it does, a handler
may tell the pages of a change (`notify_ui`). `Wired` says that every document is listened to, and
`Reachable.instance` that a backend runs its instance.
-/

namespace Yoink

variable {D P : Type}

/-- A step of the manager takes no document back. -/
theorem Manager.Step.next_le [Yrs D P] [DecidableEq P] {m m' : Manager D P} {a : Action P}
    (hs : m.Step a m') : m.docs.next ≤ m'.docs.next := by
  have hcreate (s : Scope) : m.docs.next ≤ (m.docs.getOrCreate s).1.next := by
    obtain ⟨d, -, heq⟩ | ⟨-, -, hn⟩ := m.docs.getOrCreate_cases s
    · rw [heq]
    · rw [hn]
      exact Nat.le_succ _
  cases hs.roomStep with
  | quiet _ hn => exact hn.ge
  | created => exact hcreate _
  | removed => exact le_rfl
  | joined _ _ hd => exact hd ▸ hcreate _
  | left _ hd => exact hd ▸ le_rfl

/-- `DOC_EVENT_QUEUE`. -/
def docEventQueue : Nat := 256

/-- What a forwarder feeds into the loop's document channel. -/
inductive DocEvent (P : Type) where
  | update (scope : Scope) (u : DocUpdate P)
  | lagged
  deriving DecidableEq

/-- What the loop takes it for. -/
def DocEvent.event : DocEvent P → Event P
  | .update scope u => .docUpdate scope u
  | .lagged => .docLagged

/-- What a forwarder of the scope makes of a receive. -/
def DocEvent.ofReceived (scope : Scope) : Received (DocUpdate P) → DocEvent P
  | .value u => .update scope u
  | .lagged => .lagged

/-- The event tells of the history of this scope. -/
def DocEvent.Concerns (s : Scope) : DocEvent P → Prop
  | .update s' _ => s' = s
  | .lagged => True

/-- `forward_doc_updates`. -/
structure Forwarder (P : Type) where
  scope : Scope
  doc : DocId
  updates : Receiver (DocUpdate P)
  /-- The event it waits to send. -/
  holding : Option (DocEvent P)
  /-- The task has been told to stop, and may do so at any time. -/
  aborted : Bool

/-- `spawn_doc_forwarder`. -/
def Forwarder.spawn (scope : Scope) (doc : DocId) : Forwarder P :=
  ⟨scope, doc, .subscribed, none, false⟩

/-- A transaction on its document is broadcast, if it has an update. -/
def Forwarder.hear (f : Forwarder P) (c : Manager.Commit D P) : Forwarder P :=
  match c.update with
  | some u =>
    if f.doc = c.doc then { f with updates := f.updates.send updateBacklog ⟨u, c.origin⟩ } else f
  | none => f

/-- Hearing of a transaction changes nothing but the updates a forwarder has in store. -/
theorem Forwarder.hear_fields (f : Forwarder P) (c : Manager.Commit D P) :
    (f.hear c).scope = f.scope ∧ (f.hear c).doc = f.doc ∧ (f.hear c).aborted = f.aborted ∧
      (f.hear c).holding = f.holding := by
  unfold Forwarder.hear
  split
  · split <;> exact ⟨rfl, rfl, rfl, rfl⟩
  · exact ⟨rfl, rfl, rfl, rfl⟩

/-- Receive the next update, if the last one has been sent. -/
def Forwarder.receive (f : Forwarder P) : Option (Forwarder P) :=
  if f.holding.isNone then
    f.updates.recv.map fun r => { f with updates := r.2, holding := some (.ofReceived f.scope r.1) }
  else none

/-- How far a handler is with `notify_ui`. -/
inductive Notice where
  /-- It is not going to call it, or has called it. -/
  | none
  /-- It calls it as the last thing it does. -/
  | owed
  /-- The cached settings are refreshed, and the pages are not notified yet. -/
  | refreshed
  deriving DecidableEq, Repr

/-- The handler of the event ends with `notify_ui`. -/
def App.notifies (app : App) : Event P → Bool
  | .copied _ => false
  | .docUpdate _ _ | .docLagged | .found _ | .lost _ | .sync _ => true
  | .command (.setDeviceTrusted _ _) => true
  | .command (.addEntry _ _) | .command (.copyEntry _ _) => false
  | .command (.joinRoom raw) => (sanitizeRoomName raw).any fun name => !app.config.hasRoom name
  | .command (.leaveRoom raw) => (sanitizeRoomName raw).any fun name => app.config.hasRoom name

/-- A handler that does not end with `notify_ui` adds an entry at most. -/
theorem App.handle_unnotified (app : App) (docs : DocsView) (sync : SyncView)
    (env : Env) {event : Event P} (h : app.notifies event = false) :
    (app.handle docs sync env event).app.peers = app.peers ∧
      (app.handle docs sync env event).app.joinedRooms = app.joinedRooms ∧
      ((app.handle docs sync env event).command = none ∨ ∃ s e,
        (app.handle docs sync env event).command = some (.addEntry s e)) := by
  have hr := app.handle_reacts docs sync env event
  generalize app.handle docs sync env event = r at hr ⊢
  cases hr with
  | nothing => exact ⟨rfl, rfl, .inl rfl⟩
  | add scope entry => exact ⟨rfl, rfl, .inr ⟨scope, entry, rfl⟩⟩
  | joined hs hn => simp [App.notifies, hs, hn] at h
  | left hs hn => simp [App.notifies, hs, hn] at h
  | _ => cases h

structure Backend (D P : Type) where
  inst : Instance D P
  docEvents : List (DocEvent P)
  /-- The forwarder tasks by their id, and the handle of each scope's. -/
  forwarders : TaskId → Option (Forwarder P)
  handles : Scope → Option TaskId
  spawned : TaskId
  settings : Settings
  notice : Notice

namespace Backend

/-- What a step is. -/
inductive Act (P : Type) where
  /-- The loop takes an event and runs its handler. -/
  | handle (env : Env) (event : Event P)
  /-- A step of the manager's tasks, or the next call of the handler's operation. -/
  | sync (a : Action P)
  /-- `notify_ui`, up to the send. -/
  | refresh (clipboardAvailable : Bool)
  | notify
  /-- A forwarder receives. -/
  | forward (i : TaskId)
  /-- A forwarder sends what it holds. -/
  | deliver (i : TaskId)
  /-- A forwarder that was aborted is dropped. -/
  | stop (i : TaskId)

/-- The event is at the head of the document channel, if it comes from there. -/
def Offers (b : Backend D P) : Event P → Prop
  | .docUpdate scope u => b.docEvents.head? = some (.update scope u)
  | .docLagged => b.docEvents.head? = some .lagged
  | _ => True

instance [DecidableEq P] (b : Backend D P) : (event : Event P) → Decidable (b.Offers event)
  | .docUpdate scope u => inferInstanceAs (Decidable (b.docEvents.head? = some (.update scope u)))
  | .docLagged => inferInstanceAs (Decidable (b.docEvents.head? = some .lagged))
  | .copied _ | .found _ | .lost _ | .sync _ | .command _ => inferInstanceAs (Decidable True)

def docEventsAfter (b : Backend D P) : Event P → List (DocEvent P)
  | .docUpdate _ _ | .docLagged => b.docEvents.tail
  | _ => b.docEvents

/-- Wire the forwarder of a scope up to a document. -/
def wire (b : Backend D P) (scope : Scope) (doc : DocId) : Backend D P :=
  { b with
    forwarders := Function.update b.forwarders b.spawned (some (.spawn scope doc))
    handles := Function.update b.handles scope (some b.spawned)
    spawned := b.spawned + 1 }

/-- Take the forwarder of a scope off the map and abort it. -/
def unwire (b : Backend D P) (scope : Scope) : Backend D P :=
  match b.handles scope with
  | some i => { b with
      forwarders := fun j => (b.forwarders j).map fun f =>
        if j = i then { f with aborted := true } else f
      handles := Function.update b.handles scope none }
  | none => b

/-- What the handler does to its forwarders along with a call: it wires a room up once its document
is there, and aborts the forwarder before it drops the document. -/
def rewire [Yrs D P] (b : Backend D P) : Option Call → Backend D P
  | some (.docsGetOrCreate scope) => b.wire scope (b.inst.sync.docs.getOrCreate scope).2
  | some (.docsRemove (.room name)) => b.unwire (.room name)
  | _ => b

/-- The next call of the app loop, if the action makes it. -/
def appCall (m : Manager D P) : Action P → Option Call
  | .call (.caller 0) => (m.calls (.caller 0)).head?
  | _ => none

def setForwarder (b : Backend D P) (i : TaskId) (f : Option (Forwarder P)) : Backend D P :=
  { b with forwarders := Function.update b.forwarders i f }

/-- Every forwarder hears of a transaction. -/
def hear (b : Backend D P) : Option (Manager.Commit D P) → Backend D P
  | some c => { b with forwarders := fun i => (b.forwarders i).map (·.hear c) }
  | none => b

section Step

variable [Yrs D P] [Entries D] [DecidableEq P]

def step (b : Backend D P) : Act P → Option (Backend D P)
  | .handle env event =>
    if b.notice = .none ∧ b.Offers event then
      (b.inst.step (.handle env event)).map fun inst => { b with
        inst
        docEvents := b.docEventsAfter event
        notice := if b.inst.app.notifies event then .owed else .none }
    else none
  | .sync a =>
    (b.inst.step (.sync a)).map fun inst =>
      { (b.hear (b.inst.sync.commits a)).rewire (appCall b.inst.sync a) with inst }
  | .refresh clipboardAvailable =>
    if b.notice = .owed ∧ b.inst.Idle then
      some { b with
        settings := { b.settings with clipboardAvailable }
        notice := .refreshed }
    else none
  | .notify => if b.notice = .refreshed then some { b with notice := .none } else none
  | .forward i =>
    match b.forwarders i with
    | some f => f.receive.map fun f => b.setForwarder i (some f)
    | none => none
  | .deliver i =>
    match b.forwarders i with
    | some f =>
      match f.holding with
      | some event =>
        if b.docEvents.length < docEventQueue then
          some { b.setForwarder i (some { f with holding := none }) with
            docEvents := b.docEvents ++ [event] }
        else none
      | none => none
    | none => none
  | .stop i =>
    match b.forwarders i with
    | some f => if f.aborted then some (b.setForwarder i none) else none
    | none => none

/-- The instance, before anything is wired up. -/
def unwired (config : Config) (name : String) (effective : EffectiveSettings)
    (clipboardAvailable : Bool) : Backend D P where
  inst := .start config name effective
  docEvents := []
  forwarders _ := none
  handles _ := none
  spawned := 0
  settings := ⟨effective.mode, clipboardAvailable⟩
  notice := .none

/-- `wire_scopes`. -/
def wireAll (b : Backend D P) (scopes : List Scope) : Backend D P :=
  scopes.foldl (fun b scope => b.wire scope (b.inst.sync.docs.getOrCreate scope).2) b

/-- `main`, up to the loop. -/
def start (config : Config) (name : String) (effective : EffectiveSettings)
    (clipboardAvailable : Bool) : Backend D P :=
  let b : Backend D P := unwired config name effective clipboardAvailable
  b.wireAll (.devices :: b.inst.app.config.rooms.map .room)

end Step

/-- The runs of a backend. -/
def system (D P : Type) [Yrs D P] [Entries D] [DecidableEq P] (config : Config) (name : String)
    (effective : EffectiveSettings) (clipboardAvailable : Bool) :
    System (Backend D P) (Act P) where
  init b := b = start config name effective clipboardAvailable
  step b a b' := b.step a = some b'

section Inversion

variable [Yrs D P] [Entries D] [DecidableEq P]

inductive Step (b : Backend D P) : Act P → Backend D P → Prop where
  | handle {env : Env} {event : Event P} {inst : Instance D P} (hn : b.notice = .none)
      (ho : b.Offers event) (hs : b.inst.step (.handle env event) = some inst) :
      Step b (.handle env event) { b with
        inst
        docEvents := b.docEventsAfter event
        notice := if b.inst.app.notifies event then .owed else .none }
  | sync {a : Action P} {inst : Instance D P} (hs : b.inst.step (.sync a) = some inst) :
      Step b (.sync a)
        { (b.hear (b.inst.sync.commits a)).rewire (appCall b.inst.sync a) with inst }
  | refresh {clipboardAvailable : Bool} (hn : b.notice = .owed) (hi : b.inst.Idle) :
      Step b (.refresh clipboardAvailable) { b with
        settings := { b.settings with clipboardAvailable }
        notice := .refreshed }
  | notify (hn : b.notice = .refreshed) : Step b .notify { b with notice := .none }
  | forward {i : TaskId} {f f' : Forwarder P} (hf : b.forwarders i = some f)
      (hr : f.receive = some f') : Step b (.forward i) (b.setForwarder i (some f'))
  | deliver {i : TaskId} {f : Forwarder P} {event : DocEvent P} (hf : b.forwarders i = some f)
      (hh : f.holding = some event) (hroom : b.docEvents.length < docEventQueue) :
      Step b (.deliver i) { b.setForwarder i (some { f with holding := none }) with
        docEvents := b.docEvents ++ [event] }
  | stop {i : TaskId} {f : Forwarder P} (hf : b.forwarders i = some f) (ha : f.aborted = true) :
      Step b (.stop i) (b.setForwarder i none)

theorem step_cases {b b' : Backend D P} {a : Act P} (h : b.step a = some b') : b.Step a b' := by
  cases a with
  | handle env event =>
    simp only [step] at h
    split at h
    · next hc =>
      obtain ⟨inst, hs, rfl⟩ := Option.map_eq_some_iff.mp h
      exact .handle hc.1 hc.2 hs
    · cases h
  | sync a =>
    obtain ⟨inst, hs, rfl⟩ := Option.map_eq_some_iff.mp h
    exact .sync hs
  | refresh =>
    simp only [step] at h
    split at h
    · next hc =>
      cases h
      exact .refresh hc.1 hc.2
    · cases h
  | notify =>
    simp only [step] at h
    split at h
    · cases h
      exact .notify ‹_›
    · cases h
  | forward i =>
    simp only [step] at h
    split at h
    · obtain ⟨f', hr, rfl⟩ := Option.map_eq_some_iff.mp h
      exact .forward ‹_› hr
    · cases h
  | deliver i =>
    simp only [step] at h
    split at h
    · split at h
      · split at h
        · cases h
          exact .deliver ‹_› ‹_› ‹_›
        · cases h
      · cases h
    · cases h
  | stop i =>
    simp only [step] at h
    split at h
    · split at h
      · cases h
        exact .stop ‹_› ‹_›
      · cases h
    · cases h

end Inversion

section Rewiring

@[simp] theorem wire_inst (b : Backend D P) (s : Scope) (d : DocId) : (b.wire s d).inst = b.inst :=
  rfl

@[simp] theorem hear_inst (b : Backend D P) (c : Option (Manager.Commit D P)) :
    (b.hear c).inst = b.inst := by
  cases c <;> rfl

@[simp] theorem hear_handles (b : Backend D P) (c : Option (Manager.Commit D P)) :
    (b.hear c).handles = b.handles := by
  cases c <;> rfl

@[simp] theorem hear_spawned (b : Backend D P) (c : Option (Manager.Commit D P)) :
    (b.hear c).spawned = b.spawned := by
  cases c <;> rfl

@[simp] theorem hear_notice (b : Backend D P) (c : Option (Manager.Commit D P)) :
    (b.hear c).notice = b.notice := by
  cases c <;> rfl

@[simp] theorem hear_docEvents (b : Backend D P) (c : Option (Manager.Commit D P)) :
    (b.hear c).docEvents = b.docEvents := by
  cases c <;> rfl

@[simp] theorem hear_settings (b : Backend D P) (c : Option (Manager.Commit D P)) :
    (b.hear c).settings = b.settings := by
  cases c <;> rfl

/-- Rewiring is about the forwarders only. -/
@[simp] theorem rewire_notice [Yrs D P] (b : Backend D P) (c : Option Call) :
    (b.rewire c).notice = b.notice := by
  unfold rewire
  split
  · rfl
  · unfold unwire
    split <;> rfl
  · rfl

@[simp] theorem rewire_docEvents [Yrs D P] (b : Backend D P) (c : Option Call) :
    (b.rewire c).docEvents = b.docEvents := by
  unfold rewire
  split
  · rfl
  · unfold unwire
    split <;> rfl
  · rfl

end Rewiring

section Wired

/-- A handle is that of a running forwarder, which listens to the document of its scope. -/
def Handled (b : Backend D P) : Prop :=
  ∀ s i, b.handles s = some i → i < b.spawned ∧ ∃ f, b.forwarders i = some f ∧
    f.scope = s ∧ f.aborted = false ∧ b.inst.sync.docs.get s = some f.doc

/-- Every scope that has a document has a forwarder. -/
structure Wired (b : Backend D P) : Prop where
  handle : b.Handled
  doc : ∀ s, (b.inst.sync.docs.get s).isSome = true → (b.handles s).isSome = true

variable {b b' : Backend D P}

/-- A forwarder that is not aborted goes on. -/
def Keeps (b b' : Backend D P) : Prop :=
  ∀ i f, b.forwarders i = some f → f.aborted = false → ∃ f', b'.forwarders i = some f' ∧
    f'.scope = f.scope ∧ f'.doc = f.doc ∧ f'.aborted = false

theorem Wired.keep (h : b.Wired) (hh : b'.handles = b.handles) (hs : b'.spawned = b.spawned)
    (hd : ∀ s, b'.inst.sync.docs.get s = b.inst.sync.docs.get s) (hk : b.Keeps b') : b'.Wired := by
  constructor
  · intro s i hi
    rw [hh] at hi
    obtain ⟨hlt, f, hf, hscope, hab, hdoc⟩ := h.handle s i hi
    obtain ⟨f', hf', hscope', hdoc', hab'⟩ := hk i f hf hab
    exact ⟨hs ▸ hlt, f', hf', hscope'.trans hscope, hab', by rw [hd, hdoc, hdoc']⟩
  · intro s hs'
    rw [hd] at hs'
    rw [hh]
    exact h.doc s hs'

theorem keeps_setForwarder {i : TaskId} {f : Forwarder P} (hf : b.forwarders i = some f)
    {o : Option (Forwarder P)} (ho : f.aborted = false → ∃ f', o = some f' ∧
      f'.scope = f.scope ∧ f'.doc = f.doc ∧ f'.aborted = false) : b.Keeps (b.setForwarder i o) := by
  intro j g hg hab
  by_cases hj : j = i
  · subst hj
    obtain rfl := Option.some.inj (hg.symm.trans hf)
    obtain ⟨f', rfl, hf'⟩ := ho hab
    exact ⟨f', Function.update_self _ _ _, hf'⟩
  · exact ⟨g, (Function.update_of_ne hj _ _).trans hg, rfl, rfl, hab⟩

theorem keeps_hear (b : Backend D P) (c : Option (Manager.Commit D P)) : b.Keeps (b.hear c) := by
  intro i f hf hab
  cases c with
  | none => exact ⟨f, hf, rfl, rfl, hab⟩
  | some c =>
    obtain ⟨hs, hd, ha, -⟩ := f.hear_fields c
    exact ⟨f.hear c, by simp [hear, hf], hs, hd, ha.trans hab⟩

/-- A scope is wired up to the document it has from now on. -/
theorem Handled.wire (h : b.Handled) {s : Scope} {d : DocId} {inst : Instance D P}
    (hd : inst.sync.docs.get s = some d)
    (hne : ∀ s', s' ≠ s → inst.sync.docs.get s' = b.inst.sync.docs.get s') :
    ({ b.wire s d with inst } : Backend D P).Handled := by
  intro s' i hi
  by_cases hs : s' = s
  · subst hs
    obtain rfl : b.spawned = i := by simpa [Backend.wire] using hi
    exact ⟨Nat.lt_succ_self _, .spawn s' d, Function.update_self _ _ _, rfl, rfl, hd⟩
  · have hi : b.handles s' = some i := by simpa [Backend.wire, hs] using hi
    obtain ⟨hlt, f, hf, hscope, hab, hdoc⟩ := h s' i hi
    refine ⟨Nat.lt_succ_of_lt hlt, f, ?_, hscope, hab, (hne s' hs).trans hdoc⟩
    exact (Function.update_of_ne (Nat.ne_of_lt hlt) _ _).trans hf

theorem Wired.wire (h : b.Wired) {s : Scope} {d : DocId} {inst : Instance D P}
    (hd : inst.sync.docs.get s = some d)
    (hne : ∀ s', s' ≠ s → inst.sync.docs.get s' = b.inst.sync.docs.get s') :
    ({ b.wire s d with inst } : Backend D P).Wired := by
  refine ⟨h.handle.wire hd hne, fun s' hsome => ?_⟩
  by_cases hs : s' = s
  · subst hs
    simp [Backend.wire]
  · have := h.doc s' (by rwa [hne s' hs] at hsome)
    simpa [Backend.wire, hs] using this

/-- A scope is taken off the map as its document goes. -/
theorem Wired.unwire (h : b.Wired) {s : Scope} {inst : Instance D P}
    (hd : inst.sync.docs.get s = none)
    (hne : ∀ s', s' ≠ s → inst.sync.docs.get s' = b.inst.sync.docs.get s') :
    ({ b.unwire s with inst } : Backend D P).Wired := by
  cases hi : b.handles s with
  | none =>
    have hsame : ({ b.unwire s with inst } : Backend D P) = { b with inst } := by
      simp [Backend.unwire, hi]
    rw [hsame]
    refine ⟨fun s' i hi' => ?_, fun s' hsome => ?_⟩
    · have hs : s' ≠ s := by
        rintro rfl
        rw [hi] at hi'
        cases hi'
      obtain ⟨hlt, f, hf, hscope, hab, hdoc⟩ := h.handle s' i hi'
      exact ⟨hlt, f, hf, hscope, hab, (hne s' hs).trans hdoc⟩
    · have hs : s' ≠ s := by
        rintro rfl
        simp [hd] at hsome
      exact h.doc s' (by rwa [hne s' hs] at hsome)
  | some j =>
    obtain ⟨-, g, hg, hgs, -, -⟩ := h.handle s j hi
    refine ⟨fun s' i hi' => ?_, fun s' hsome => ?_⟩
    · have hs : s' ≠ s := by
        rintro rfl
        simp [Backend.unwire, hi] at hi'
      have hi' : b.handles s' = some i := by simpa [Backend.unwire, hi, hs] using hi'
      obtain ⟨hlt, f, hf, hscope, hab, hdoc⟩ := h.handle s' i hi'
      -- A forwarder belongs to one scope.
      have hij : i ≠ j := by
        rintro rfl
        obtain rfl := Option.some.inj (hf.symm.trans hg)
        exact hs (hscope.symm.trans hgs)
      exact ⟨by simpa [Backend.unwire, hi] using hlt, f, by simp [Backend.unwire, hi, hf, hij],
        hscope, hab, (hne s' hs).trans hdoc⟩
    · have hs : s' ≠ s := by
        rintro rfl
        simp [hd] at hsome
      have := h.doc s' (by rwa [hne s' hs] at hsome)
      simpa [Backend.unwire, hi, hs] using this

section WiredStep

variable [Yrs D P]

omit [Yrs D P] in
theorem appCall_of_ne {m : Manager D P} {a : Action P} (ha : a ≠ .call (.caller 0)) :
    appCall m a = none := by
  unfold appCall
  split
  · exact absurd rfl ha
  · rfl

/-- Of the calls, only those that open and close documents change which one a scope has. -/
theorem perform_docs_get {m : Manager D P} {c : Call} (hc : ∀ s, c ≠ .docsGetOrCreate s)
    (hr : ∀ s, c ≠ .docsRemove s)
    (hj : ∀ name, c = .joinRoom name → (m.docs.get (.room name)).isSome = true) (s : Scope) :
    (m.perform c).1.docs.get s = m.docs.get s := by
  cases c with
  | docsGetOrCreate s' => exact absurd rfl (hc s')
  | docsRemove s' => exact absurd rfl (hr s')
  | joinRoom name =>
    obtain heq | ⟨-, -, heq, -⟩ := m.joinRoom_cases name
    · rw [Manager.perform, heq]
    · obtain ⟨d, hd⟩ := Option.isSome_iff_exists.mp (hj name rfl)
      simp only [Manager.perform, heq, Docs.getOrCreate_of_some hd]
  | addEntry scope entry =>
    cases hg : m.docs.get scope with
    | none => simp only [Manager.perform, hg]
    | some doc =>
      simp only [Manager.perform, hg, (Manager.commit_spec m doc _ _ none).1]
      rfl
  | maybeSpawnDialer d s' n =>
    obtain h | ⟨-, -, h⟩ := m.maybeSpawnDialer_cases d s' n <;> simp only [Manager.perform, h]
  | hangup e => simp only [Manager.perform, Manager.signalHangup_eq]
  | cancelDialer l => simp only [Manager.perform, Manager.cancelLoop_eq]
  | dropFanOut f => simp only [Manager.perform, Manager.cancelFan_eq]
  | _ => rfl

/-- Over documents that are there already. -/
theorem wireAll_spec (scopes : List Scope) (h : b.Handled)
    (hd : ∀ s ∈ scopes, (b.inst.sync.docs.get s).isSome = true) :
    (b.wireAll scopes).inst = b.inst ∧ (b.wireAll scopes).notice = b.notice ∧
      (b.wireAll scopes).Handled ∧ ∀ s, s ∈ scopes ∨ (b.handles s).isSome = true →
        ((b.wireAll scopes).handles s).isSome = true := by
  induction scopes generalizing b with
  | nil => exact ⟨rfl, rfl, h, fun s hs => hs.resolve_left List.not_mem_nil⟩
  | cons s scopes ih =>
    obtain ⟨d, hget⟩ := Option.isSome_iff_exists.mp (hd s List.mem_cons_self)
    have hnext : b.wireAll (s :: scopes) = (b.wire s d).wireAll scopes := by
      rw [wireAll, List.foldl_cons, Docs.getOrCreate_of_some hget]
      rfl
    have hwire : (b.wire s d).Handled := h.wire hget fun _ _ => rfl
    obtain ⟨hinst, hnotice, hhandled, hall⟩ := ih hwire fun s' hs' =>
      hd s' (List.mem_cons_of_mem _ hs')
    rw [hnext]
    refine ⟨hinst, hnotice, hhandled, fun s' hs' => hall s' ?_⟩
    by_cases heq : s' = s
    · exact .inr (by simp [Backend.wire, heq])
    · refine hs'.imp (fun hmem => (List.mem_cons.mp hmem).resolve_left heq) fun hsome => ?_
      simpa [Backend.wire, heq] using hsome

theorem start_wired (config : Config) (name : String) (effective : EffectiveSettings)
    (clipboardAvailable : Bool) :
    let b : Backend D P := start config name effective clipboardAvailable
    b.inst = .start config name effective ∧ b.notice = .none ∧ b.Wired := by
  have hidle : (Instance.start config name effective : Instance D P).Idle := by
    rw [Instance.Idle, Instance.start_sync, (Manager.new_bare _ _ _).calls]
  have hagree := (Instance.start_roomsSettle (D := D) (P := P) config name effective).agree hidle
  generalize hb : (unwired config name effective clipboardAvailable : Backend D P) = b
  have hinst₀ : b.inst = .start config name effective := by rw [← hb, unwired]
  have hdocs (s : Scope) : (b.inst.sync.docs.get s).isSome = true ↔
      s ∈ Scope.devices :: b.inst.app.config.rooms.map .room := by
    rw [hinst₀]
    cases s with
    | devices => simp [Docs.get, DocSet.get_devices]
    | room n =>
      have hroom := hagree.docs n
      rw [Manager.mem_rooms_iff, ← Option.isSome_iff_ne_none] at hroom
      simpa using hroom
  have hnone : b.Handled := fun s i hi => by
    rw [← hb, unwired] at hi
    cases hi
  obtain ⟨hinst, hnotice, hhandled, hall⟩ := wireAll_spec _ hnone fun s hs => (hdocs s).mpr hs
  have hnotice₀ : b.notice = .none := by rw [← hb, unwired]
  rw [start, hb]
  refine ⟨hinst.trans hinst₀, hnotice.trans hnotice₀, hhandled, fun s hs => hall s (.inl ?_)⟩
  rw [hinst] at hs
  exact (hdocs s).mp hs

/-- No forwarder has heard of anything when it is wired up. -/
theorem start_fresh (config : Config) (name : String) (effective : EffectiveSettings)
    (clipboardAvailable : Bool) :
    let b : Backend D P := start config name effective clipboardAvailable
    b.docEvents = [] ∧ (∀ i, b.spawned ≤ i → b.forwarders i = none) ∧
      ∀ i f, b.forwarders i = some f → f.updates = .subscribed ∧ f.holding = none := by
  have hall (scopes : List Scope) (b : Backend D P) (he : b.docEvents = [])
      (hs : ∀ i, b.spawned ≤ i → b.forwarders i = none)
      (hf : ∀ i f, b.forwarders i = some f → f.updates = .subscribed ∧ f.holding = none) :
      (b.wireAll scopes).docEvents = [] ∧
        (∀ i, (b.wireAll scopes).spawned ≤ i → (b.wireAll scopes).forwarders i = none) ∧
        ∀ i f, (b.wireAll scopes).forwarders i = some f →
          f.updates = .subscribed ∧ f.holding = none := by
    induction scopes generalizing b with
    | nil => exact ⟨he, hs, hf⟩
    | cons scope scopes ih =>
      refine ih _ he (fun i hi => ?_) fun i f hi => ?_
      · have hne : i ≠ b.spawned := Nat.ne_of_gt hi
        exact (Function.update_of_ne hne _ _).trans (hs i (Nat.le_of_succ_le hi))
      · simp only [Backend.wire, Function.update_apply] at hi
        split at hi
        · cases hi
          exact ⟨rfl, rfl⟩
        · exact hf i f hi
  refine hall _ (unwired config name effective clipboardAvailable) rfl (fun _ _ => rfl) ?_
  intro i f hi
  cases hi

variable [Entries D] [DecidableEq P]

theorem Wired.step {a : Act P} (h : b.Wired) (hs : b.Step a b') (ho : b.inst.sync.AppOnly)
    (hw : b.inst.sync.JoinsWired) : b'.Wired := by
  cases hs with
  | @handle env event inst hn hoff hs =>
    refine h.keep rfl rfl (fun s => ?_) fun i f hf hab => ⟨f, hf, rfl, rfl, hab⟩
    cases Instance.step_cases hs with
    | handle => cases (b.inst.react env event).command <;> rfl
  | refresh | notify => exact h.keep rfl rfl (fun _ => rfl) fun i f hf hab => ⟨f, hf, rfl, rfl, hab⟩
  | @forward i f f' hf hr =>
    refine h.keep rfl rfl (fun _ => rfl) (keeps_setForwarder hf fun hab => ⟨f', rfl, ?_⟩)
    unfold Forwarder.receive at hr
    split at hr
    · obtain ⟨r, -, rfl⟩ := Option.map_eq_some_iff.mp hr
      exact ⟨rfl, rfl, hab⟩
    · cases hr
  | @deliver i f event hf =>
    have hk := keeps_setForwarder (b := b) hf
      (o := some { f with holding := none }) fun hab => ⟨_, rfl, rfl, rfl, hab⟩
    exact h.keep rfl rfl (fun _ => rfl) hk
  | @stop i f hf ha =>
    refine h.keep rfl rfl (fun _ => rfl) (keeps_setForwarder hf fun hab => ?_)
    rw [ha] at hab
    cases hab
  | @sync a inst hs =>
    cases Instance.step_cases hs with
    | @sync _ m ha hm =>
      have hheard : (b.hear (b.inst.sync.commits a)).Wired :=
        h.keep (hear_handles b _) (hear_spawned b _) (by simp) (keeps_hear b _)
      have hsame (hd : ∀ s, m.docs.get s = b.inst.sync.docs.get s) :
          ({ b.hear (b.inst.sync.commits a) with inst := { b.inst with sync := m } } :
            Backend D P).Wired :=
        hheard.keep rfl rfl (by simpa using hd) fun i f hf hab => ⟨f, hf, rfl, rfl, hab⟩
      have hstep := Manager.step_cases hm
      by_cases hcall : a = .call (.caller 0)
      · subst hcall
        obtain ⟨c, cs, hc, rfl⟩ := hstep.of_call
        have happ : appCall b.inst.sync (.call (.caller 0)) = some c := by simp [appCall, hc]
        rw [happ]
        have hquiet (h₁ : ∀ s, c ≠ .docsGetOrCreate s) (h₂ : ∀ s, c ≠ .docsRemove s) (s : Scope) :
            ((b.inst.sync.perform c).1.setCalls (.caller 0)
              ((b.inst.sync.perform c).2 ++ cs)).docs.get s = b.inst.sync.docs.get s := by
          refine perform_docs_get h₁ h₂ (fun name hname => ?_) s
          subst hname
          obtain hj | ⟨-, hj⟩ := hw name (by rw [hc]; exact List.mem_cons_self)
          · rw [hc] at hj
            cases (List.cons.inj hj).1
          · exact hj
        cases c with
        | docsGetOrCreate scope =>
          refine hheard.wire ?_ fun s hs => ?_
          · simpa [Manager.perform] using b.inst.sync.docs.getOrCreate_get scope
          · simpa [Manager.perform] using b.inst.sync.docs.getOrCreate_get_ne hs
        | docsRemove scope =>
          cases scope with
          | devices =>
            refine hsame fun s => ?_
            simp [Manager.perform, Docs.get_remove]
          | room name =>
            refine hheard.unwire ?_ fun s hs => ?_
            · simp [Manager.perform, Docs.get_remove]
            · simp [Manager.perform, Docs.get_remove, hs]
        | _ => exact hsame (hquiet (by simp) (by simp))
      · rw [appCall_of_ne hcall]
        refine hsame fun s => ?_
        rw [Docs.get, hstep.docs_set ho hcall, Docs.get]

end WiredStep

end Wired

section Refinement

variable [Yrs D P] [Entries D] [DecidableEq P] {config : Config} {name : String}
  {effective : EffectiveSettings} {clipboardAvailable : Bool} {b : Backend D P}

/-- A backend runs its instance. -/
theorem Reachable.instance
    (h : (system D P config name effective clipboardAvailable).Reachable b) :
    (Instance.system D P config name effective).Reachable b.inst := by
  refine h.map (·.inst) ?_ fun b a b' _ hr hs => ?_
  · rintro b rfl
    exact ⟨[], .start (start_wired config name effective clipboardAvailable).1⟩
  · cases step_cases hs with
    | handle _ _ hi => exact hr.next hi
    | sync hi => exact hr.next hi
    | _ => exact hr

/-- Where the loop is in its turn, and that its forwarders are wired. -/
structure Sound (b : Backend D P) : Prop where
  wired : b.Wired
  idle : b.notice = .refreshed → b.inst.Idle
  /-- Unless it is going to notify, a handler makes no call but to add an entry. -/
  calls : b.notice = .none → b.inst.Idle ∨
    ∃ s e, b.inst.sync.calls (.caller 0) = [.addEntry s e]
  taken : b.inst.taken ≤ b.inst.sync.events.length

theorem Sound.step {b' : Backend D P} {a : Act P} (h : b.Sound) (hs : b.Step a b')
    (ho : b.inst.sync.AppOnly) (hw : b.inst.sync.JoinsWired) : b'.Sound := by
  have hwired := h.wired.step hs ho hw
  cases hs with
  | @handle env event inst hn hoff hi =>
    cases Instance.step_cases hi with
    | handle hidle hdel =>
      refine ⟨hwired, fun hr => ?_, fun hr => ?_, ?_⟩
      · simp only at hr
        split at hr <;> cases hr
      · have hquiet : b.inst.app.notifies event = false := by
          by_contra hne
          simp [hne] at hr
        obtain ⟨-, -, hcmd | ⟨s, e, hcmd⟩⟩ := b.inst.app.handle_unnotified b.inst.sync.docs.view
          b.inst.sync.view env hquiet
        · refine .inl ?_
          simp only [Instance.Idle, Instance.react, hcmd]
          exact hidle
        · refine .inr ⟨s, e, ?_⟩
          simp [Instance.react, hcmd, Manager.request, Command.calls]
      · have hevents : (b.inst.sync.request (b.inst.react env event).command).events =
            b.inst.sync.events := by
          cases (b.inst.react env event).command <;> rfl
        simp only [hevents]
        cases event with
        | sync event =>
          obtain ⟨hlt, -⟩ := List.getElem?_eq_some_iff.mp hdel
          exact hlt
        | _ => exact h.taken
  | @sync a inst hi =>
    cases Instance.step_cases hi with
    | @sync _ m ha hm =>
      have hstep := Manager.step_cases hm
      refine ⟨hwired, fun hr => ?_, fun hr => ?_, ?_⟩
      · have hidle : b.inst.sync.calls (.caller 0) = [] := h.idle (by simpa using hr)
        by_cases hcall : a = .call (.caller 0)
        · subst hcall
          obtain ⟨c, cs, hc, -⟩ := hstep.of_call
          rw [hidle] at hc
          cases hc
        · exact (hstep.app_calls ha hcall).trans hidle
      · have hcalls := h.calls (by simpa using hr)
        by_cases hcall : a = .call (.caller 0)
        · subst hcall
          obtain ⟨c, cs, hc, rfl⟩ := hstep.of_call
          obtain hidle | ⟨s, e, hadd⟩ := hcalls
          · rw [Instance.Idle, hc] at hidle
            cases hidle
          · -- The call that adds an entry leaves nothing to do.
            obtain ⟨rfl, rfl⟩ := List.cons.inj (hc.symm.trans hadd)
            refine .inl ?_
            simp only [Instance.Idle, Manager.setCalls_calls, Function.update_self,
              List.append_nil, Manager.perform]
            split <;> rfl
        · simp only [Instance.Idle, hstep.app_calls ha hcall]
          exact hcalls
      · obtain ⟨events, hev⟩ := hstep.events
        simp only [hev, List.length_append]
        have := h.taken
        omega
  | refresh hn hi => exact ⟨hwired, fun _ => hi, (by simp), h.taken⟩
  | notify hn => exact ⟨hwired, (by simp), fun _ => .inl (h.idle hn), h.taken⟩
  | _ => exact ⟨hwired, h.idle, h.calls, h.taken⟩

theorem Reachable.sound (h : (system D P config name effective clipboardAvailable).Reachable b) :
    b.Sound := by
  refine h.invariant (I := Sound) ?_ fun b a b' hr hI hs => ?_
  · rintro b rfl
    obtain ⟨hinst, hnotice, hwired⟩ := start_wired (D := D) (P := P) config name effective
      clipboardAvailable
    have hidle : (start config name effective clipboardAvailable : Backend D P).inst.Idle := by
      rw [hinst, Instance.Idle, Instance.start_sync, (Manager.new_bare _ _ _).calls]
    refine ⟨hwired, fun _ => hidle, fun _ => .inl hidle, ?_⟩
    rw [hinst]
    exact Nat.zero_le _
  · have hi := Reachable.instance hr
    exact hI.step (step_cases hs) (Instance.Reachable.appOnly hi) (Instance.Reachable.joinsWired hi)

end Refinement

end Backend

end Yoink
