import Yoink.App.Handlers
import Yoink.Sync.Rooms
import Yoink.Sync.Trust
import Mathlib.Data.Finset.Lattice.Lemmas

/-!
# A running instance

The app loop is caller 0 of the sync manager and its only one: a handler runs while no call
of the previous one is left, and the calls of its operation are made one at a time while the
connection tasks, dial loops and fan-outs go on. `Reachable.sync` is the refinement:
what an instance does to its manager is a run of the manager.
-/

namespace Yoink

/-- The history a document shows. -/
class Entries (D : Type) where
  entries : D → List ClipEntry

variable {D P : Type}

instance {X : Type} [Yrs D P] [MergeSets D X] [ClipEntries D] : Entries D :=
  ⟨ClipEntries.entries⟩

def Docs.view [Entries D] (docs : Docs D) : DocsView where
  devices := Entries.entries (docs.heap docs.set.devices)
  room name := (docs.get (.room name)).map fun d => Entries.entries (docs.heap d)

def Action.isInvoke : Action P → Bool
  | .invoke _ _ => true
  | _ => false

namespace Manager

def view (m : Manager D P) : SyncView where
  requirePairing := m.state.requirePairing
  isExplicitlyListed := m.state.isExplicitlyListed
  connected := m.state.connected .devices

/-- Start the operation of a handler. -/
def request (m : Manager D P) : Option Command → Manager D P
  | some command => m.setCalls (.caller 0) command.calls
  | none => m

/-- `SyncManager::new` over documents that exist already. The set of rooms is taken in the order
of the list, which only numbers the fan-outs. -/
def startOn [Yrs D P] (docs : Docs D) (device : DeviceInfo) (trust : TrustSettings)
    (rooms : List String) : Manager D P :=
  rooms.foldl (fun (m : Manager D P) name => (m.joinRoom name).1)
    ({ (initial device trust : Manager D P) with docs }.spawnFanOut .devices docs.set.devices)

/-- The threads other than the app loop start no operation. -/
def AppOnly (m : Manager D P) : Prop :=
  ∀ t ≠ .caller 0, ∀ c ∈ m.calls t, c.isEffect = true ∨ ∃ k g, c = .forceClose k g

theorem AppOnly.step [Yrs D P] [DecidableEq P] {m m' : Manager D P} {a : Action P}
    (h : m.AppOnly) (hs : m.Step a m') (ha : ∀ j command, a = .invoke j command → j = 0) :
    m'.AppOnly := by
  intro t ht c hc
  have hstep := hs.callStep t
  generalize hcs : m.calls t = cs at hstep
  generalize hcs' : m'.calls t = cs' at hstep hc
  have hold := hcs ▸ h t ht
  cases hstep with
  | idle => exact hold c hc
  | invoked hi => exact absurd (ha _ _ rfl ▸ hi) ht
  | made =>
    obtain hc | hc := List.mem_append.mp hc
    · exact .inl (m.perform_isEffect _ c hc)
    · exact hold c (List.mem_cons_of_mem _ hc)
  | given _ hn => exact hn c hc

/-- The calls of the app loop are left alone by the other threads. -/
theorem Step.app_calls [Yrs D P] [DecidableEq P] {m m' : Manager D P} {a : Action P}
    (hs : m.Step a m') (hi : a.isInvoke = false) (ha : a ≠ .call (.caller 0)) :
    m'.calls (.caller 0) = m.calls (.caller 0) := by
  refine hs.calls_of_ne fun ht => ?_
  cases a with
  | invoke => cases hi
  | call t => exact ha (congrArg Action.call (Option.some.inj ht))
  | _ => cases ht

/-- What the calls the app loop has left will make of `v`, if `act` is what a call makes of it. -/
def settle {V : Type*} (m : Manager D P) (act : Call → V → V) (v : V) : V :=
  (m.calls (.caller 0)).foldl (fun v c => act c v) v

theorem settle_idle {V : Type*} {m : Manager D P} (h : m.calls (.caller 0) = [])
    (act : Call → V → V) (v : V) : m.settle act v = v := by
  rw [settle, h]
  rfl

theorem settle_request {V : Type*} {m : Manager D P} (act : Call → V → V) (v : V)
    (command : Command) :
    (m.request (some command)).settle act v = command.calls.foldl (fun v c => act c v) v := by
  simp [settle, request]

theorem foldl_quiet {V : Type*} {act : Call → V → V} {cs : List Call}
    (h : ∀ c ∈ cs, ∀ v, act c v = v) (v : V) : cs.foldl (fun v c => act c v) v = v := by
  induction cs with
  | nil => rfl
  | cons c cs ih =>
    rw [List.foldl_cons, h c List.mem_cons_self]
    exact ih fun c' hc' => h c' (List.mem_cons_of_mem _ hc')

/-- A view that only the app's calls change settles to the same whatever the threads do. -/
theorem Step.settle_eq [Yrs D P] [DecidableEq P] {V : Type*} {act : Call → V → V}
    (view : Manager D P → V) (hset : ∀ (m : Manager D P) t cs, view (m.setCalls t cs) = view m)
    (hview : ∀ (m : Manager D P) c, view (m.perform c).1 = act c (view m))
    (hquiet : ∀ c, (c.isEffect = true ∨ ∃ k g, c = .forceClose k g) → ∀ v, act c v = v)
    {m m' : Manager D P} {a : Action P} (hs : m.Step a m') (ho : m.AppOnly)
    (ha : a.isInvoke = false) (hother : (∀ t, a ≠ .call t) → view m' = view m) :
    m'.settle act (view m') = m.settle act (view m) := by
  by_cases hcall : ∃ t, a = .call t
  · obtain ⟨t, rfl⟩ := hcall
    obtain ⟨c, cs, hc, rfl⟩ := hs.of_call
    rw [hset, hview, settle, settle, setCalls_calls, perform_calls]
    by_cases ht : t = .caller 0
    · subst ht
      have heffects : ∀ c' ∈ (m.perform c).2, ∀ v, act c' v = v := fun c' hc' =>
        hquiet c' (.inl (m.perform_isEffect c c' hc'))
      rw [Function.update_self, List.foldl_append, foldl_quiet heffects, hc, List.foldl_cons]
    · have hc := hquiet c (ho t ht c (by rw [hc]; exact List.mem_cons_self))
      rw [Function.update_of_ne (Ne.symm ht), hc]
  · have hcalls := hs.app_calls ha fun h => hcall ⟨_, h⟩
    rw [settle, settle, hcalls, hother fun t ht => hcall ⟨t, ht⟩]

end Manager

/-- Create every scope's document and wire its update forwarder. -/
def wireScopes [Yrs D P] (rooms : List String) : Docs D × Finset Scope :=
  (Scope.devices :: rooms.map .room).foldl
    (fun wired scope => ((wired.1.getOrCreate scope).1, insert scope wired.2)) (.new, ∅)

/-- What the command line decides. -/
structure EffectiveSettings where
  requirePairing : Bool
  mode : ShareMode
  advertiseRooms : Bool
  deriving DecidableEq, Repr

structure Instance (D P : Type) where
  app : App
  sync : Manager D P
  /-- How many of the manager's events the loop has taken. -/
  taken : Nat
  /-- What discovery has told the loop: the devices found and not lost since. -/
  present : Finset DeviceId

/-- What a step of an instance is. -/
inductive Instance.Act (P : Type) where
  /-- The loop takes an event and runs its handler. -/
  | handle (env : Env) (event : Event P)
  /-- A step of the manager's tasks, or the next call of the handler's operation. -/
  | sync (a : Action P)

namespace Instance

/-- The loop waits for its next event. -/
def Idle (i : Instance D P) : Prop := i.sync.calls (.caller 0) = []

instance (i : Instance D P) : Decidable i.Idle := inferInstanceAs (Decidable (_ = _))

/-- The events of the manager come in order; the other sources may deliver anything. -/
def Delivers (i : Instance D P) : Event P → Prop
  | .sync event => i.sync.events[i.taken]? = some event
  | _ => True

instance (i : Instance D P) (event : Event P) : Decidable (i.Delivers event) := by
  cases event <;> unfold Delivers <;> infer_instance

def takenAfter (i : Instance D P) : Event P → Nat
  | .sync _ => i.taken + 1
  | _ => i.taken

def presentAfter (i : Instance D P) : Event P → Finset DeviceId
  | .found peer => insert peer.deviceId i.present
  | .lost deviceId => i.present.erase deviceId
  | _ => i.present

/-- What the handler of `event` does now. -/
def react [Entries D] (i : Instance D P) (env : Env) (event : Event P) : Reaction :=
  i.app.handle i.sync.docs.view i.sync.view env event

section Step

variable [Yrs D P] [Entries D] [DecidableEq P]

def step (i : Instance D P) : Act P → Option (Instance D P)
  | .handle env event =>
    if i.Idle ∧ i.Delivers event then
      some {
        app := (i.react env event).app
        sync := i.sync.request (i.react env event).command
        taken := i.takenAfter event
        present := i.presentAfter event }
    else none
  | .sync a =>
    if a.isInvoke then none else (i.sync.step a).map fun m => { i with sync := m }

/-- `main`, up to the loop. -/
def start (config : Config) (name : String) (settings : EffectiveSettings) : Instance D P :=
  let rooms := sanitizeRooms config.rooms
  let device : DeviceInfo := ⟨config.deviceId, name⟩
  let wired : Docs D × Finset Scope := wireScopes rooms
  let trust : TrustSettings :=
    ⟨settings.requirePairing, config.allowed.toFinset, config.blocked.toFinset⟩
  { app := {
      device
      autoCapture := settings.mode.capturesClipboard
      autoApply := settings.mode.autoApplies
      advertiseRooms := settings.advertiseRooms
      peers := ∅
      joinedRooms := rooms.toFinset
      config := { config with rooms }
      lastAppliedEntryId := none
      configDirty := decide (rooms ≠ config.rooms)
      forwarders := wired.2
      advertised := if settings.advertiseRooms then rooms else [] }
    sync := .startOn wired.1 device trust rooms
    taken := 0
    present := ∅ }

end Step

/-- The runs of an instance that starts from `config`. -/
def system (D P : Type) [Yrs D P] [Entries D] [DecidableEq P] (config : Config) (name : String)
    (settings : EffectiveSettings) : System (Instance D P) (Act P) where
  init i := i = start config name settings
  step i a i' := i.step a = some i'

section Inversion

variable [Yrs D P] [Entries D] [DecidableEq P]

/-- A step is a turn of the loop, or a step of the manager's threads. -/
inductive Step (i : Instance D P) : Act P → Instance D P → Prop where
  | handle {env : Env} {event : Event P} (hidle : i.Idle) (hdel : i.Delivers event) :
      Step i (.handle env event) {
        app := (i.react env event).app
        sync := i.sync.request (i.react env event).command
        taken := i.takenAfter event
        present := i.presentAfter event }
  | sync {a : Action P} {m : Manager D P} (ha : a.isInvoke = false) (hs : i.sync.step a = some m) :
      Step i (.sync a) { i with sync := m }

theorem step_cases {i i' : Instance D P} {a : Act P} (h : i.step a = some i') : i.Step a i' := by
  cases a with
  | handle env event =>
    simp only [step] at h
    split at h
    · obtain rfl := Option.some.inj h
      exact .handle (And.left ‹_›) (And.right ‹_›)
    · cases h
  | sync a =>
    simp only [step] at h
    split at h
    · cases h
    · rename_i ha
      obtain ⟨m, hm, rfl⟩ := Option.map_eq_some_iff.mp h
      exact .sync (by simpa using ha) hm

omit [Entries D] in
/-- Requesting an operation is a step of the manager. -/
theorem request_step {m : Manager D P} (h : m.calls (.caller 0) = []) (command : Command) :
    m.step (.invoke 0 command) = some (m.request (some command)) := by
  simp [Manager.step, Manager.request, h]

end Inversion

section Start

variable [Yrs D P]

/-- Add the missing documents of `rooms`. -/
def wireDocs (docs : Docs D) (rooms : List String) : Docs D :=
  rooms.foldl (fun docs name => (docs.getOrCreate (.room name)).1) docs

theorem wireDocs_get {docs : Docs D} {scope : Scope} {d : DocId} (h : docs.get scope = some d)
    (rooms : List String) : (wireDocs docs rooms).get scope = some d := by
  induction rooms generalizing docs with
  | nil => exact h
  | cons name rooms ih => exact ih (Docs.getOrCreate_get_of_some _ h)

theorem wireScopes_eq (rooms : List String) :
    (wireScopes rooms : Docs D × Finset Scope) =
      (wireDocs .new rooms, insert .devices (rooms.map Scope.room).toFinset) := by
  have key (docs : Docs D) (forwarders : Finset Scope) (scopes : List Scope) :
      scopes.foldl (fun wired scope => ((wired.1.getOrCreate scope).1, insert scope wired.2))
          (docs, forwarders) =
        (scopes.foldl (fun docs scope => (docs.getOrCreate scope).1) docs,
          scopes.toFinset ∪ forwarders) := by
    induction scopes generalizing docs forwarders with
    | nil => simp
    | cons scope scopes ih => simp [ih]
  rw [wireScopes, key, List.foldl_cons, List.foldl_map, List.toFinset_cons, Finset.union_empty]
  rfl

/-- Joining finds the document that was wired ahead, and so opens the same room. -/
theorem joinRoom_wired {m : Manager D P} {name : String} (hc : Canonical name)
    (hn : name ∉ m.state.joined) (rooms : List String) :
    (({ m with docs := wireDocs m.docs (name :: rooms) } : Manager D P).joinRoom name).1 =
      { (m.joinRoom name).1 with docs := wireDocs (m.joinRoom name).1.docs rooms } := by
  have hjoin : ¬ (¬ Canonical name ∨ name ∈ m.state.joined) := by simp [hc, hn]
  have hget := wireDocs_get (m.docs.getOrCreate_get (.room name)) rooms
  have hwired : wireDocs m.docs (name :: rooms) =
      wireDocs (m.docs.getOrCreate (.room name)).1 rooms := rfl
  simp only [Manager.joinRoom, if_neg hjoin, hwired, Docs.getOrCreate_of_some hget,
    Manager.spawnFanOut]
  rfl

theorem foldl_joinRoom_wired {rooms : List String} {m : Manager D P}
    (hc : ∀ name ∈ rooms, Canonical name) (hnd : rooms.Nodup)
    (hj : ∀ name ∈ rooms, name ∉ m.state.joined) :
    rooms.foldl (fun m name => (m.joinRoom name).1) { m with docs := wireDocs m.docs rooms } =
      rooms.foldl (fun (m : Manager D P) name => (m.joinRoom name).1) m := by
  induction rooms generalizing m with
  | nil => rfl
  | cons name rooms ih =>
    obtain ⟨hnot, hnd⟩ := List.nodup_cons.mp hnd
    have hname := hj name List.mem_cons_self
    rw [List.foldl_cons, List.foldl_cons, joinRoom_wired (hc name List.mem_cons_self) hname]
    refine ih (fun n hn => hc n (List.mem_cons_of_mem _ hn)) hnd fun n hn hin => ?_
    obtain h | ⟨-, -, h, -⟩ := m.joinRoom_cases name
    · rw [h] at hin
      exact hj n (List.mem_cons_of_mem _ hn) hin
    · rw [h] at hin
      obtain rfl | hin := Finset.mem_insert.mp hin
      · exact hnot hn
      · exact hj n (List.mem_cons_of_mem _ hn) hin

/-- Wiring the scopes ahead of sync gives the manager that would create its own documents. -/
theorem start_sync (config : Config) (name : String) (settings : EffectiveSettings) :
    (start config name settings : Instance D P).sync = .new ⟨config.deviceId, name⟩
      ⟨settings.requirePairing, config.allowed.toFinset, config.blocked.toFinset⟩
      (sanitizeRooms config.rooms) := by
  obtain ⟨hsorted, hcanonical⟩ := sanitizeRooms_roomList config.rooms
  have hget := wireDocs_get (Docs.new (D := D)).set.get_devices (sanitizeRooms config.rooms)
  have hdev : (wireDocs (Docs.new : Docs D) (sanitizeRooms config.rooms)).set.devices = 0 :=
    Option.some.inj hget
  simp only [start, wireScopes_eq, Manager.startOn, hdev, Manager.new]
  refine Eq.trans ?_ (foldl_joinRoom_wired hcanonical hsorted.nodup ?_)
  · rfl
  · simp [Manager.spawnFanOut, Manager.initial]

end Start

section Refinement

variable [Yrs D P] [Entries D] [DecidableEq P] {config : Config} {name : String}
  {settings : EffectiveSettings} {i : Instance D P}

/-- What an instance does to its manager is a run of the manager. -/
theorem Reachable.sync (h : (system D P config name settings).Reachable i) :
    (Yoink.system D P ⟨config.deviceId, name⟩).Reachable i.sync := by
  refine h.map (·.sync) ?_ fun i a i' _ hr hs => ?_
  · rintro i rfl
    exact ⟨[], .start ⟨_, _, start_sync config name settings⟩⟩
  · cases step_cases hs with
    | @handle env event hidle hdel =>
      cases hc : (i.react env event).command with
      | none => exact hr
      | some command => exact hr.next (request_step hidle command)
    | sync ha hm => exact hr.next hm

theorem Reachable.appOnly (h : (system D P config name settings).Reachable i) :
    i.sync.AppOnly := by
  refine h.invariant (I := fun i => i.sync.AppOnly) ?_ fun i a i' _ hI hs => ?_
  · rintro i rfl t - c hc
    rw [start_sync, (Manager.new_bare _ _ _).calls] at hc
    cases hc
  · cases step_cases hs with
    | @handle env event hidle hdel =>
      cases hc : (i.react env event).command with
      | none => exact hI
      | some command =>
        refine hI.step (Manager.step_cases (request_step hidle command)) fun j c hj => ?_
        cases hj
        rfl
    | sync ha hm =>
      refine hI.step (Manager.step_cases hm) fun j c hj => ?_
      rw [hj] at ha
      cases ha

/-- Executing steps from the start is a run. -/
theorem run_of_exec {as : List (Act P)}
    (h : System.exec step (start config name settings) as = some i) :
    (system D P config name settings).Run
      (System.trace step (start config name settings) as) i := by
  have h₀ : (system D P config name settings).Run [] (start config name settings) := .start rfl
  exact h₀.exec (fun _ _ _ hs => hs) h

/-- The thread a step may take a call from or give calls to. -/
def Act.thread : Act P → Option ThreadId
  | .handle _ _ => some (.caller 0)
  | .sync a => a.thread

theorem Step.calls_of_ne {i' : Instance D P} {a : Act P} (h : i.Step a i') {t : ThreadId}
    (ht : a.thread ≠ some t) : i'.sync.calls t = i.sync.calls t := by
  cases h with
  | @handle env event hidle hdel =>
    have ht : t ≠ .caller 0 := fun h => ht (h ▸ rfl)
    cases hc : (i.react env event).command with
    | none => rfl
    | some command => exact Function.update_of_ne ht _ _
  | sync ha hm => exact (Manager.step_cases hm).calls_of_ne ht

/-- Only the threads a run names have calls to make. -/
theorem Run.idle {τ : List (Transition (Instance D P) (Act P))}
    (h : (system D P config name settings).Run τ i)
    (hall : ∀ t ∈ τ.filterMap (·.act.thread), i.sync.calls t = []) (t : ThreadId) :
    i.sync.calls t = [] := by
  have hbusy : i.sync.calls t ≠ [] → t ∈ τ.filterMap (·.act.thread) := by
    refine h.history (I := fun τ i => i.sync.calls t ≠ [] → t ∈ τ.filterMap (·.act.thread)) ?_
      fun τ i a i' _ hI hs hc => ?_
    · rintro i rfl hc
      rw [start_sync, (Manager.new_bare _ _ _).calls] at hc
      exact absurd rfl hc
    · rw [List.filterMap_append, List.mem_append]
      by_cases ha : a.thread = some t
      · exact .inr (by simp [ha])
      · exact .inl (hI ((step_cases hs).calls_of_ne ha ▸ hc))
  by_contra hne
  exact hne (hall t (hbusy hne))

end Refinement

end Instance

end Yoink
