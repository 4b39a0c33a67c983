import Yoink.App.Notices
import Yoink.Library.Mirror
import Yoink.Server.Api

/-!
# The process

A `Process` is a backend with the handlers of its web server: one runs for every request, until it
has answered or its client goes away. A command waits for the loop's channel to take it. A state is
built by reading one part of the shared state at a time, while the loop and the tasks go on.
-/

namespace Yoink

variable {D P : Type}

/-- The capacity of the command channel. -/
def commandQueue : Nat := 64

/-- The capacity of the channel that tells the pages of a change. -/
def notifyBacklog : Nat := 64

/-- What `build_state` reads, one lock at a time. -/
inductive Part where
  | registry
  | settings
  | joined
  /-- `docs.get(scope)`. -/
  | doc
  /-- `doc.entries()`. -/
  | entries
  | scopeConnected
  | devicesConnected
  | requirePairing
  | explicit
  deriving DecidableEq, Repr

/-- The reads of `build_state`, in order. For the devices scope the connections are read once. -/
def Part.all : Scope → List Part
  | .devices =>
    [.registry, .settings, .joined, .doc, .entries, .scopeConnected, .requirePairing, .explicit]
  | .room _ =>
    [.registry, .settings, .joined, .doc, .entries, .scopeConnected, .devicesConnected,
      .requirePairing, .explicit]

/-- `build_state` in progress. -/
structure StateBuild where
  unread : List Part
  doc : Option DocId
  snapshot : StateSnapshot

/-- Nothing has been read. -/
def StateBuild.start (device : DeviceInfo) (scope : Scope) : StateBuild where
  unread := Part.all scope
  doc := none
  snapshot := {
    device
    settings := ⟨.manual, false⟩
    scope
    registry := ∅
    requirePairing := false
    explicit := ∅
    order := ⟨[], List.nodup_nil, by simp⟩
    devicesConnected := ∅
    scopeConnected := ∅
    joined := ∅
    entries := [] }

/-- `ui_socket`. -/
structure UiSocket where
  notes : Receiver Unit
  build : StateBuild
  /-- The snapshot last sent. -/
  pushed : Option StateSnapshot
  /-- What has been built is sent. -/
  sent : Bool

/-- How far a request is. -/
inductive Stage where
  /-- `commands.send`, waiting for the channel to take the command. -/
  | posting (command : AppCommand)
  | reading (build : StateBuild)
  | answered (snapshot : StateSnapshot)
  | socket (socket : UiSocket)
  | closed

structure Client where
  request : Server.Request
  stage : Stage

/-- A client is notified, if it is a socket. -/
def Client.note (client : Client) : Client :=
  match client.stage with
  | .socket s => { client with stage := .socket { s with notes := s.notes.send notifyBacklog () } }
  | _ => client

theorem Client.note_request (client : Client) : client.note.request = client.request := by
  unfold Client.note
  split <;> rfl

theorem Client.note_posting (client : Client) {c : AppCommand} :
    client.note.stage = .posting c ↔ client.stage = .posting c := by
  unfold Client.note
  split <;> simp_all

section Parts

variable [Entries D]

/-- One read of `build_state`. -/
def Backend.readPart (b : Backend D P) (iterate : (s : Finset DeviceId) → Iteration s)
    (build : StateBuild) : Part → StateBuild
  | .registry => { build with snapshot.registry := b.inst.app.peers }
  | .settings => { build with snapshot.settings := b.settings }
  | .joined => { build with snapshot.joined := b.inst.app.joinedRooms }
  | .doc => { build with doc := b.inst.sync.docs.get build.snapshot.scope }
  | .entries =>
    { build with snapshot.entries :=
        (build.doc.map fun d => Entries.entries (b.inst.sync.docs.heap d)).getD [] }
  | .scopeConnected =>
    let connected := b.inst.sync.state.connected build.snapshot.scope
    { build with
      snapshot.scopeConnected := connected
      snapshot.devicesConnected :=
        if build.snapshot.scope.isDevices then connected else build.snapshot.devicesConnected }
  | .devicesConnected =>
    { build with snapshot.devicesConnected := b.inst.sync.state.connected .devices }
  | .requirePairing =>
    { build with snapshot.requirePairing := b.inst.sync.state.requirePairing }
  | .explicit =>
    let explicit := if build.snapshot.requirePairing then b.inst.sync.state.allowed
      else b.inst.sync.state.blocked
    { build with snapshot := { build.snapshot with explicit, order := iterate explicit } }

/-- The next read, if one is left. -/
def Backend.advance (b : Backend D P) (iterate : (s : Finset DeviceId) → Iteration s)
    (build : StateBuild) : Option StateBuild :=
  match build.unread with
  | part :: unread => some { b.readPart iterate build part with unread }
  | [] => none

end Parts

structure Process (D P : Type) extends Backend D P where
  commands : List AppCommand
  clients : Nat → Option Client

namespace Process

/-- What a step of a process is. -/
inductive Act (P : Type) where
  | backend (a : Backend.Act P)
  /-- A request arrives. -/
  | request (k : Nat) (r : Server.Request)
  /-- The command channel takes the command of a request. -/
  | enqueue (k : Nat)
  /-- `build_state` reads its next part; sets may iterate in any order. -/
  | read (k : Nat) (iterate : (s : Finset DeviceId) → Iteration s)
  /-- What has been built is sent. -/
  | push (k : Nat)
  /-- A socket takes a notification. -/
  | wake (k : Nat)
  /-- A client goes away, or its socket fails. -/
  | close (k : Nat)

section Parts

variable [Entries D]

/-- The shared state the server reads. -/
def ctx (p : Process D P) : ServerCtx where
  device := p.inst.app.device
  docs := p.inst.sync.docs.view
  sync := p.inst.sync.state
  peers := p.inst.app.peers
  settings := p.settings
  joinedRooms := p.inst.app.joinedRooms

end Parts

/-- The command is at the head of its channel. -/
def Offers (p : Process D P) : Backend.Act P → Prop
  | .handle _ (.command command) => p.commands.head? = some command
  | _ => True

instance (p : Process D P) (a : Backend.Act P) : Decidable (p.Offers a) := by
  unfold Offers
  split <;> infer_instance

def commandsAfter (p : Process D P) : Backend.Act P → List AppCommand
  | .handle _ (.command _) => p.commands.tail
  | _ => p.commands

/-- A notification is for every socket. -/
def clientsAfter (p : Process D P) : Backend.Act P → Nat → Option Client
  | .notify => fun k => (p.clients k).map Client.note
  | _ => p.clients

/-- One of the clients gets on. -/
def setStage (p : Process D P) (k : Nat) (r : Server.Request) (stage : Stage) : Process D P :=
  { p with clients := Function.update p.clients k (some ⟨r, stage⟩) }

section Step

variable [Yrs D P] [Entries D] [DecidableEq P] (web : Server.Extractors)

/-- What a request starts. -/
def stageOf (p : Process D P) (r : Server.Request) : Stage :=
  match Server.answer web r with
  | .enqueue command => .posting command
  | .state scope => .reading (.start p.inst.app.device scope)
  | .ui scope => .socket ⟨.subscribed, .start p.inst.app.device scope, none, false⟩
  | _ => .closed

def step (p : Process D P) : Act P → Option (Process D P)
  | .backend a =>
    if p.Offers a then
      (p.toBackend.step a).map fun b =>
        { toBackend := b, commands := p.commandsAfter a, clients := p.clientsAfter a }
    else none
  | .request k r =>
    if (p.clients k).isNone then some (p.setStage k r (p.stageOf web r)) else none
  | .enqueue k =>
    match p.clients k with
    | some ⟨r, .posting command⟩ =>
      if p.commands.length < commandQueue then
        some { p.setStage k r .closed with commands := p.commands ++ [command] }
      else none
    | _ => none
  | .read k iterate =>
    match p.clients k with
    | some ⟨r, .reading build⟩ =>
      (p.advance iterate build).map fun build => p.setStage k r (.reading build)
    | some ⟨r, .socket s⟩ =>
      (p.advance iterate s.build).map fun build => p.setStage k r (.socket { s with build })
    | _ => none
  | .push k =>
    match p.clients k with
    | some ⟨r, .reading build⟩ =>
      if build.unread = [] then some (p.setStage k r (.answered build.snapshot)) else none
    | some ⟨r, .socket s⟩ =>
      if s.build.unread = [] ∧ s.sent = false then
        some (p.setStage k r (.socket { s with pushed := some s.build.snapshot, sent := true }))
      else none
    | _ => none
  | .wake k =>
    match p.clients k with
    | some ⟨r, .socket s⟩ =>
      if s.sent then
        s.notes.recv.map fun received => p.setStage k r (.socket { s with
          notes := received.2
          build := { s.build with unread := Part.all s.build.snapshot.scope }
          sent := false })
      else none
    | _ => none
  | .close k => (p.clients k).map fun client => p.setStage k client.request .closed

/-- `main`, when the web server is spawned. -/
def start (config : Config) (name : String) (effective : EffectiveSettings)
    (clipboardAvailable : Bool) : Process D P where
  toBackend := .start config name effective clipboardAvailable
  commands := []
  clients _ := none

end Step

/-- The runs of a process. -/
def system (D P : Type) [Yrs D P] [Entries D] [DecidableEq P] (web : Server.Extractors)
    (config : Config) (name : String) (effective : EffectiveSettings) (clipboardAvailable : Bool) :
    System (Process D P) (Act P) where
  init p := p = start config name effective clipboardAvailable
  step p a p' := p.step web a = some p'

section Inversion

variable [Yrs D P] [Entries D] [DecidableEq P] {web : Server.Extractors}

inductive Step (web : Server.Extractors) (p : Process D P) : Act P → Process D P → Prop where
  | backend {a : Backend.Act P} {b : Backend D P} (ho : p.Offers a)
      (hs : p.toBackend.step a = some b) : Step web p (.backend a)
        { toBackend := b, commands := p.commandsAfter a, clients := p.clientsAfter a }
  | request {k : Nat} {r : Server.Request} (hk : p.clients k = none) :
      Step web p (.request k r) (p.setStage k r (p.stageOf web r))
  | enqueue {k : Nat} {r : Server.Request} {command : AppCommand}
      (hk : p.clients k = some ⟨r, .posting command⟩) (hroom : p.commands.length < commandQueue) :
      Step web p (.enqueue k)
        { p.setStage k r .closed with commands := p.commands ++ [command] }
  | read {k : Nat} {iterate : (s : Finset DeviceId) → Iteration s} {r : Server.Request}
      {build build' : StateBuild} (hk : p.clients k = some ⟨r, .reading build⟩)
      (hb : p.advance iterate build = some build') :
      Step web p (.read k iterate) (p.setStage k r (.reading build'))
  | readSocket {k : Nat} {iterate : (s : Finset DeviceId) → Iteration s} {r : Server.Request}
      {s : UiSocket} {build : StateBuild} (hk : p.clients k = some ⟨r, .socket s⟩)
      (hb : p.advance iterate s.build = some build) :
      Step web p (.read k iterate) (p.setStage k r (.socket { s with build }))
  | answer {k : Nat} {r : Server.Request} {build : StateBuild}
      (hk : p.clients k = some ⟨r, .reading build⟩) (hu : build.unread = []) :
      Step web p (.push k) (p.setStage k r (.answered build.snapshot))
  | push {k : Nat} {r : Server.Request} {s : UiSocket} (hk : p.clients k = some ⟨r, .socket s⟩)
      (hu : s.build.unread = []) (hs : s.sent = false) : Step web p (.push k)
        (p.setStage k r (.socket { s with pushed := some s.build.snapshot, sent := true }))
  | wake {k : Nat} {r : Server.Request} {s : UiSocket} {x : Received Unit} {notes : Receiver Unit}
      (hk : p.clients k = some ⟨r, .socket s⟩) (hs : s.sent = true)
      (hr : s.notes.recv = some (x, notes)) : Step web p (.wake k) (p.setStage k r (.socket { s with
        notes
        build := { s.build with unread := Part.all s.build.snapshot.scope }
        sent := false }))
  | close {k : Nat} {client : Client} (hk : p.clients k = some client) :
      Step web p (.close k) (p.setStage k client.request .closed)

theorem step_cases {p p' : Process D P} {a : Act P} (h : p.step web a = some p') :
    p.Step web a p' := by
  cases a with
  | backend a =>
    simp only [step] at h
    split at h
    · obtain ⟨b, hs, rfl⟩ := Option.map_eq_some_iff.mp h
      exact .backend ‹_› hs
    · cases h
  | request k r =>
    simp only [step] at h
    split at h
    · cases h
      exact .request (Option.isNone_iff_eq_none.mp ‹_›)
    · cases h
  | enqueue k =>
    simp only [step] at h
    split at h
    · split at h
      · cases h
        exact .enqueue ‹_› ‹_›
      · cases h
    · cases h
  | read k iterate =>
    simp only [step] at h
    split at h
    · obtain ⟨build, hb, rfl⟩ := Option.map_eq_some_iff.mp h
      exact .read ‹_› hb
    · obtain ⟨build, hb, rfl⟩ := Option.map_eq_some_iff.mp h
      exact .readSocket ‹_› hb
    · cases h
  | push k =>
    simp only [step] at h
    split at h
    · split at h
      · cases h
        exact .answer ‹_› ‹_›
      · cases h
    · split at h
      · next hc =>
        cases h
        exact .push ‹_› hc.1 hc.2
      · cases h
    · cases h
  | wake k =>
    simp only [step] at h
    split at h
    · split at h
      · obtain ⟨received, hr, rfl⟩ := Option.map_eq_some_iff.mp h
        exact .wake ‹_› ‹_› hr
      · cases h
    · cases h
  | close k =>
    obtain ⟨client, hk, rfl⟩ := Option.map_eq_some_iff.mp h
    exact .close hk

variable {config : Config} {name : String} {effective : EffectiveSettings}
  {clipboardAvailable : Bool} {p : Process D P}

/-- A process runs its backend. -/
theorem Reachable.backend
    (h : (system D P web config name effective clipboardAvailable).Reachable p) :
    (Backend.system D P config name effective clipboardAvailable).Reachable p.toBackend := by
  refine h.map (·.toBackend) ?_ fun p a p' _ hr hs => ?_
  · rintro p rfl
    exact ⟨[], .start rfl⟩
  · cases step_cases hs with
    | backend _ hb => exact hr.next hb
    | _ => exact hr

end Inversion

section Commands

/-- A command the channel took, and the request that posted it. -/
structure Accepted where
  id : Nat
  request : Server.Request
  command : AppCommand

/-- What the command channel takes in a step. -/
def accepts (t : Transition (Process D P) (Act P)) : Option Accepted :=
  match t.act with
  | .enqueue k =>
    match t.pre.clients k with
    | some ⟨r, .posting command⟩ => some ⟨k, r, command⟩
    | _ => none
  | _ => none

/-- The commands the channel took in a run. -/
def accepted (τ : List (Transition (Process D P) (Act P))) : List Accepted := τ.filterMap accepts

/-- The command the loop takes in a step. -/
def Act.executes : Act P → Option AppCommand
  | .backend (.handle _ (.command command)) => some command
  | _ => none

/-- The commands the loop executed in a run. -/
def executed (τ : List (Transition (Process D P) (Act P))) : List AppCommand :=
  τ.filterMap (·.act.executes)

/-- A local client posts a body that means the command. -/
def Posts (web : Server.Extractors) (r : Server.Request) (command : AppCommand) : Prop :=
  r.method = .post ∧ Server.segments r.path = ["api", "command"] ∧
    r.peer.any IpAddr.isLoopback = true ∧ ∃ bytes value, r.body = some bytes ∧
      web.json.fromSlice bytes = some value ∧ command.Means value

/-- What a run says of the commands that are posted. -/
structure Posted (web : Server.Extractors) (τ : List (Transition (Process D P) (Act P)))
    (p : Process D P) : Prop where
  order : executed τ ++ p.commands = (accepted τ).map (·.command)
  room : p.commands.length ≤ commandQueue
  once : ((accepted τ).map (·.id)).Nodup
  source : ∀ a ∈ accepted τ, (∃ t ∈ τ, t.act = .request a.id a.request) ∧
    Posts web a.request a.command
  /-- A request that was served is not served again. -/
  served : ∀ a ∈ accepted τ, ∃ client, p.clients a.id = some client ∧
    ∀ command, client.stage ≠ .posting command
  waiting : ∀ k r command, p.clients k = some ⟨r, .posting command⟩ →
    (∃ t ∈ τ, t.act = .request k r) ∧ Posts web r command

section Posted

variable {web : Server.Extractors} {τ : List (Transition (Process D P) (Act P))}
  {p p' : Process D P} {a : Act P}

theorem stageOf_posting {r : Server.Request} {command : AppCommand}
    (h : p.stageOf web r = .posting command) : Posts web r command := by
  unfold stageOf at h
  split at h
  · cases h
    exact Server.answer_enqueue.mp ‹_›
  all_goals cases h

theorem setStage_clients (p : Process D P) (k j : Nat) (r : Server.Request) (stage : Stage) :
    (p.setStage k r stage).clients j = if j = k then some ⟨r, stage⟩ else p.clients j := by
  simp [setStage, Function.update_apply]

/-- Of the backend's steps, a notification reaches the sockets and no other client changes. -/
theorem clientsAfter_cases (p : Process D P) (a : Backend.Act P) (k : Nat) :
    p.clientsAfter a k = p.clients k ∨ p.clientsAfter a k = (p.clients k).map Client.note := by
  unfold clientsAfter
  split
  · exact .inr rfl
  · exact .inl rfl

/-- A client that is not posting is not posting after a step of the backend. -/
theorem clientsAfter_served {b : Backend.Act P} {k : Nat} {client : Client}
    (hk : p.clients k = some client) (hc : ∀ c, client.stage ≠ .posting c) :
    ∃ client', p.clientsAfter b k = some client' ∧ ∀ c, client'.stage ≠ .posting c := by
  obtain heq | heq := p.clientsAfter_cases b k
  · exact ⟨client, heq.trans hk, hc⟩
  · exact ⟨client.note, by rw [heq, hk]; rfl, fun c hn => hc c (client.note_posting.mp hn)⟩

/-- And one that is posting was before. -/
theorem clientsAfter_posting {b : Backend.Act P} {k : Nat} {r : Server.Request} {c : AppCommand}
    (hk : p.clientsAfter b k = some ⟨r, .posting c⟩) : p.clients k = some ⟨r, .posting c⟩ := by
  obtain heq | heq := p.clientsAfter_cases b k
  · exact heq.symm.trans hk
  · obtain ⟨client, hclient, hnote⟩ := Option.map_eq_some_iff.mp (heq.symm.trans hk)
    have hstage : client.note.stage = .posting c := by rw [hnote]
    have hrequest : client.request = r := by rw [← client.note_request, hnote]
    rw [hclient, ← hrequest, ← client.note_posting.mp hstage]

/-- The command that a handler executes is the first one that waits. -/
theorem commandsAfter_offered {b : Backend.Act P} (h : p.Offers b) :
    (Act.backend b).executes.toList ++ p.commandsAfter b = p.commands := by
  cases b with
  | handle env event =>
    cases event with
    | command c =>
      have hhead : p.commands.head? = some c := h
      exact List.cons_head?_tail hhead
    | _ => rfl
  | _ => rfl

/-- What is known of a request stays known. -/
theorem asked_append {k : Nat} {r : Server.Request} (h : ∃ t ∈ τ, t.act = .request k r)
    (u : Transition (Process D P) (Act P)) : ∃ t ∈ τ ++ [u], t.act = .request k r := by
  obtain ⟨t, ht, hact⟩ := h
  exact ⟨t, List.mem_append_left _ ht, hact⟩

/-- A step that accepts no command, and takes the first one if it executes one. -/
theorem Posted.keep (h : Posted web τ p) (hacc : accepts ⟨p, a, p'⟩ = none)
    (hcommands : a.executes.toList ++ p'.commands = p.commands)
    (hserved : ∀ k client, p.clients k = some client → (∀ c, client.stage ≠ .posting c) →
      ∃ client', p'.clients k = some client' ∧ ∀ c, client'.stage ≠ .posting c)
    (hwaiting : ∀ k r c, p'.clients k = some ⟨r, .posting c⟩ →
      p.clients k = some ⟨r, .posting c⟩ ∨ (a = .request k r ∧ Posts web r c)) :
    Posted web (τ ++ [⟨p, a, p'⟩]) p' := by
  have haccepted : accepted (τ ++ [⟨p, a, p'⟩]) = accepted τ := by
    simp [accepted, hacc]
  have hexecuted : executed (τ ++ [⟨p, a, p'⟩]) = executed τ ++ a.executes.toList := by
    cases hex : a.executes <;> simp [executed, hex]
  refine ⟨?_, ?_, ?_, ?_, ?_, ?_⟩
  · rw [haccepted, hexecuted, List.append_assoc, hcommands]
    exact h.order
  · have hlength := congrArg List.length hcommands
    rw [List.length_append] at hlength
    exact le_trans (by omega) h.room
  · rw [haccepted]
    exact h.once
  · rw [haccepted]
    exact fun acc hmem => (h.source acc hmem).imp_left fun ht => asked_append ht _
  · rw [haccepted]
    intro acc hmem
    obtain ⟨client, hclient, hstage⟩ := h.served acc hmem
    exact hserved _ client hclient hstage
  · intro k r c hk
    obtain hk | ⟨hact, hposts⟩ := hwaiting k r c hk
    · exact (h.waiting k r c hk).imp_left fun ht => asked_append ht _
    · exact ⟨⟨_, List.mem_append_right _ (List.mem_singleton_self _), hact⟩, hposts⟩

/-- A handler that is not posting gets on, and goes on not to post. -/
theorem Posted.keep_stage (h : Posted web τ p) {k : Nat} {r : Server.Request} {stage : Stage}
    (hacc : accepts ⟨p, a, p.setStage k r stage⟩ = none) (hex : a.executes = none)
    (hstage : ∀ c, stage ≠ .posting c) :
    Posted web (τ ++ [⟨p, a, p.setStage k r stage⟩]) (p.setStage k r stage) := by
  refine h.keep hacc (by rw [hex]; rfl) (fun j client hj hc => ?_) fun j r' c hj => ?_
  · rw [setStage_clients]
    split
    · exact ⟨_, rfl, hstage⟩
    · exact ⟨client, hj, hc⟩
  · rw [setStage_clients] at hj
    split at hj
    · cases hj
      exact absurd rfl (hstage c)
    · exact .inl hj

/-- The command of a request that was waiting is accepted, behind those that wait. -/
theorem Posted.enqueue (h : Posted web τ p) {k : Nat} {r : Server.Request} {command : AppCommand}
    (hk : p.clients k = some ⟨r, .posting command⟩) (hroom : p.commands.length < commandQueue)
    (hp' : p' = { p.setStage k r .closed with commands := p.commands ++ [command] }) :
    Posted web (τ ++ [⟨p, .enqueue k, p'⟩]) p' := by
  have haccepted : accepted (τ ++ [⟨p, .enqueue k, p'⟩]) = accepted τ ++ [⟨k, r, command⟩] := by
    simp [accepted, accepts, hk]
  subst hp'
  refine ⟨?_, ?_, ?_, ?_, ?_, ?_⟩
  · rw [haccepted, List.map_append, ← h.order]
    simp [executed, Act.executes]
  · rw [List.length_append, List.length_singleton]
    omega
  · -- The request was waiting, and so had not been served.
    rw [haccepted, List.map_append, List.nodup_append]
    refine ⟨h.once, by simp, ?_⟩
    rintro j hj j' hj' rfl
    obtain ⟨acc, hmem, rfl⟩ := List.mem_map.mp hj
    obtain ⟨client, hclient, hstage⟩ := h.served acc hmem
    obtain rfl : acc.id = k := by simpa using hj'
    obtain rfl := Option.some.inj (hclient.symm.trans hk)
    exact hstage command rfl
  · rw [haccepted]
    intro acc hmem
    obtain hmem | hmem := List.mem_append.mp hmem
    · exact (h.source acc hmem).imp_left fun ht => asked_append ht _
    · obtain rfl := List.mem_singleton.mp hmem
      exact (h.waiting k r command hk).imp_left fun ht => asked_append ht _
  · rw [haccepted]
    intro acc hmem
    by_cases hid : acc.id = k
    · exact ⟨⟨r, .closed⟩, by simp [setStage, hid], by simp⟩
    · obtain hmem | hmem := List.mem_append.mp hmem
      · simpa [setStage, hid] using h.served acc hmem
      · obtain rfl := List.mem_singleton.mp hmem
        exact absurd rfl hid
  · intro j r' c hj
    by_cases hjk : j = k
    · simp [setStage, hjk] at hj
    · have hj : p.clients j = some ⟨r', .posting c⟩ := by simpa [setStage, hjk] using hj
      exact (h.waiting j r' c hj).imp_left fun ht => asked_append ht _

variable [Yrs D P] [Entries D] [DecidableEq P]

theorem Posted.step (h : Posted web τ p) (hs : p.Step web a p') :
    Posted web (τ ++ [⟨p, a, p'⟩]) p' := by
  cases hs with
  | backend ho hb =>
    exact h.keep rfl (commandsAfter_offered ho) (fun _ _ => clientsAfter_served)
      fun _ _ _ hk => .inl (clientsAfter_posting hk)
  | @request k r hk =>
    refine h.keep rfl rfl (fun j client hj hc => ?_) fun j r' c hj => ?_
    · rw [setStage_clients]
      split
      · next heq =>
        subst heq
        rw [hk] at hj
        cases hj
      · exact ⟨client, hj, hc⟩
    · rw [setStage_clients] at hj
      split at hj
      · next heq =>
        subst heq
        obtain ⟨rfl, hstage⟩ := Client.mk.inj (Option.some.inj hj)
        exact .inr ⟨rfl, stageOf_posting hstage⟩
      · exact .inl hj
  | enqueue hk hroom => exact h.enqueue hk hroom rfl
  | read hk => exact h.keep_stage rfl rfl (by simp)
  | readSocket hk => exact h.keep_stage rfl rfl (by simp)
  | answer hk => exact h.keep_stage rfl rfl (by simp)
  | push hk => exact h.keep_stage rfl rfl (by simp)
  | wake hk => exact h.keep_stage rfl rfl (by simp)
  | close hk => exact h.keep_stage rfl rfl (by simp)

variable {config : Config} {name : String} {effective : EffectiveSettings}
  {clipboardAvailable : Bool}

theorem Run.posted (h : (system D P web config name effective clipboardAvailable).Run τ p) :
    Posted web τ p := by
  refine h.history (I := Posted web) ?_ fun τ p a p' _ hI hs => hI.step (step_cases hs)
  rintro p rfl
  constructor <;> simp [start, executed, accepted]

/-- The commands the loop executes, and then those that wait for it, are the commands that were
accepted, each once and in order; and each was posted by a local client, in a body that means
it. -/
theorem commands_posted
    (h : (system D P web config name effective clipboardAvailable).Run τ p) :
    executed τ ++ p.commands = (accepted τ).map (·.command) ∧
      p.commands.length ≤ commandQueue ∧ ((accepted τ).map (·.id)).Nodup ∧
      ∀ a ∈ accepted τ, (∃ t ∈ τ, t.act = .request a.id a.request) ∧
        Posts web a.request a.command := by
  have hp := Run.posted h
  exact ⟨hp.order, hp.room, hp.once, hp.source⟩

/-- The libraries, for paths without escapes and queries that only ask for a scope. -/
def plainWeb : Server.Extractors where
  decode := Server.plain
  scopeQuery query := some (query.bind fun q =>
    if q.toList.take 6 = "scope=".toList then some (String.ofList (q.toList.drop 6)) else none)
  json := compactJson

/-- A local page posts a command. -/
def post (entries : List (String × Json)) : Server.Request :=
  ⟨some (.v4 0x7f000001), .post, "/api/command", none, false, compactJson.toVec (.object entries)⟩

/-- The process of a device that has joined a room. -/
def plainStart : Process EntryLog EntryLog :=
  start ⟨"d", none, [], [], ["attic"]⟩ "D" ⟨false, .manual, true⟩ true

def plainSystem : System (Process EntryLog EntryLog) (Act EntryLog) :=
  system EntryLog EntryLog plainWeb ⟨"d", none, [], [], ["attic"]⟩ "D" ⟨false, .manual, true⟩ true

/-- Two pages post commands, and the loop takes the first one: a note for the room. -/
def noting : List (Act EntryLog) :=
  [.request 1 (post [("cmd", .string "add_entry"), ("text", .string "hi"),
      ("scope", .string "room:attic")]),
    .request 2 (post [("name", .string "cellar"), ("cmd", .string "join_room")]),
    .enqueue 1, .enqueue 2,
    .backend (.handle ⟨0, "e", true⟩ (.command (.addEntry "hi" (.room "attic"))))]

/-- One of two commands has been executed and the other one waits, and both were posted. -/
theorem commands_posted_noting : ∃ τ p, plainSystem.Run τ p ∧
    executed τ = [.addEntry "hi" (.room "attic")] ∧ p.commands = [.joinRoom "cellar"] ∧
      (accepted τ).map (·.command) = [.addEntry "hi" (.room "attic"), .joinRoom "cellar"] ∧
      ∀ a ∈ accepted τ, Posts plainWeb a.request a.command := by
  obtain ⟨p, hp, hcommands⟩ := System.exists_of_exec
    (show (System.exec (step plainWeb) plainStart noting).any (fun p =>
      decide (p.commands = [.joinRoom "cellar"])) = true by decide +kernel)
  have hcommands := of_decide_eq_true hcommands
  have h₀ : plainSystem.Run [] plainStart := .start rfl
  have hrun := h₀.exec (fun _ _ _ hs => hs) hp
  have hexecuted : executed ([] ++ System.trace (step plainWeb) plainStart noting) =
      noting.filterMap (·.executes) := by
    rw [← System.map_act_trace hp, List.filterMap_map]
    rfl
  obtain ⟨horder, -, -, hsource⟩ := commands_posted hrun
  rw [hexecuted, hcommands] at horder
  exact ⟨_, p, hrun, hexecuted, hcommands, horder.symm, fun a ha => (hsource a ha).2⟩

end Posted

end Commands

end Process

end Yoink
