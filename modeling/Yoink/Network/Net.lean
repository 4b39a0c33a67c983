import Yoink.Sync.Streams

/-!
# Instances and the sockets between them

A `Net` is any number of instances of the program and the sockets they opened between each
other. `N` names runs of the program: a restart is a `crash` of one and the `start` of
another under the same device id, with nothing of the first. A frame is on its way from the
moment its write starts until the other end reads it; the two ends of a socket lose nothing and
reorder nothing, but an end may stop reading at any time.

Every step of an instance is a step of its manager, so a run of the net holds a run
of each manager: `History` projected by `historyOf`.
-/

namespace Yoink

/-- Instances, and the sockets between them. -/
structure Net (N D P : Type) where
  node : N → Manager D P
  /-- The instance that runs under a device id. -/
  running : DeviceId → Option N
  started : N → Bool
  /-- The instance an end of a socket belongs to. -/
  owner : EndId → Option N
  /-- The frames on their way to an end. -/
  inbox : EndId → List (Frame P)

/-- What a step of the net is. -/
inductive NetAction (N P : Type) where
  | start (i : N)
  /-- The process ends; its sockets close. -/
  | crash (i : N)
  /-- `try_connect` of dial loop `l` yields a socket to `j`. -/
  | connect (i : N) (l : TaskId) (sock : Nat) (j : N)
  | node (i : N) (a : Action P)

/-- The action of instance `i` in a step. -/
def NetAction.at {N P : Type} [DecidableEq N] (i : N) : NetAction N P → Option (Action P)
  | .node i' a => if i' = i then some a else none
  | .connect i' l sock _ => if i' = i then some (.connected l ⟨sock, true⟩) else none
  | _ => none

/-- An instance acts by itself, or opens a socket. -/
theorem NetAction.of_at {N P : Type} [DecidableEq N] {i : N} {a : NetAction N P} {act : Action P}
    (h : a.at i = some act) (hn : ∀ l e, act ≠ .connected l e) : a = .node i act := by
  cases a with
  | node k act' =>
    simp only [NetAction.at] at h
    split at h
    · rw [Option.some.inj h, ‹k = i›]
    · cases h
  | connect k l sock j =>
    simp only [NetAction.at] at h
    split at h
    · exact absurd (Option.some.inj h).symm (hn _ _)
    · cases h
  | _ => cases h

/-- The socket a step opens. -/
def NetAction.opens {N P : Type} : NetAction N P → Option Nat
  | .connect _ _ sock _ => some sock
  | _ => none

namespace Net

variable {N D P : Type}

/-- Whether `i` is running. -/
def up [DecidableEq N] (n : Net N D P) (i : N) : Bool :=
  decide (n.running (n.node i).device.id = some i)

/-- What the sockets allow: a frame that was read had arrived, and an inbound socket was opened
by somebody. -/
def carries [DecidableEq N] [DecidableEq P] (n : Net N D P) (i : N) : Action P → Bool
  | .connected _ _ => false
  | .handleInbound e => decide (n.owner e = some i)
  | .conn e (.recv (.frame payload)) => decide ((n.inbox e).head? = payload) && payload.isSome
  | _ => true

/-- What an action takes from the sockets and puts on them. -/
def transmit (n : Net N D P) (a : Action P) (e : EndId) : List (Frame P) :=
  (if (a.reads e).isSome then (n.inbox e).tail else n.inbox e) ++ (a.sends e.flip).toList

variable [DecidableEq N] [Yrs D P] [DecidableEq P]

/-- One step. -/
def step (n : Net N D P) : NetAction N P → Option (Net N D P)
  | .start i =>
    if n.started i = false ∧ n.running (n.node i).device.id = none then
      some { n with
        running := Function.update n.running (n.node i).device.id (some i)
        started := Function.update n.started i true }
    else none
  | .crash i =>
    if n.up i then
      some { n with running := Function.update n.running (n.node i).device.id none }
    else none
  | .connect i l sock j =>
    if n.up i ∧ n.up j ∧ n.owner ⟨sock, true⟩ = none ∧ n.owner ⟨sock, false⟩ = none then
      ((n.node i).step (.connected l ⟨sock, true⟩)).map fun m => { n with
        node := Function.update n.node i m
        owner := Function.update (Function.update n.owner ⟨sock, true⟩ (some i))
          ⟨sock, false⟩ (some j) }
    else none
  | .node i a =>
    if n.up i ∧ n.carries i a then
      ((n.node i).step a).map fun m => { n with
        node := Function.update n.node i m
        inbox := n.transmit a }
    else none

end Net

/-- Instances that have not started yet, each with its configuration. -/
def Net.new {N D P : Type} [Yrs D P] (device : N → DeviceInfo) (trust : N → TrustSettings)
    (rooms : N → List String) : Net N D P where
  node i := .new (device i) (trust i) (rooms i)
  running _ := none
  started _ := false
  owner _ := none
  inbox _ := []

/-- The runs of a net whose instances have the given devices. -/
def network {N : Type} (D P : Type) [DecidableEq N] [Yrs D P] [DecidableEq P]
    (device : N → DeviceInfo) : System (Net N D P) (NetAction N P) where
  init n := ∃ trust rooms, n = .new device trust rooms
  step n a n' := n.step a = some n'

namespace Net

variable {N D P : Type}

/-- The transitions of a run of the net. -/
abbrev Trace (N D P : Type) := List (Transition (Net N D P) (NetAction N P))

section Step

variable [DecidableEq N] [Yrs D P] [DecidableEq P]

/-- The steps of a net. -/
inductive Step (n : Net N D P) : NetAction N P → Net N D P → Prop where
  | start {i : N} (hs : n.started i = false) (hr : n.running (n.node i).device.id = none) :
      Step n (.start i) { n with
        running := Function.update n.running (n.node i).device.id (some i)
        started := Function.update n.started i true }
  | crash {i : N} (hu : n.up i = true) :
      Step n (.crash i)
        { n with running := Function.update n.running (n.node i).device.id none }
  | connect {i j : N} {l : TaskId} {sock : Nat} {m : Manager D P} (hi : n.up i = true)
      (hj : n.up j = true) (hd : n.owner ⟨sock, true⟩ = none)
      (ha : n.owner ⟨sock, false⟩ = none)
      (hs : (n.node i).step (.connected l ⟨sock, true⟩) = some m) :
      Step n (.connect i l sock j) { n with
        node := Function.update n.node i m
        owner := Function.update (Function.update n.owner ⟨sock, true⟩ (some i))
          ⟨sock, false⟩ (some j) }
  | node {i : N} {a : Action P} {m : Manager D P} (hu : n.up i = true)
      (hc : n.carries i a = true) (hs : (n.node i).step a = some m) :
      Step n (.node i a) { n with
        node := Function.update n.node i m
        inbox := n.transmit a }

theorem step_cases {n n' : Net N D P} {a : NetAction N P} (h : n.step a = some n') :
    n.Step a n' := by
  cases a with
  | start i =>
    simp only [step] at h
    split at h <;> cases h
    rename_i hc
    exact .start hc.1 hc.2
  | crash i =>
    simp only [step] at h
    split at h <;> cases h
    exact .crash ‹_›
  | connect i l sock j =>
    simp only [step] at h
    split at h
    · rename_i hc
      obtain ⟨m, hm, rfl⟩ := Option.map_eq_some_iff.mp h
      obtain ⟨hi, hj, hd, ha⟩ := hc
      exact .connect hi hj hd ha hm
    · cases h
  | node i a =>
    simp only [step] at h
    split at h
    · rename_i hc
      obtain ⟨m, hm, rfl⟩ := Option.map_eq_some_iff.mp h
      exact .node hc.1 hc.2 hm
    · cases h

/-- What an instance does by itself, the sockets allow. -/
theorem Step.carries {n n' : Net N D P} {i : N} {a : Action P} (h : n.Step (.node i a) n') :
    n.carries i a = true := by
  cases h with
  | node _ hc _ => exact hc

/-- Only `connect` gives an end to somebody. -/
theorem Step.owner {n n' : Net N D P} {a : NetAction N P} (h : n.Step a n') {e : EndId}
    (he : n.owner e = none) (he' : n'.owner e ≠ none) : a.opens = some e.sock := by
  cases h with
  | start | crash | node => exact absurd he he'
  | @connect i j l sock m =>
    by_contra hne
    have hsock : e.sock ≠ sock := fun h => hne (by rw [h]; rfl)
    have h1 : e ≠ ⟨sock, true⟩ := fun h => hsock (by rw [h])
    have h2 : e ≠ ⟨sock, false⟩ := fun h => hsock (by rw [h])
    simp [Function.update_of_ne, h1, h2, he] at he'

/-- A step is at most one step of each instance. -/
theorem Step.node_step {n n' : Net N D P} {a : NetAction N P} (h : n.Step a n') (i : N) :
    match a.at i with
    | some act => (n.node i).step act = some (n'.node i)
    | none => n'.node i = n.node i := by
  cases h with
  | start | crash => rfl
  | @connect i₀ j l sock m hi hj hd ha hs =>
    by_cases hn : i₀ = i
    · subst hn
      simpa [NetAction.at] using hs
    · simp [NetAction.at, hn, Ne.symm hn]
  | @node i₀ a m hu hc hs =>
    by_cases hn : i₀ = i
    · subst hn
      simpa [NetAction.at] using hs
    · simp [NetAction.at, hn, Ne.symm hn]

end Step

section History

variable [DecidableEq N]

/-- What instance `i` did in a run of the net. -/
def historyOf (i : N) (τ : Trace N D P) : History D P :=
  τ.filterMap fun t => (t.act.at i).map fun a => ⟨t.pre.node i, a, t.post.node i⟩

theorem historyOf_append (i : N) (τ τ' : Trace N D P) :
    historyOf i (τ ++ τ') = historyOf i τ ++ historyOf i τ' :=
  List.filterMap_append

theorem historyOf_concat (i : N) (τ : Trace N D P)
    (t : Transition (Net N D P) (NetAction N P)) :
    historyOf i (τ ++ [t]) = historyOf i τ ++
      ((t.act.at i).map fun a => ⟨t.pre.node i, a, t.post.node i⟩).toList := by
  rw [historyOf_append]
  simp only [historyOf, List.filterMap_cons, List.filterMap_nil]
  cases t.act.at i <;> rfl

variable [Yrs D P] [DecidableEq P] {device : N → DeviceInfo} {n : Net N D P} {τ : Trace N D P}

/-- A run of the net holds a run of each instance. -/
theorem Run.history (h : (network D P device).Run τ n) (i : N) :
    (system D P (device i)).Run (historyOf i τ) (n.node i) := by
  refine System.Run.history (S := network D P device)
    (I := fun τ n => (system D P (device i)).Run (historyOf i τ) (n.node i)) ?_ ?_ h
  · rintro n ⟨trust, rooms, rfl⟩
    exact .start ⟨trust i, rooms i, rfl⟩
  · intro τ n a n' _ hI hs
    rw [historyOf_concat]
    have hnode := (step_cases hs).node_step i
    cases ha : a.at i with
    | none =>
      rw [ha] at hnode
      simpa [ha, hnode] using hI
    | some act =>
      rw [ha] at hnode
      simpa [ha] using hI.next hnode

/-- An end belongs to somebody once its socket was opened. -/
theorem Run.opened (h : (network D P device).Run τ n) {e : EndId} (he : n.owner e ≠ none) :
    e.sock ∈ τ.filterMap (·.act.opens) := by
  refine System.Run.history (S := network D P device)
    (I := fun τ n => n.owner e ≠ none → e.sock ∈ τ.filterMap (·.act.opens)) ?_ ?_ h he
  · rintro n ⟨trust, rooms, rfl⟩ he
    exact absurd rfl he
  · intro τ n a n' _ hI hs he
    rw [List.filterMap_append, List.mem_append]
    by_cases hold : n.owner e = none
    · exact .inr (by simp [(step_cases hs).owner hold he])
    · exact .inl (hI hold)

/-- Executing actions from a new net is a run. -/
theorem run_of_exec {trust : N → TrustSettings} {rooms : N → List String}
    {as : List (NetAction N P)} (h : System.exec step (new device trust rooms) as = some n) :
    (network D P device).Run (System.trace step (new device trust rooms) as) n := by
  have h₀ : (network D P device).Run [] (new device trust rooms) := .start ⟨trust, rooms, rfl⟩
  exact h₀.exec (fun _ _ _ hs => hs) h

end History

section Two

/-- Two devices; "a" is the one that dials. -/
def duo : Bool → DeviceInfo
  | false => ⟨"a", "A"⟩
  | true => ⟨"b", "B"⟩

variable {P : Type}

section Opening

variable [EmptyCollection P] (dialing accepting : EndId)

/-- "a" dials "b" in the devices scope, both register the connection, and "a" handles the first
frame it gets. -/
def opening : List (NetAction Bool P) :=
  [.start false, .start true, .node false (.invoke 0 (.peerDiscovered ⟨"b", []⟩)),
    .node false (.call (.caller 0)), .node false (.call (.caller 0)), .node false (.dialTarget 1),
    .connect false 1 0 true, .node true (.handleInbound accepting),
    .node false (.conn dialing (.sendHello ⟨"a", "A", 2, .devices⟩)),
    .node true (.conn accepting (.recv (.frame (some (.hello ⟨"a", "A", 2, .devices⟩))))),
    .node true (.conn accepting (.sendHello ⟨"b", "B", 2, .devices⟩)),
    .node true (.fetchDoc accepting), .node true (.register accepting),
    .node true (.sendStep1 accepting ∅), .node true (.conn accepting (.step1Sent true)),
    .node false (.conn dialing (.recv (.frame (some (.hello ⟨"b", "B", 2, .devices⟩))))),
    .node false (.fetchDoc dialing), .node false (.register dialing),
    .node false (.sendStep1 dialing ∅), .node false (.conn dialing (.step1Sent true)),
    .node false (.conn dialing (.recv (.frame (some (.syncStep1 ∅))))),
    .node false (.handleFrame dialing)]

/-- "a" has announced "b": both answer, up to the point where they have nothing more to say. -/
def answering : List (NetAction Bool P) :=
  [.node false (.conn dialing .sendAllowed),
    .node false (.conn dialing (.startSend (some (.syncStep2 ∅)))),
    .node false (.conn dialing (.sent true)),
    .node true (.conn accepting (.recv (.frame (some (.syncStep1 ∅))))),
    .node true (.handleFrame accepting), .node true (.tryAnnounce accepting),
    .node true (.conn accepting .sendAllowed),
    .node true (.conn accepting (.startSend (some (.syncStep2 ∅)))),
    .node true (.conn accepting (.sent true)),
    .node true (.conn accepting (.recv (.frame (some (.syncStep2 ∅))))),
    .node true (.handleFrame accepting),
    .node false (.conn dialing (.recv (.frame (some (.syncStep2 ∅))))),
    .node false (.handleFrame dialing)]

/-- Both ends of the first socket up to that point. -/
def synced : List (NetAction Bool P) :=
  opening dialing accepting ++ .node false (.tryAnnounce dialing) :: answering dialing accepting

end Opening

/-- "a" adds an entry to its history and writes the update `u` that comes of it. -/
def copying (dialing : EndId) (entry : ClipEntry) (u : P) : List (NetAction Bool P) :=
  [.node false (.invoke 0 (.addEntry .devices entry)), .node false (.call (.caller 0)),
    .node false (.fanRecv 0), .node false (.fanTargets 0), .node false (.fanPush 0),
    .node false (.fanNext 0), .node false (.conn dialing (.dequeue (.update u))),
    .node false (.conn dialing .sendAllowed),
    .node false (.conn dialing (.startSend (some (.update u)))),
    .node false (.conn dialing (.sent true))]

end Two

end Net

end Yoink
