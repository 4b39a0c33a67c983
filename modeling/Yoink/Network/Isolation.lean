import Yoink.Network.Convergence
import Yoink.Sync.Isolation

/-!
# Scope isolation

What the instances of a net hold of a scope, and what is on its way on the connections of that
scope, are changes that an `add_entry` on a document of the scope made.
-/

namespace Yoink

variable {N D P X : Type}

namespace Manager

variable [Yrs D P]

theorem new_heap (device : DeviceInfo) (trust : TrustSettings) (rooms : List String) :
    ∀ d, (Manager.new device trust rooms : Manager D P).docs.heap d = Yrs.new := by
  refine new_induction (I := fun m : Manager D P => ∀ d, m.docs.heap d = Yrs.new)
    (fun d => rfl) fun m name h => ?_
  obtain heq | ⟨-, -, heq, -⟩ := m.joinRoom_cases name
  · rwa [heq]
  · rw [heq]
    intro d
    obtain ⟨d₀, -, hget⟩ | ⟨hg, -, -⟩ := m.docs.getOrCreate_cases (.room name)
    · simp only [hget]
      exact h d
    · simp only [Docs.getOrCreate, hg, Function.update_apply]
      split
      · rfl
      · exact h d

variable [DecidableEq P] {m m' : Manager D P} {a : Action P}

/-- Content goes out of registered connections only. -/
theorem Step.sends_registered (hs : m.Step a m') {e : EndId} {f : Frame P} {u : P}
    (hf : a.sends e = some f) (hu : f.content = some u) :
    ∃ t' r, m'.conns e = some t' ∧ t'.phase.registered = some r := by
  have hstep := hs.connStep e
  generalize m.conns e = o at hstep
  generalize hm : m'.conns e = o' at hstep
  cases hstep with
  | idle hsilent =>
    rw [hsilent.1] at hf
    cases hf
  | step1 => exact ⟨_, _, rfl, rfl⟩
  | @moved act t t' hc hl =>
    have hf : act.sends = some f := by simpa [Action.sends] using hf
    cases hl with
    | startSend => exact ⟨_, _, rfl, rfl⟩
    | helloSent | helloEchoed =>
      cases hf
      cases hu
    | abort _ hsend | leave _ hsend =>
      rw [hsend] at hf
      cases hf
    | _ => cases hf
  | _ => cases hf

end Manager

namespace Net

section Isolation

variable [DecidableEq N] [Yrs D P]

/-- Some instance called `add_entry` with `entry` on its document of scope `s`. -/
def Added (τ : Trace N D P) (s : Scope) (entry : ClipEntry) : Prop :=
  ∃ t ∈ τ, ∃ i act doc, t.act.at i = some act ∧ (t.pre.node i).AddsEntry act s entry doc

/-- A frame is in flight on the connection `i` has on `e`: on its socket, in either direction,
or at its task, which has yet to write or to handle it. -/
def InFlight (n : Net N D P) (i : N) (e : EndId) (f : Frame P) : Prop :=
  f ∈ n.inbox e ∨ f ∈ n.inbox e.flip ∨ ∃ t, (n.node i).conns e = some t ∧
    (t.Holds f ∨ ∃ r b, t.phase = .received r b (some f))

variable [MergeSets D X]

/-- The changes `add_entry` made to documents of scope `s`. -/
def created (τ : Trace N D P) (s : Scope) : Set X :=
  {x | ∃ t ∈ τ, ∃ i act, t.act.at i = some act ∧ (t.pre.node i).Makes act s x}

/-- The scopes are apart: in the instances, and in what was written on each connection. -/
structure Apart (n : Net N D P) (τ : Trace N D P) : Prop where
  nodes : ∀ i, ∃ σ, (n.node i).Named σ ∧ (n.node i).Isolated σ (created τ)
  written : ∀ i e hello, (Manager.written e (historyOf i τ)).head? = some (.hello hello) →
    ∀ f ∈ Manager.written e (historyOf i τ), f.brings D ⊆ created τ hello.scope

theorem created_mono (τ τ' : Trace N D P) (s : Scope) :
    (created τ s : Set X) ⊆ created (τ ++ τ') s := by
  rintro x ⟨t, ht, h⟩
  exact ⟨t, List.mem_append_left _ ht, h⟩

theorem created_added [ClipEntries D] {τ : Trace N D P} {s : Scope} {x : X}
    (hx : x ∈ created τ s) {entry : ClipEntry} (he : ClipEntries.entryOf D x = some entry) :
    Added τ s entry := by
  obtain ⟨t, ht, i, act, ha, entry', doc, hadd, hx⟩ := hx
  obtain rfl := ClipEntries.entry_added hx he
  exact ⟨t, ht, i, act, doc, ha, hadd⟩

variable [DecidableEq P] {device : N → DeviceInfo} {n n' : Net N D P} {a : NetAction N P}
  {τ : Trace N D P}

theorem Run.scoped (h : (network D P device).Run τ n) (i : N) {σ : DocId → Scope}
    (hσ : (n.node i).Named σ) : (n.node i).Scoped σ := by
  have hr := (Run.history h i).reachable
  exact ⟨hσ, Manager.Reachable.fansBacked hr, Manager.Reachable.targeted hr,
    Manager.Reachable.targetsScoped hr, fun _ _ => Manager.Reachable.unqueued hr⟩

/-- Whatever arrives on a registered connection is of its scope. -/
theorem Apart.arriving (hA : n.Apart τ) (h : (network D P device).Run τ n) {i : N} {e : EndId}
    {r : Registered} (hr : (n.node i).registered e = some r) {f : Frame P}
    (hf : f ∈ n.inbox e) : f.brings D ⊆ created τ r.peer.scope := by
  obtain ⟨t, ht, hph⟩ := Option.bind_eq_some_iff.mp hr
  obtain ⟨hi, j, hj⟩ := (Reachable.wired h.reachable).owners (i := i) (e := e) (by simp [ht])
  obtain ⟨hhead, -⟩ := Run.introduced h hi hj (Run.heard h ht hph)
  refine hA.written j e.flip r.peer hhead f ?_
  have hmem : some f ∈ (Manager.written e.flip (historyOf j τ)).map some := by
    rw [Run.flow h hi hj]
    exact List.mem_append_right _ (List.mem_map_of_mem hf)
  simpa using hmem

/-- Whatever we wrote on a registered connection is of its scope. -/
theorem Apart.sent (hA : n.Apart τ) (h : (network D P device).Run τ n) {i : N} {e : EndId}
    {r : Registered} (hr : (n.node i).registered e = some r) {f : Frame P}
    (hf : f ∈ Manager.written e (historyOf i τ)) : f.brings D ⊆ created τ r.peer.scope := by
  obtain ⟨hello, hhead⟩ : ∃ hello,
      (Manager.written e (historyOf i τ)).head? = some (.hello hello) := by
    obtain hw | ⟨scope, hw⟩ | ⟨scope, sv, rest, hw, -⟩ := Manager.Run.wrote (Run.history h i) e
    · simp [hw] at hf
    · exact ⟨_, by rw [hw]; rfl⟩
    · exact ⟨_, by rw [hw]; rfl⟩
  rw [Manager.Run.own_scope (Run.history h i) hr (List.mem_of_head? hhead)]
  exact hA.written i e hello hhead f hf

/-- One step of an instance keeps its scopes apart. -/
theorem Apart.node_step (hA : n.Apart τ) (h : (network D P device).Run τ n)
    (hs : (network D P device).step n a n') (i : N) :
    ∃ σ, (n'.node i).Named σ ∧ (n'.node i).Isolated σ (created (τ ++ [⟨n, a, n'⟩])) := by
  obtain ⟨σ, hσ, hiso⟩ := hA.nodes i
  have hnode := (step_cases hs).node_step i
  have hmono (s : Scope) := created_mono (X := X) τ [⟨n, a, n'⟩] s
  cases ha : a.at i with
  | none =>
    rw [ha] at hnode
    rw [hnode]
    exact ⟨σ, hσ, hiso.mono hmono⟩
  | some act =>
    rw [ha] at hnode
    have hstep := Manager.step_cases hnode
    obtain ⟨σ', hσ', hagree⟩ := hσ.step hstep
    refine ⟨σ', hσ', hiso.step (Run.scoped h i hσ) hagree hstep hmono (fun s x hx => ?_)
      fun e r f hr hread => ?_⟩
    · exact ⟨⟨n, a, n'⟩, by simp, i, act, ha, hx⟩
    · -- What is read was on its way on the socket.
      obtain rfl : a = .node i act := by
        refine NetAction.of_at ha fun l e hact => ?_
        rw [hact] at hread
        cases hread
      cases step_cases hs with
      | node _ hc =>
        obtain ⟨g, rest, hin, hg⟩ := carries_reads hc hread
        cases hg
        exact hA.arriving h hr (by simp [hin])

theorem Apart.step (hA : n.Apart τ) (h : (network D P device).Run τ n)
    (hs : (network D P device).step n a n') : n'.Apart (τ ++ [⟨n, a, n'⟩]) where
  nodes := hA.node_step h hs
  written i e hello hhead f hf := by
    have h' := h.next hs
    have hmono (s : Scope) := created_mono (X := X) τ [⟨n, a, n'⟩] s
    have hw : Manager.written e (historyOf i (τ ++ [⟨n, a, n'⟩])) =
        Manager.written e (historyOf i τ) ++ ((a.at i).bind (·.sends e)).toList :=
      written_step e i τ
    cases hu : f.content with
    | none =>
      rw [Frame.brings_of_not_content hu]
      exact Set.empty_subset _
    | some u =>
    rw [hw] at hf
    obtain hf | hf := List.mem_append.mp hf
    · refine (hA.written i e hello ?_ f hf).trans (hmono _)
      rw [hw] at hhead
      cases hws : Manager.written e (historyOf i τ) with
      | nil => simp [hws] at hf
      | cons g rest => simpa [hws] using hhead
    · -- The frame goes out in this step, of a connection that is registered.
      obtain ⟨act, ha, hsend⟩ := Option.bind_eq_some_iff.mp (Option.mem_toList.mp hf)
      have hnode := (step_cases hs).node_step i
      rw [ha] at hnode
      have hstep := Manager.step_cases hnode
      obtain ⟨σ, hσ, hiso⟩ := hA.nodes i
      obtain ⟨t', r, ht', hr⟩ := hstep.sends_registered hsend hu
      have hreg : (n'.node i).registered e = some r := by simp [Manager.registered, ht', hr]
      rw [← Manager.Run.own_scope (Run.history h' i) hreg (List.mem_of_head? hhead)]
      exact (hiso.step_holds (Run.scoped h i hσ) hstep ht' hr (.inr hsend)).trans (hmono _)

theorem Run.apart (h : (network D P device).Run τ n) : n.Apart τ := by
  refine System.Run.history (S := network D P device) (I := fun τ n => n.Apart τ) ?_
    (fun τ n a n' hr hI hs => hI.step hr hs) h
  rintro n ⟨trust, rooms, rfl⟩
  refine ⟨fun i => ?_, fun i e hello hh => by cases hh⟩
  obtain ⟨σ, hσ⟩ := Manager.Reachable.named (D := D) (P := P)
    (System.Run.start (S := system D P (device i)) ⟨trust i, rooms i, rfl⟩).reachable
  have hbare := Manager.new_bare (D := D) (P := P) (device i) (trust i) (rooms i)
  refine ⟨σ, hσ, fun d _ => ?_, fun e t r f ht => ?_, fun e t r b f ht => ?_⟩
  · have hd : (new device trust rooms : Net N D P).node i =
        .new (device i) (trust i) (rooms i) := rfl
    rw [hd, Manager.contents, Manager.new_heap, MergeSets.holds_new]
    exact Set.empty_subset _
  · cases ht.symm.trans (congrFun hbare.conns e)
  · cases ht.symm.trans (congrFun hbare.conns e)

/-- What "a" copies. -/
def clip (text : String) : ClipEntry := ⟨text, "a", "A", text, 1⟩

/-- "a" copies "x" to its devices, of which "b" takes it, pastes "y" in the room "r", and copies
"z", which "b" has yet to read. -/
def sharing (dialing accepting : EndId) : List (NetAction Bool EntryLog) :=
  synced dialing accepting ++ copying dialing (clip "x") [clip "x"] ++
  [.node true (.conn accepting (.recv (.frame (some (.update [clip "x"]))))),
    .node true (.handleFrame accepting), .node false (.invoke 0 (.appJoinRoom "r")),
    .node false (.call (.caller 0)), .node false (.call (.caller 0)),
    .node false (.invoke 0 (.addEntry (.room "r") (clip "y"))), .node false (.call (.caller 0))] ++
  copying dialing (clip "z") [clip "z"]

end Isolation

end Net

end Yoink
