import Yoink.Network.Channels

/-!
# Mutual acceptance

The second frame an end reads was written by a connection that had passed registration, and
it was registered for the instance that reads. So a peer is reported, and content of
it applied, only on sockets both sides have admitted.
-/

namespace Yoink

variable {N D P : Type}

namespace Manager

/-- A connection on `e` was registered under `key`. -/
def Registers (e : EndId) (key : ConnKey) (τ : History D P) : Prop :=
  ∃ peer, Entered e peer τ ∧ peer.key = key

end Manager

namespace Net

variable [DecidableEq N]

/-- Instance `i` registered a connection under `key` on `e`. -/
def Admits (i : N) (e : EndId) (key : ConnKey) (τ : Trace N D P) : Prop :=
  Manager.Registers e key (historyOf i τ)

/-- Instance `i` sent `f` on `e`, after it registered a connection under `key` there. -/
def SentAdmitted (i : N) (e : EndId) (key : ConnKey) (f : Frame P) (τ : Trace N D P) : Prop :=
  System.After (Manager.Registers e key) (fun t => t.act.sends e = some f) (historyOf i τ)

/-- Instance `i` emits `event`. -/
def Emits (i : N) (event : SyncEvent) (t : Transition (Net N D P) (NetAction N P)) : Prop :=
  ∃ events, (t.post.node i).events = (t.pre.node i).events ++ events ∧ event ∈ events

/-- The document of `s` at instance `i` changes by a frame from `e`. -/
def Gains [Yrs D P] (i : N) (e : EndId) (s : Scope)
    (t : Transition (Net N D P) (NetAction N P)) : Prop :=
  t.act = .node i (.handleFrame e) ∧ ∃ doc, (t.pre.node i).docs.get s = some doc ∧
    (t.post.node i).docs.heap doc ≠ (t.pre.node i).docs.heap doc

section Acceptance

variable [Yrs D P] [DecidableEq P] {device : N → DeviceInfo} {n : Net N D P} {τ : Trace N D P}

/-- Whatever follows the HELLO on a socket was sent by a connection that is registered for the
instance that hears it, in the scope both speak of. -/
theorem Run.sentAdmitted (h : (network D P device).Run τ n) {e : EndId} {i j : N}
    (hi : n.owner e = some i) (hj : n.owner e.flip = some j) {peer : Hello}
    (hp : some (.hello peer) ∈ Manager.taken e (historyOf i τ)) {f : Frame P}
    (hf : f ∈ Manager.written e.flip (historyOf j τ)) (hn : f.isHello = false) :
    SentAdmitted j e.flip ((device i).id, peer.scope) f τ := by
  obtain ⟨peer', τ₁, t, τ₂, heq, hent, hsend⟩ := Manager.Run.spoke (Run.history h j) hf hn
  have hent' : Manager.Entered e.flip peer' (historyOf j τ) := heq ▸ hent.append (t :: τ₂)
  have hheard := hent'.heard.mem_taken
  have hid := (Run.introduced h hj (by simpa using hi) hheard).2
  have hscope := Run.one_scope h hi hj hp hheard
  exact ⟨τ₁, t, τ₂, heq, ⟨peer', hent, by rw [Hello.key, hid, hscope]⟩, hsend⟩

omit [Yrs D P] [DecidableEq P] in
theorem SentAdmitted.admits {i : N} {e : EndId} {key : ConnKey} {f : Frame P}
    (h : SentAdmitted i e key f τ) : Admits i e key τ :=
  h.before fun _ τ' ⟨peer, hent, hk⟩ => ⟨peer, hent.append τ', hk⟩

omit [DecidableEq N] [Yrs D P] [DecidableEq P] in
theorem Wired.owners (h : n.Wired) {i : N} {e : EndId} (he : (n.node i).conns e ≠ none) :
    n.owner e = some i ∧ ∃ j, n.owner e.flip = some j := by
  have hi := h.task i e he
  refine ⟨hi, Option.ne_none_iff_exists'.mp fun hj => ?_⟩
  have := h.pair _ hj
  rw [EndId.flip_flip, hi] at this
  cases this

/-- Who has read two frames has heard from a registered connection. -/
theorem Run.answered (h : (network D P device).Run τ n) {e : EndId} {i j : N}
    (hi : n.owner e = some i) (hj : n.owner e.flip = some j)
    (hrs : 2 ≤ (Manager.taken e (historyOf i τ)).length) :
    ∃ f ∈ Manager.written e.flip (historyOf j τ), f.isHello = false := by
  have hlen := congrArg List.length (Run.flow h hi hj)
  simp only [List.length_map, List.length_append] at hlen
  obtain hw | ⟨scope, hw⟩ | ⟨scope, sv, rest, hw, -⟩ := Manager.Run.wrote (Run.history h j) e.flip
  · rw [hw, List.length_nil] at hlen
    omega
  · rw [hw, List.length_singleton] at hlen
    omega
  · exact ⟨.syncStep1 sv, by simp [hw], rfl⟩

/-- The event of a connect comes from `try_announce`, on a socket the other side admitted. -/
theorem Run.connected_admitted (h : (network D P device).Run τ n) {n' : Net N D P}
    {a : NetAction N P} (hs : n.Step a n') {i : N} {d : DeviceId} {name : String} {s : Scope}
    (hem : Emits i (.peerConnected d name s) ⟨n, a, n'⟩) :
    ∃ e j, a = .node i (.tryAnnounce e) ∧ n.owner e.flip = some j ∧ (device j).id = d ∧
      Admits j e.flip ((device i).id, s) τ := by
  obtain ⟨events, hev, hmem⟩ := hem
  have hnode := hs.node_step i
  cases ha : a.at i with
  | none =>
    rw [ha] at hnode
    obtain rfl : events = [] := by simpa [hnode] using hev
    cases hmem
  | some act =>
    rw [ha] at hnode
    have ho := Manager.Run.owesDisconnects (Run.history h i)
    obtain ⟨e, t, r, reply, rfl, ht, hp, rfl, -, rfl⟩ :=
      (Manager.step_cases hnode).emits_connected ho hev hmem
    have hact := NetAction.of_at ha (by simp)
    obtain ⟨hi, j, hj⟩ := (Reachable.wired h.reachable).owners (i := i) (e := e) (by simp [ht])
    -- The task at `try_announce` has read the HELLO and something after it.
    have hrs : Manager.Opened r.peer true (Manager.taken e (historyOf i τ)) := by
      simpa [Manager.Listened, hp] using (Manager.Run.listened (Run.history h i) e).2 t ht
    obtain ⟨f, hf, hn⟩ := Run.answered h hi hj hrs.two_le
    have hpeer := hrs.mem
    exact ⟨e, j, hact, hj, (Run.introduced h hi hj hpeer).2.symm,
      (Run.sentAdmitted h hi hj hpeer hf hn).admits⟩

/-- What a document gains over a socket was sent, and is applied, by connections both registered
for each other. -/
theorem Run.gained_admitted (h : (network D P device).Run τ n) {n' : Net N D P}
    {a : NetAction N P} (hs : n.Step a n') {i : N} {e : EndId} {s : Scope}
    (hg : Gains i e s ⟨n, a, n'⟩) :
    ∃ j f, n.owner e.flip = some j ∧ Admits i e ((device j).id, s) τ ∧
      SentAdmitted j e.flip ((device i).id, s) f τ ∧
      ∃ task r b, (n.node i).conns e = some task ∧ task.phase = .received r b (some f) := by
  obtain ⟨hact, doc, hdoc, hne⟩ := hg
  obtain rfl : a = .node i (.handleFrame e) := hact
  have hnode := hs.node_step i
  simp only [NetAction.at, if_true] at hnode
  have hr := Run.history h i
  obtain ⟨t, r, b, f, ht, hp, hf, rfl⟩ :=
    Manager.Step.handleFrame_heap (Manager.step_cases hnode) hne
  -- A document belongs to one scope.
  obtain ⟨σ, hσ⟩ := Manager.Reachable.named hr.reachable
  obtain rfl : r.peer.scope = s := by
    have h1 := (hσ.set s _ hdoc).2
    have h2 := (hσ.conn e r.peer.scope r.doc (by simp [ht, hp, Phase.doc, Phase.registered])).2
    rw [← h1, ← h2]
  obtain ⟨hi, j, hj⟩ := (Reachable.wired h.reachable).owners (i := i) (e := e) (by simp [ht])
  obtain ⟨rest, hrs, hopen⟩ : ∃ rest, Manager.taken e (historyOf i τ) = rest ++ [some f] ∧
      Manager.Opened r.peer b rest := by
    simpa [Manager.Listened, hp] using (Manager.Run.listened hr e).2 t ht
  have hpeer : some (.hello r.peer) ∈ Manager.taken e (historyOf i τ) := by
    rw [hrs]
    exact List.mem_append_left _ hopen.mem
  have hwrote := Run.written_of_taken h hi hj (f := f) (by simp [hrs])
  have hn : f.isHello = false := by cases f <;> first | rfl | cases hf
  have hent := (Manager.Run.known hr e t ht).entered r (by simp [hp, Phase.registered])
  refine ⟨j, f, hj, ⟨r.peer, hent, ?_⟩, Run.sentAdmitted h hi hj hpeer hwrote hn, t, r, b, ht, hp⟩
  rw [Hello.key, (Run.introduced h hi hj hpeer).2]

/-- Between any instances, in any run: a connect is reported, and content applied, only on a
socket the other side has admitted for the scope; without that, neither ever happens. -/
theorem mutual_acceptance (h : (network D P device).Run τ n) :
    (∀ τ₁ t τ₂ i d name s, τ = τ₁ ++ t :: τ₂ → Emits i (.peerConnected d name s) t →
      ∃ e j, t.act = .node i (.tryAnnounce e) ∧ t.pre.owner e.flip = some j ∧
        (device j).id = d ∧ Admits j e.flip ((device i).id, s) τ₁) ∧
    (∀ τ₁ t τ₂ i e s, τ = τ₁ ++ t :: τ₂ → Gains i e s t →
      ∃ j f, t.pre.owner e.flip = some j ∧ Admits i e ((device j).id, s) τ₁ ∧
        SentAdmitted j e.flip ((device i).id, s) f τ₁ ∧
        ∃ task r b, (t.pre.node i).conns e = some task ∧
          task.phase = .received r b (some f)) ∧
    ∀ a b s, (∀ j e, (device j).id = b → ¬ Admits j e (a, s) τ) →
      ∀ t ∈ τ, ∀ i,
        ((device i).id = a → ∀ name, ¬ Emits i (.peerConnected b name s) t) ∧
        ∀ e j, t.pre.owner e.flip = some j →
          ((device i).id = a ∧ (device j).id = b ∨ (device i).id = b ∧ (device j).id = a) →
            ¬ Gains i e s t := by
  have hconn : ∀ τ₁ t τ₂ i d name s, τ = τ₁ ++ t :: τ₂ → Emits i (.peerConnected d name s) t →
      ∃ e j, t.act = .node i (.tryAnnounce e) ∧ t.pre.owner e.flip = some j ∧
        (device j).id = d ∧ Admits j e.flip ((device i).id, s) τ₁ := by
    intro τ₁ t τ₂ i d name s heq hem
    obtain ⟨hr, hs⟩ := h.split heq
    exact Run.connected_admitted hr (step_cases hs) hem
  have hgain : ∀ τ₁ t τ₂ i e s, τ = τ₁ ++ t :: τ₂ → Gains i e s t →
      ∃ j f, t.pre.owner e.flip = some j ∧ Admits i e ((device j).id, s) τ₁ ∧
        SentAdmitted j e.flip ((device i).id, s) f τ₁ ∧
        ∃ task r b, (t.pre.node i).conns e = some task ∧
          task.phase = .received r b (some f) := by
    intro τ₁ t τ₂ i e s heq hg
    obtain ⟨hr, hs⟩ := h.split heq
    exact Run.gained_admitted hr (step_cases hs) hg
  refine ⟨hconn, hgain, fun a b s hnever t ht i => ?_⟩
  obtain ⟨τ₁, τ₂, heq⟩ := List.append_of_mem ht
  -- An admission before the step is one of the run.
  have hlater {j : N} {e : EndId} {key : ConnKey} (ha : Admits j e key τ₁) : Admits j e key τ := by
    obtain ⟨peer, hent, hk⟩ := ha
    refine ⟨peer, ?_, hk⟩
    rw [heq, historyOf_append]
    exact hent.append _
  refine ⟨fun hi name hem => ?_, fun e j hj hij hg => ?_⟩
  · obtain ⟨e, j, -, -, hd, hadm⟩ := hconn τ₁ t τ₂ i b name s heq hem
    exact hnever j e.flip hd (hlater (hi ▸ hadm))
  · obtain ⟨j', f, hj', hadm, hsent, -⟩ := hgain τ₁ t τ₂ i e s heq hg
    obtain rfl : j = j' := Option.some.inj (hj.symm.trans hj')
    obtain ⟨hi, hd⟩ | ⟨hi, hd⟩ := hij
    · exact hnever j e.flip hd (hlater (hi ▸ hsent.admits))
    · exact hnever i e hi (hlater (hd ▸ hadm))

/-- "a" reports "b", which had registered the connection; later "b" takes an entry of "a", which
was sent on the same socket. -/
theorem mutual_acceptance_reported :
    ∃ (τ τ' : Trace Bool GrowSet GrowSet) (t t' : Transition _ _) (n : Net Bool GrowSet GrowSet)
      (e : EndId), (network GrowSet GrowSet duo).Run (τ ++ t :: τ' ++ [t']) n ∧
        Emits false (.peerConnected "b" "B" .devices) t ∧ Admits true e.flip ("a", .devices) τ ∧
        Gains true e.flip .devices t' ∧
        ∃ f, SentAdmitted false e ("b", .devices) f (τ ++ t :: τ') := by
  let start : Net Bool GrowSet GrowSet := .new duo (fun _ => ⟨false, ∅, ∅⟩) fun _ => []
  let e : EndId := ⟨0, true⟩
  let rest : List (NetAction Bool GrowSet) :=
    answering e e.flip ++ copying e ⟨"id", "a", "A", "kept", 7⟩ {7} ++
      [.node true (.conn e.flip (.recv (.frame (some (.update {7})))))]
  obtain ⟨n₁, hn₁, hp⟩ := System.exists_of_exec
    (show (System.exec step start (opening e e.flip)).any (fun n₁ =>
      (n₁.step (.node false (.tryAnnounce e))).any fun n₂ =>
        decide ((n₁.node false).events = [] ∧
          (n₂.node false).events = [.peerConnected "b" "B" .devices]) &&
        (System.exec step n₂ rest).any fun n₃ =>
          (n₃.step (.node true (.handleFrame e.flip))).any fun n₄ =>
            decide (n₃.owner e = some false ∧ (n₃.node true).docs.get .devices = some 0 ∧
              7 ∉ (n₃.node true).docs.heap 0 ∧ 7 ∈ (n₄.node true).docs.heap 0)) = true
      by decide +kernel)
  simp only [Option.any_eq_true, Bool.and_eq_true, decide_eq_true_eq] at hp
  obtain ⟨n₂, hn₂, ⟨hold, hnew⟩, n₃, hn₃, n₄, hn₄, ho, hd, hlacks, hhas⟩ := hp
  have hrun := (((run_of_exec hn₁).next hn₂).exec (fun _ _ _ hs => hs) hn₃).next hn₄
  simp only [List.append_assoc, List.singleton_append] at hrun
  rw [← List.append_assoc] at hrun
  obtain ⟨hreports, hgains, -⟩ := mutual_acceptance hrun
  have hem : Emits false (.peerConnected "b" "B" .devices)
      ⟨n₁, .node false (.tryAnnounce e), n₂⟩ := ⟨_, by rw [hold, hnew]; rfl, List.mem_cons_self⟩
  have hg : Gains true e.flip .devices ⟨n₃, .node true (.handleFrame e.flip), n₄⟩ :=
    ⟨rfl, 0, hd, fun heq => hlacks (heq ▸ hhas)⟩
  obtain ⟨e', j, hact, -, hid, hadm⟩ := hreports _ _ _ _ _ _ _ (List.append_assoc ..) hem
  obtain rfl : e = e' := by simpa using hact
  obtain rfl : j = true := by cases j <;> simp_all [duo]
  obtain ⟨j, f, hj, -, hsent, -⟩ := hgains _ _ _ _ _ _ rfl hg
  obtain rfl : false = j := Option.some.inj (ho.symm.trans hj)
  exact ⟨_, _, _, _, n₄, e, hrun, hem, hadm, hg, f, hsent⟩

end Acceptance

end Net

end Yoink
