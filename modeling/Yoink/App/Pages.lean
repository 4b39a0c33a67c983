import Yoink.App.Process
import Yoink.App.Restarts

/-!
# What the pages show

A page keeps up with the shared state although nothing locks it as a whole: its snapshots are read
one part at a time, and the notifications that are in its channel already stand for all later ones.
`socket_current` is about a page that has nothing left to do and nothing on its way to it.
`shown_separate` is about everything that is ever shown.
-/

namespace Yoink

variable {D P : Type}

section Parts

variable [Entries D]

/-- What `build_state` has of this part is what the shared state has. -/
def Part.Agrees (s : Scope) (build : StateBuild) (b : Backend D P) : Part → Prop
  | .registry => build.snapshot.registry = b.inst.app.peers
  | .settings => build.snapshot.settings = b.settings
  | .joined => build.snapshot.joined = b.inst.app.joinedRooms
  | .doc => build.doc = b.inst.sync.docs.get s
  | .entries => build.snapshot.entries = b.history s
  | .scopeConnected =>
    build.snapshot.scopeConnected = b.inst.sync.state.connected s ∧
      (s = .devices → build.snapshot.devicesConnected = b.inst.sync.state.connected .devices)
  | .devicesConnected => build.snapshot.devicesConnected = b.inst.sync.state.connected .devices
  | .requirePairing => build.snapshot.requirePairing = b.inst.sync.state.requirePairing
  | .explicit =>
    build.snapshot.explicit =
      if b.inst.sync.state.requirePairing then b.inst.sync.state.allowed
      else b.inst.sync.state.blocked

end Parts

/-- The pages are going to be told of a change of this part. The trust model never changes. -/
def Part.Due (s : Scope) (b : Backend D P) : Part → Prop
  | .entries => b.notice ≠ .none ∨ b.UpdatesPending s
  | .scopeConnected => b.notice ≠ .none ∨ b.ReportsPending s
  | .devicesConnected => b.notice ≠ .none ∨ b.ReportsPending .devices
  | .requirePairing => False
  | _ => b.notice ≠ .none

/-- The pages of a scope mirror the shared state. -/
def pageMirror [Entries D] (s : Scope) : Mirror (Backend D P) Part StateBuild where
  Agrees part build b := part.Agrees s build b
  Due part b := part.Due s b

/-- The state that is being read for a client. -/
def Client.build (client : Client) : Option StateBuild :=
  match client.stage with
  | .reading build => some build
  | .socket u => some u.build
  | _ => none

/-- What a client was shown last. -/
def Client.shown (client : Client) : Option StateSnapshot :=
  match client.stage with
  | .answered snapshot => some snapshot
  | .socket u => u.pushed
  | _ => none

/-- The socket of a client that has one. -/
def Client.socket (client : Client) : Option UiSocket :=
  match client.stage with
  | .socket u => some u
  | _ => none

theorem Client.eq_of_socket {client : Client} {u : UiSocket} (h : client.socket = some u) :
    client = ⟨client.request, .socket u⟩ := by
  obtain ⟨r, stage⟩ := client
  cases stage <;> cases h
  rfl

/-- A page as a reader. -/
def UiSocket.reader (u : UiSocket) : Reader Part StateBuild :=
  ⟨u.build.unread, u.notes.pending, u.build⟩

namespace Process

section Reads

variable [Entries D] {b : Backend D P} {s : Scope}

/-- A step that tells of what it changes moves the mirror. -/
theorem moves_of_tells {b' : Backend D P} (h : b.Tells b') :
    (pageMirror s).Moves b b' false := by
  refine ⟨fun part build ha => ?_, fun part hd => ?_⟩
  · by_cases hn : b'.notice = .none
    swap
    · cases part with
      | requirePairing =>
        refine .inl ?_
        simp only [pageMirror, Part.Agrees] at ha ⊢
        exact ha.trans h.model.symm
      | entries | scopeConnected | devicesConnected => exact .inr (.inl (.inl hn))
      | _ => exact .inr (.inl hn)
    · obtain ⟨hpeers, hjoined, hsettings, htrust, hget⟩ := h.shared.resolve_left (absurd hn)
      cases part with
      | registry => exact .inl (Eq.trans ha hpeers.symm)
      | settings => exact .inl (Eq.trans ha hsettings.symm)
      | joined => exact .inl (Eq.trans ha hjoined.symm)
      | doc => exact .inl (Eq.trans ha (hget s).symm)
      | entries =>
        obtain hup | heq := (h.history s).resolve_left (absurd hn)
        · exact .inr (.inl (.inr hup))
        · exact .inl (Eq.trans ha heq.symm)
      | scopeConnected =>
        obtain hrep | heq := (h.connected s).resolve_left (absurd hn)
        · exact .inr (.inl (.inr hrep))
        · refine .inl ⟨ha.1.trans heq.symm, fun hs => ?_⟩
          subst hs
          exact (ha.2 rfl).trans heq.symm
      | devicesConnected =>
        obtain hrep | heq := (h.connected .devices).resolve_left (absurd hn)
        · exact .inr (.inl (.inr hrep))
        · exact .inl (Eq.trans ha heq.symm)
      | requirePairing => exact .inl (Eq.trans ha h.model.symm)
      | explicit =>
        obtain ⟨hmodel, hallowed, hblocked⟩ := TrustSettings.mk.inj htrust
        refine .inl (Eq.trans ha ?_)
        rw [hmodel, hallowed, hblocked]
  · cases part with
    | requirePairing => exact hd.elim
    | entries =>
      obtain hn | hup := hd
      · exact .inl (.inl (h.notice hn))
      · exact .inl (h.updates s hup)
    | scopeConnected =>
      obtain hn | hrep := hd
      · exact .inl (.inl (h.notice hn))
      · exact .inl (h.reports s hrep)
    | devicesConnected =>
      obtain hn | hrep := hd
      · exact .inl (.inl (h.notice hn))
      · exact .inl (h.reports .devices hrep)
    | _ => exact .inl (h.notice hd)

/-- A read is of its part only. -/
theorem readPart_fields (b : Backend D P) (iterate : (s : Finset DeviceId) → Iteration s)
    (build : StateBuild) (part : Part) :
    (b.readPart iterate build part).snapshot.scope = build.snapshot.scope ∧
      (b.readPart iterate build part).snapshot.device = build.snapshot.device := by
  cases part <;> exact ⟨rfl, rfl⟩

variable {iterate : (s : Finset DeviceId) → Iteration s} {build build' : StateBuild}

theorem readPart_keeps (part : Part) (hs : build.snapshot.scope = s) {j : Part} (hj : j ≠ part)
    (h : j.Agrees s build b) : j.Agrees s (b.readPart iterate build part) b := by
  subst hs
  cases part with
  | scopeConnected =>
    cases j with
    | scopeConnected => exact absurd rfl hj
    | devicesConnected =>
      simp only [Part.Agrees, Backend.readPart] at h ⊢
      cases hs : build.snapshot.scope with
      | devices => rfl
      | room name => exact h
    | _ => exact h
  | devicesConnected =>
    cases j with
    | devicesConnected => exact absurd rfl hj
    | scopeConnected => exact ⟨h.1, fun _ => rfl⟩
    | _ => exact h
  | _ =>
    cases j <;> first | exact h | exact absurd rfl hj

/-- What is read is what the shared state has. An entry is read off the document that was found
before, and the explicit list is the one of the model that was read before. -/
theorem readPart_agrees (part : Part) (hs : build.snapshot.scope = s)
    (hdoc : part = .entries → Part.Agrees s build b .doc)
    (hmodel : part = .explicit → Part.Agrees s build b .requirePairing) :
    part.Agrees s (b.readPart iterate build part) b := by
  subst hs
  cases part with
  | entries =>
    have hdoc : build.doc = _ := hdoc rfl
    simp only [Part.Agrees, Backend.readPart, Backend.history_eq, hdoc]
  | explicit =>
    have hmodel : build.snapshot.requirePairing = _ := hmodel rfl
    simp only [Part.Agrees, Backend.readPart, hmodel]
  | scopeConnected =>
    refine ⟨rfl, fun hs => ?_⟩
    simp only [Backend.readPart, hs]
    rfl
  | _ => rfl

/-- The document is found before its entries are read. -/
theorem doc_notMem {rest : List Part} (h : .entries :: rest <:+ Part.all s) :
    .doc ∉ Part.entries :: rest := by
  cases s <;>
  · simp [Part.all, List.suffix_cons_iff] at h
    simp [h]

/-- The model is read before the list it asks for. -/
theorem requirePairing_notMem {rest : List Part} (h : .explicit :: rest <:+ Part.all s) :
    .requirePairing ∉ Part.explicit :: rest := by
  cases s <;>
  · simp [Part.all, List.suffix_cons_iff] at h
    simp [h]

/-- What a page has of the shared state. -/
structure Tracks (b : Backend D P) (u : UiSocket) : Prop where
  device : u.build.snapshot.device = b.inst.app.device
  unread : u.build.unread <:+ Part.all u.build.snapshot.scope
  fresh : ∀ part ∈ Part.all u.build.snapshot.scope,
    (pageMirror u.build.snapshot.scope).Fresh b u.reader part
  sent : u.sent = true → u.build.unread = [] ∧ u.pushed = some u.build.snapshot

/-- A page that has everything to read. -/
theorem Tracks.afresh {u : UiSocket} (hd : u.build.snapshot.device = b.inst.app.device)
    (hu : u.build.unread = Part.all u.build.snapshot.scope) (hs : u.sent = false) : Tracks b u :=
  ⟨hd, hu ▸ List.suffix_rfl, fun _ hi => Mirror.fresh_of_unread hu hi, by simp [hs]⟩

theorem Tracks.read {u : UiSocket} (h : Tracks b u) (hb : b.advance iterate u.build = some build) :
    Tracks b { u with build } := by
  unfold Backend.advance at hb
  split at hb
  · next part rest hu =>
    cases hb
    obtain ⟨hscope, hdevice⟩ := readPart_fields b iterate u.build part
    have hsuffix : part :: rest <:+ Part.all u.build.snapshot.scope := hu ▸ h.unread
    -- What was read before is as it was, or a notification is to come.
    have earlier (j : Part) (hj : j ∈ Part.all u.build.snapshot.scope)
        (hread : j ∉ part :: rest) : u.reader.noted = true ∨
          j.Due u.build.snapshot.scope b ∨ j.Agrees u.build.snapshot.scope u.build b :=
      (h.fresh j hj).resolve_left (by rwa [UiSocket.reader, hu])
    have hread : u.reader.noted = true ∨ part.Due u.build.snapshot.scope b ∨
        part.Agrees u.build.snapshot.scope (b.readPart iterate u.build part) b := by
      by_cases hentries : part = .entries
      · subst hentries
        obtain hn | hd | ha := earlier .doc (by cases u.build.snapshot.scope <;> simp [Part.all])
          (doc_notMem hsuffix)
        · exact .inl hn
        · exact .inr (.inl (.inl hd))
        · exact .inr (.inr (readPart_agrees _ rfl (fun _ => ha) (by simp)))
      · by_cases hexplicit : part = .explicit
        · subst hexplicit
          obtain hn | hd | ha := earlier .requirePairing
            (by cases u.build.snapshot.scope <;> simp [Part.all]) (requirePairing_notMem hsuffix)
          · exact .inl hn
          · exact hd.elim
          · exact .inr (.inr (readPart_agrees _ rfl (by simp) fun _ => ha))
        · exact .inr (.inr (readPart_agrees _ rfl (absurd · hentries) (absurd · hexplicit)))
    have hstep : (pageMirror u.build.snapshot.scope).Step (Part.all u.build.snapshot.scope)
        (b, u.reader) (b, ⟨rest, u.reader.noted,
          { b.readPart iterate u.build part with unread := rest }⟩) :=
      .read hu hread fun j hj ha => readPart_keeps part rfl hj ha
    refine ⟨hdevice.trans h.device, ?_, ?_, fun hsent => ?_⟩
    · simp only [hscope]
      exact (List.suffix_cons part rest).trans hsuffix
    · simp only [hscope]
      exact hstep.fresh h.fresh
    · have hnil := (h.sent hsent).1
      rw [hu] at hnil
      cases hnil
  · cases hb

theorem Tracks.source {b' : Backend D P} {u u' : UiSocket} {notified : Bool} (h : Tracks b u)
    (hm : (pageMirror u.build.snapshot.scope).Moves b b' notified)
    (hdevice : b'.inst.app.device = b.inst.app.device) (hbuild : u'.build = u.build)
    (hpushed : u'.pushed = u.pushed) (hsent : u'.sent = u.sent)
    (hn : u'.notes.pending = (u.notes.pending || notified)) : Tracks b' u' := by
  refine ⟨?_, by rw [hbuild]; exact h.unread, ?_, by rw [hbuild, hpushed, hsent]; exact h.sent⟩
  · rw [hbuild, hdevice]
    exact h.device
  · rw [hbuild]
    refine fun part hi => (h.fresh part hi).source hm ?_ ?_ hn
    · simp only [UiSocket.reader, hbuild]
    · simp only [UiSocket.reader, hbuild]

end Reads

section Runs

variable [Yrs D P] [Entries D] [DecidableEq P] {web : Server.Extractors} {config : Config}
  {name : String} {effective : EffectiveSettings} {clipboardAvailable : Bool}
  {p p' : Process D P}

/-- An instance keeps its name. -/
theorem step_device {b b' : Backend D P} {a : Backend.Act P} (hs : b.Step a b') :
    b'.inst.app.device = b.inst.app.device := by
  cases hs with
  | handle _ _ hi =>
    cases Instance.step_cases hi with
    | handle => exact (App.handle_identity _ _ _ _ _).1
  | sync hi =>
    cases Instance.step_cases hi
    rfl
  | _ => rfl

/-- The pages track the shared state in every step. -/
theorem tracks_step (hlaw : SilentApply D)
    (hr : (Backend.system D P config name effective clipboardAvailable).Reachable p.toBackend)
    {a : Act P} (hs : p.Step web a p')
    (h : ∀ k r u, p.clients k = some ⟨r, .socket u⟩ → Tracks p.toBackend u) :
    ∀ k r u, p'.clients k = some ⟨r, .socket u⟩ → Tracks p'.toBackend u := by
  -- A step of one client.
  have client {k : Nat} {r : Server.Request} {stage : Stage}
      (hstage : ∀ u, stage = .socket u → Tracks p.toBackend u) :
      ∀ j r' u, (p.setStage k r stage).clients j = some ⟨r', .socket u⟩ →
        Tracks p.toBackend u := by
    intro j r' u hj
    rw [setStage_clients] at hj
    split at hj
    · cases hj
      exact hstage u rfl
    · exact h j r' u hj
  cases hs with
  | @backend a b ho hb =>
    have hb := Backend.step_cases hb
    have hdevice := step_device hb
    intro k r u hk
    by_cases ha : a = .notify
    · subst ha
      obtain ⟨⟨r', stage⟩, hclient, hnote⟩ := Option.map_eq_some_iff.mp hk
      cases stage with
      | socket u' =>
        cases hnote
        have hmoves : (pageMirror u'.build.snapshot.scope).Moves p.toBackend b true :=
          ⟨fun _ _ _ => .inr (.inr rfl), fun _ _ => .inr rfl⟩
        exact (h k r' u' hclient).source hmoves hdevice rfl rfl rfl (by simp)
      | _ => cases hnote
    · have hi := Backend.Reachable.instance hr
      have hm := Instance.Reachable.sync hi
      obtain ⟨τ, hτ⟩ := hm
      obtain ⟨σ, hσ⟩ := Manager.Reachable.named hτ.reachable
      have htells := (Backend.Reachable.sound hr).tells hlaw (Instance.Reachable.appOnly hi)
        (Manager.Run.owesDisconnects hτ) hσ hb ha
      have hsame : p.clientsAfter a = p.clients := by
        cases a with
        | notify => exact absurd rfl ha
        | _ => rfl
      exact (h k r u (by rwa [← hsame])).source (moves_of_tells htells) hdevice rfl rfl rfl
        (by simp)
  | @request k r hk =>
    refine client fun u hu => ?_
    unfold stageOf at hu
    split at hu
    · cases hu
    · cases hu
    · cases hu
      exact Tracks.afresh rfl rfl rfl
    · cases hu
  | enqueue hk => exact client (by simp)
  | read hk => exact client (by simp)
  | readSocket hk hb =>
    refine client fun u hu => ?_
    cases hu
    exact (h _ _ _ hk).read hb
  | answer hk => exact client (by simp)
  | push hk hu hsent =>
    refine client fun u hu' => ?_
    cases hu'
    have hold := h _ _ _ hk
    exact ⟨hold.device, hold.unread, hold.fresh, fun _ => ⟨hu, rfl⟩⟩
  | wake hk hsent hr =>
    refine client fun u hu => ?_
    cases hu
    exact Tracks.afresh (h _ _ _ hk).device rfl rfl
  | close hk => exact client (by simp)

theorem Reachable.tracks (hlaw : SilentApply D)
    (h : (system D P web config name effective clipboardAvailable).Reachable p) :
    ∀ k r u, p.clients k = some ⟨r, .socket u⟩ → Tracks p.toBackend u := by
  refine h.invariant (I := fun p => ∀ k r u, p.clients k = some ⟨r, .socket u⟩ →
    Tracks p.toBackend u) ?_ fun p a p' hr hI hs =>
      tracks_step hlaw (Reachable.backend hr) (step_cases hs) hI
  rintro p rfl k r u hk
  cases hk

/-- A snapshot that has every part of a context is one of the context. -/
theorem snapshot_eq {ctx : ServerCtx} {s : StateSnapshot} (hdevice : s.device = ctx.device)
    (hsettings : s.settings = ctx.settings) (hregistry : s.registry = ctx.peers)
    (hmodel : s.requirePairing = ctx.sync.requirePairing) (hexplicit : s.explicit = ctx.explicit)
    (hdevices : s.devicesConnected = ctx.sync.connected .devices)
    (hscope : s.scopeConnected = ctx.sync.connected s.scope)
    (hjoined : s.joined = ctx.joinedRooms) (hentries : s.entries = (ctx.docs.get s.scope).getD []) :
    ∃ order, s = ctx.snapshot s.scope order := by
  obtain ⟨device, settings, scope, registry, requirePairing, explicit, order⟩ := s
  dsimp only at *
  subst hdevice hsettings hregistry hmodel hexplicit hdevices hscope hjoined hentries
  exact ⟨order, rfl⟩

/-- Nothing is left for the page to do, and nothing is on its way to it. -/
structure AtRest (p : Process D P) (u : UiSocket) : Prop where
  sent : u.sent = true
  notes : u.notes.pending = false
  notice : p.notice = .none
  updates : ¬ p.UpdatesPending u.build.snapshot.scope
  reports : ∀ s, s = u.build.snapshot.scope ∨ s = .devices → ¬ p.ReportsPending s

/-- A page at rest shows the shared state as it is. -/
theorem socket_current (hlaw : SilentApply D)
    (h : (system D P web config name effective clipboardAvailable).Reachable p) {k : Nat}
    {r : Server.Request} {u : UiSocket} (hk : p.clients k = some ⟨r, .socket u⟩)
    (hrest : AtRest p u) :
    ∃ order, u.pushed = some (p.ctx.snapshot u.build.snapshot.scope order) := by
  have ht := Reachable.tracks hlaw h k r u hk
  obtain ⟨hunread, hpushed⟩ := ht.sent hrest.sent
  have hagrees (part : Part) (hi : part ∈ Part.all u.build.snapshot.scope)
      (hd : ¬ part.Due u.build.snapshot.scope p.toBackend) :
      part.Agrees u.build.snapshot.scope u.build p.toBackend :=
    (ht.fresh part hi).agrees hunread hrest.notes hd
  have hmem (part : Part) (hne : part ≠ .devicesConnected) :
      part ∈ Part.all u.build.snapshot.scope := by
    cases hscope : u.build.snapshot.scope <;> cases part <;> first
      | exact absurd rfl hne
      | simp [Part.all]
  have hstill (part : Part) : part.Due u.build.snapshot.scope p.toBackend → False := by
    intro hd
    cases part with
    | requirePairing => exact hd
    | entries => exact hd.elim (absurd hrest.notice) hrest.updates
    | scopeConnected => exact hd.elim (absurd hrest.notice) (hrest.reports _ (.inl rfl))
    | devicesConnected => exact hd.elim (absurd hrest.notice) (hrest.reports _ (.inr rfl))
    | _ => exact hd hrest.notice
  have hread (part : Part) (hne : part ≠ .devicesConnected) :
      part.Agrees u.build.snapshot.scope u.build p.toBackend :=
    hagrees part (hmem part hne) (hstill part)
  obtain ⟨hconnected, hdevices⟩ := hread .scopeConnected (by simp)
  have hdevices : u.build.snapshot.devicesConnected =
      p.inst.sync.state.connected .devices := by
    cases hscope : u.build.snapshot.scope with
    | devices => exact hdevices hscope
    | room name =>
      exact hagrees .devicesConnected (by simp [hscope, Part.all]) (hstill .devicesConnected)
  have hentries : u.build.snapshot.entries = p.history u.build.snapshot.scope :=
    hread .entries (by simp)
  obtain ⟨order, horder⟩ : ∃ order, u.build.snapshot = p.ctx.snapshot _ order :=
    snapshot_eq ht.device (hread .settings (by simp)) (hread .registry (by simp))
      (hread .requirePairing (by simp)) (hread .explicit (by simp)) hdevices hconnected
      (hread .joined (by simp)) hentries
  exact ⟨order, hpushed.trans (congrArg some horder)⟩

/-- Applying an update to a log changes it only by entries that it reports. -/
theorem silentApply_entryLog : SilentApply EntryLog := by
  intro d d' u h
  have happly : some (d ++ u.filter (· ∉ d), if u ⊆ d then none else some (u.filter (· ∉ d))) =
      some (d', none) := h
  obtain ⟨rfl, hnone⟩ := Prod.mk.inj (Option.some.inj happly)
  split at hnone
  · next hsub =>
    have hnil : u.filter (· ∉ d) = [] := by
      rw [List.filter_eq_nil_iff]
      intro e he
      simpa using hsub he
    rw [hnil, List.append_nil]
  · cases hnone

/-- Of the manager's threads, only the app loop has anything to do. -/
def Act.onlyLoop : Act P → Bool
  | .backend (.sync (.call t)) => t = .caller 0
  | .backend (.sync _) => false
  | _ => true

theorem exec_calls {acts : List (Act P)} (h : System.exec (step web) p acts = some p')
    (ha : ∀ a ∈ acts, a.onlyLoop = true) (hp : ∀ t ≠ .caller 0, p.inst.sync.calls t = []) :
    ∀ t ≠ .caller 0, p'.inst.sync.calls t = [] := by
  induction acts generalizing p with
  | nil =>
    obtain rfl := Option.some.inj h
    exact hp
  | cons a acts ih =>
    obtain ⟨p₁, hp₁, h⟩ := Option.bind_eq_some_iff.mp h
    refine ih h (fun a hmem => ha a (List.mem_cons_of_mem _ hmem)) fun t ht => ?_
    have hact := ha a List.mem_cons_self
    cases step_cases hp₁ with
    | @backend a b ho hb =>
      cases Backend.step_cases hb with
      | @handle env event _ _ _ hi =>
        cases Instance.step_cases hi with
        | handle =>
          cases (p.inst.react env event).command <;> simp [Manager.request, ht, hp t ht]
      | @sync a _ hi =>
        cases Instance.step_cases hi with
        | @sync _ m _ hm =>
          cases a with
          | call t' =>
            obtain rfl := of_decide_eq_true hact
            obtain ⟨c, cs, -, rfl⟩ := (Manager.step_cases hm).of_call
            simp [ht, hp t ht]
          | _ => cases hact
      | _ => exact hp t ht
    | _ => exact hp t ht

/-- A page of the room asks for its socket, reads nine parts, and is sent them. -/
def opening : List (Act EntryLog) :=
  .request 0 ⟨some (.v4 0x7f000001), .get, "/ws/ui", some "scope=room:attic", true, none⟩ ::
    List.replicate 9 (.read 0 StateSnapshot.byId) ++ [.push 0]

/-- The note is stored, gets to the loop and is told to the pages; the page wakes up and reads
again. -/
def waking : List (Act EntryLog) :=
  noting ++ [.backend (.sync (.call (.caller 0))), .backend (.forward 1), .backend (.deliver 1),
    .backend (.handle ⟨1, "f", true⟩
      (.docUpdate (.room "attic") ⟨[⟨"e", "d", "D", "hi", 0⟩], none⟩)),
    .backend (.refresh true), .backend .notify, .wake 0] ++
    List.replicate 9 (.read 0 StateSnapshot.byId) ++ [.push 0]

/-- The texts a page was shown last. -/
def shownTexts (p : Process D P) (k : Nat) : Option (List String) :=
  ((p.clients k).bind Client.shown).map fun s => s.entries.map (·.text)

/-- The page of a room first shows that the room is empty, and later that it is not. -/
theorem exists_woken : ∃ τ₁ τ₂ p₁ p₂ r u,
    plainSystem.Run τ₁ p₁ ∧ p₁.shownTexts 0 = some [] ∧
      plainSystem.Run (τ₁ ++ τ₂) p₂ ∧ (.wake 0 : Act EntryLog) ∈ τ₂.map (·.act) ∧
      p₂.shownTexts 0 = some ["hi"] ∧
      p₂.clients 0 = some ⟨r, .socket u⟩ ∧ u.build.snapshot.scope = .room "attic" ∧
      AtRest p₂ u := by
  obtain ⟨p₁, hp₁, hempty⟩ := System.exists_of_exec
    (show (System.exec (step plainWeb) plainStart opening).any (fun p =>
      decide (p.shownTexts 0 = some [])) = true by decide +kernel)
  obtain ⟨p₂, hp₂, hwoken⟩ := System.exists_of_exec
    (show (System.exec (step plainWeb) plainStart (opening ++ waking)).any (fun p => decide (
      (p.shownTexts 0 = some ["hi"] ∧ p.notice = .none ∧ p.docEvents = []) ∧
      (p.inst.sync.events = [] ∧ p.inst.sync.calls (.caller 0) = []) ∧
      ((p.handles (.room "attic")).bind p.forwarders).all (fun f =>
        decide (f.updates.pending = false ∧ f.holding = none)) = true ∧
      ((p.clients 0).bind Client.socket).any (fun u =>
        decide (u.build.snapshot.scope = .room "attic" ∧ u.sent = true ∧
          u.notes.pending = false)) = true)) = true by decide +kernel)
  obtain ⟨⟨htexts, hnotice, hdoc⟩, ⟨hevents, hidle⟩, hforwarder, hsocket⟩ :=
    of_decide_eq_true hwoken
  obtain ⟨u, hu, hrest⟩ := (Option.any_eq_true _ _).mp hsocket
  obtain ⟨hscope, hsent, hnotes⟩ := of_decide_eq_true hrest
  obtain ⟨client, hclient, hu⟩ := Option.bind_eq_some_iff.mp hu
  have hcalls : ∀ t, p₂.inst.sync.calls t = [] := by
    intro t
    by_cases ht : t = .caller 0
    · rw [ht, hidle]
    · have hstart : plainStart.inst = .start ⟨"d", none, [], [], ["attic"]⟩ "D"
          ⟨false, .manual, true⟩ := (Backend.start_wired _ _ _ _).1
      refine exec_calls hp₂ (List.all_eq_true.mp (by decide +kernel)) (fun t _ => ?_) t ht
      rw [hstart, Instance.start_sync, (Manager.new_bare _ _ _).calls]
  have h₀ : plainSystem.Run [] plainStart := .start rfl
  have hrun₁ := h₀.exec (fun _ _ _ hs => hs) hp₁
  rw [System.exec_append, hp₁, Option.bind_some] at hp₂
  have hrun₂ := hrun₁.exec (fun _ _ _ hs => hs) hp₂
  refine ⟨_, _, p₁, p₂, client.request, u, hrun₁, of_decide_eq_true hempty, hrun₂, ?_, htexts,
    hclient.trans (congrArg some (client.eq_of_socket hu)), hscope, hsent, hnotes, hnotice, ?_, ?_⟩
  · rw [System.map_act_trace hp₂]
    simp [waking]
  · rintro (⟨i, f, hi, hf, hp⟩ | ⟨event, hmem, -⟩)
    · rw [hscope] at hi
      simp [hi, hf] at hforwarder
      simp [hforwarder] at hp
    · simp [hdoc] at hmem
  · rintro s - (⟨event, hmem, -⟩ | ⟨d, t, howed⟩)
    · simp [hevents] at hmem
    · simp [Manager.owed, hcalls] at howed

/-- Woken by the note, the page shows the room as it is then. -/
theorem socket_current_woken : ∃ τ₁ τ₂ p₁ p₂ r u,
    plainSystem.Run τ₁ p₁ ∧ p₁.shownTexts 0 = some [] ∧
      plainSystem.Run (τ₁ ++ τ₂) p₂ ∧ (.wake 0 : Act EntryLog) ∈ τ₂.map (·.act) ∧
      p₂.shownTexts 0 = some ["hi"] ∧ p₂.clients 0 = some ⟨r, .socket u⟩ ∧
      ∃ order, u.pushed = some (p₂.ctx.snapshot (.room "attic") order) := by
  obtain ⟨τ₁, τ₂, p₁, p₂, r, u, h₁, hempty, h₂, hwake, htexts, hk, hscope, hrest⟩ := exists_woken
  obtain ⟨order, hpushed⟩ := socket_current silentApply_entryLog h₂.reachable hk hrest
  rw [hscope] at hpushed
  exact ⟨τ₁, τ₂, p₁, p₂, r, u, h₁, hempty, h₂, hwake, htexts, hk, order, hpushed⟩

end Runs

section Separation

variable [Entries D]

/-- The history is that of a document of the scope, as it was at some point of the run. -/
def OfScope (τ : List (Transition (Process D P) (Act P))) (m : Manager D P) (σ : DocId → Scope)
    (s : StateSnapshot) : Prop :=
  s.entries = [] ∨ ∃ t ∈ τ, ∃ d, m.Belongs σ s.scope d ∧
    s.entries = Entries.entries (t.pre.inst.sync.docs.heap d)

/-- What a run says of the documents and of what is read off them. -/
structure Separates (web : Server.Extractors) (σ : DocId → Scope)
    (τ : List (Transition (Process D P) (Act P))) (p : Process D P) : Prop where
  named : p.inst.sync.Named σ
  past : ∀ t ∈ τ, t.pre.inst.sync.Named σ ∧ t.pre.inst.sync.docs.next ≤ p.inst.sync.docs.next
  building : ∀ k client build, p.clients k = some client → client.build = some build →
    Server.Asks web client.request build.snapshot.scope ∧
      (∀ d, build.doc = some d → p.inst.sync.Belongs σ build.snapshot.scope d) ∧
      OfScope τ p.inst.sync σ build.snapshot
  shown : ∀ k client s, p.clients k = some client → client.shown = some s →
    Server.Asks web client.request s.scope ∧ OfScope τ p.inst.sync σ s

variable {web : Server.Extractors} {σ σ' : DocId → Scope}
  {τ : List (Transition (Process D P) (Act P))} {p p' : Process D P}

theorem OfScope.mono {m m' : Manager D P} {s : StateSnapshot} (h : OfScope τ m σ s)
    (hn : m.docs.next ≤ m'.docs.next) (hσ : ∀ d < m.docs.next, σ' d = σ d)
    (t : Transition (Process D P) (Act P)) : OfScope (τ ++ [t]) m' σ' s := by
  obtain hnil | ⟨t', ht, d, hd, heq⟩ := h
  · exact .inl hnil
  · exact .inr ⟨t', List.mem_append_left _ ht, d, hd.mono hn hσ, heq⟩

/-- A step of one client that reads and shows what it may. -/
theorem Separates.client (h : Separates web σ τ p) {a : Act P} {k : Nat} {r : Server.Request}
    {stage : Stage} (hp : p'.clients = (p.setStage k r stage).clients)
    (hinst : p'.inst = p.inst)
    (hbuild : ∀ build, (Client.mk r stage).build = some build →
      Server.Asks web r build.snapshot.scope ∧
        (∀ d, build.doc = some d → p.inst.sync.Belongs σ build.snapshot.scope d) ∧
        OfScope (τ ++ [⟨p, a, p'⟩]) p.inst.sync σ build.snapshot)
    (hshown : ∀ s, (Client.mk r stage).shown = some s → Server.Asks web r s.scope ∧
      OfScope (τ ++ [⟨p, a, p'⟩]) p.inst.sync σ s) :
    Separates web σ (τ ++ [⟨p, a, p'⟩]) p' := by
  refine ⟨hinst ▸ h.named, fun t ht => ?_, fun j client build hj hb => ?_,
    fun j client s hj hs => ?_⟩
  · rw [hinst]
    obtain ht | ht := List.mem_append.mp ht
    · exact h.past t ht
    · obtain rfl := List.mem_singleton.mp ht
      exact ⟨h.named, le_rfl⟩
  · rw [hp, setStage_clients] at hj
    rw [hinst]
    split at hj
    · cases hj
      exact hbuild build hb
    · obtain ⟨hasks, hdoc, hof⟩ := h.building j client build hj hb
      exact ⟨hasks, hdoc, hof.mono le_rfl (fun _ _ => rfl) _⟩
  · rw [hp, setStage_clients] at hj
    rw [hinst]
    split at hj
    · cases hj
      exact hshown s hs
    · obtain ⟨hasks, hof⟩ := h.shown j client s hj hs
      exact ⟨hasks, hof.mono le_rfl (fun _ _ => rfl) _⟩

variable [Yrs D P] [DecidableEq P]

/-- A step takes no document back, and renames none. -/
theorem named_step {b b' : Backend D P} {a : Backend.Act P} (h : b.inst.sync.Named σ)
    (hs : b.Step a b') : ∃ σ', b'.inst.sync.Named σ' ∧
      (∀ d < b.inst.sync.docs.next, σ' d = σ d) ∧
      b.inst.sync.docs.next ≤ b'.inst.sync.docs.next := by
  have stays {m : Manager D P} (heq : m = b.inst.sync) : ∃ σ', m.Named σ' ∧
      (∀ d < b.inst.sync.docs.next, σ' d = σ d) ∧ b.inst.sync.docs.next ≤ m.docs.next := by
    subst heq
    exact ⟨σ, h, fun _ _ => rfl, le_rfl⟩
  have steps {m : Manager D P} {a : Action P} (hm : b.inst.sync.Step a m) : ∃ σ', m.Named σ' ∧
      (∀ d < b.inst.sync.docs.next, σ' d = σ d) ∧ b.inst.sync.docs.next ≤ m.docs.next := by
    obtain ⟨σ', hσ', hσ⟩ := h.step hm
    exact ⟨σ', hσ', hσ, hm.next_le⟩
  cases hs with
  | @handle env event _ _ _ hi =>
    cases Instance.step_cases hi with
    | handle hidle =>
      cases hc : (b.inst.react env event).command with
      | none => exact stays rfl
      | some command => exact steps (Manager.step_cases (Instance.request_step hidle command))
  | sync hi =>
    cases Instance.step_cases hi with
    | sync _ hm => exact steps (Manager.step_cases hm)
  | _ => exact stays rfl

/-- What a page has read and shown is its own. -/
theorem note_shows (client : Client) :
    client.note.build = client.build ∧ client.note.shown = client.shown := by
  obtain ⟨r, stage⟩ := client
  cases stage <;> exact ⟨rfl, rfl⟩

omit [Yrs D P] [DecidableEq P] in
/-- A history is read off the document that was found for the scope. -/
theorem advance_ofScope {iterate : (s : Finset DeviceId) → Iteration s} {build build' : StateBuild}
    (hb : p.advance iterate build = some build') (hn : p.inst.sync.Named σ)
    (hdoc : ∀ d, build.doc = some d → p.inst.sync.Belongs σ build.snapshot.scope d)
    (hof : OfScope τ p.inst.sync σ build.snapshot) (a : Act P) :
    build'.snapshot.scope = build.snapshot.scope ∧
      (∀ d, build'.doc = some d → p.inst.sync.Belongs σ build.snapshot.scope d) ∧
      OfScope (τ ++ [⟨p, a, p'⟩]) p.inst.sync σ build'.snapshot := by
  have hof : OfScope (τ ++ [⟨p, a, p'⟩]) p.inst.sync σ build.snapshot :=
    hof.mono le_rfl (fun _ _ => rfl) _
  unfold Backend.advance at hb
  split at hb
  · next part rest hu =>
    cases hb
    cases part with
    | doc => exact ⟨rfl, fun d hd => hn.set _ _ hd, hof⟩
    | entries =>
      refine ⟨rfl, hdoc, ?_⟩
      cases hd : build.doc with
      | none => exact .inl (by simp [Backend.readPart, hd])
      | some d =>
        exact .inr ⟨_, List.mem_append_right _ (List.mem_singleton_self _), d, hdoc d hd,
          by simp [Backend.readPart, hd]⟩
    | _ => exact ⟨rfl, hdoc, hof⟩
  · cases hb

theorem Separates.step (h : Separates web σ τ p) {a : Act P} (hs : p.Step web a p') :
    ∃ σ', Separates web σ' (τ ++ [⟨p, a, p'⟩]) p' := by
  cases hs with
  | @backend a b ho hb =>
    obtain ⟨σ', hσ', hσ, hn⟩ := named_step h.named (Backend.step_cases hb)
    -- The clients are those from before, whether they are notified or not.
    have before (k : Nat) (client : Client) (hk : p.clientsAfter a k = some client) :
        ∃ client', p.clients k = some client' ∧ client.request = client'.request ∧
          client.build = client'.build ∧ client.shown = client'.shown := by
      obtain heq | heq := p.clientsAfter_cases a k
      · exact ⟨client, heq.symm.trans hk, rfl, rfl, rfl⟩
      · obtain ⟨client', hclient, rfl⟩ := Option.map_eq_some_iff.mp (heq.symm.trans hk)
        exact ⟨client', hclient, client'.note_request, note_shows client'⟩
    refine ⟨σ', hσ', fun t ht => ?_, fun k client build hk hbuild => ?_,
      fun k client s hk hshown => ?_⟩
    · have keep {m : Manager D P} (hm : m.Named σ) (hnext : m.docs.next ≤ p.inst.sync.docs.next) :
          m.Named σ' ∧ m.docs.next ≤ b.inst.sync.docs.next := by
        have hσm (d : DocId) (hd : d < m.docs.next) : σ' d = σ d :=
          hσ d (lt_of_lt_of_le hd hnext)
        exact ⟨⟨fun s d hd => (hm.set s d hd).mono le_rfl hσm,
          fun e s d hd => (hm.conn e s d hd).mono le_rfl hσm,
          fun i f hf => (hm.fan i f hf).mono le_rfl hσm⟩, hnext.trans hn⟩
      obtain ht | ht := List.mem_append.mp ht
      · exact keep (h.past t ht).1 (h.past t ht).2
      · obtain rfl := List.mem_singleton.mp ht
        exact keep h.named le_rfl
    · obtain ⟨client', hk', hr, hb', -⟩ := before k client hk
      obtain ⟨hasks, hdoc, hof⟩ := h.building k client' build hk' (hb' ▸ hbuild)
      exact ⟨hr ▸ hasks, fun d hd => (hdoc d hd).mono hn hσ, hof.mono hn hσ _⟩
    · obtain ⟨client', hk', hr, -, hs'⟩ := before k client hk
      obtain ⟨hasks, hof⟩ := h.shown k client' s hk' (hs' ▸ hshown)
      exact ⟨hr ▸ hasks, hof.mono hn hσ _⟩
  | @request k r hk =>
    refine ⟨σ, h.client rfl rfl (fun build hb => ?_) fun s hs => ?_⟩
    · have hstart : ∃ scope, Server.Asks web r scope ∧
          build = .start p.inst.app.device scope := by
        unfold stageOf at hb
        split at hb
        · cases hb
        · cases hb
          exact ⟨_, (Server.answer_state.mp ‹_›).2, rfl⟩
        · cases hb
          exact ⟨_, (Server.answer_ui.mp ‹_›).2.2, rfl⟩
        · cases hb
      obtain ⟨scope, hasks, rfl⟩ := hstart
      exact ⟨hasks, by simp [StateBuild.start], .inl rfl⟩
    · unfold stageOf at hs
      split at hs <;> cases hs
  | enqueue hk => exact ⟨σ, h.client rfl rfl (by simp [Client.build]) (by simp [Client.shown])⟩
  | @read k iterate r build build' hk hb =>
    obtain ⟨hasks, hdoc, hof⟩ := h.building k _ build hk rfl
    obtain ⟨hscope, hdoc, hof⟩ := advance_ofScope hb h.named hdoc hof (.read k iterate)
    refine ⟨σ, h.client rfl rfl (fun b hb' => ?_) (by simp [Client.shown])⟩
    cases hb'
    exact ⟨hscope ▸ hasks, hscope ▸ hdoc, hof⟩
  | @readSocket k iterate r u build hk hb =>
    obtain ⟨hasks, hdoc, hof⟩ := h.building k _ u.build hk rfl
    obtain ⟨hscope, hdoc, hof⟩ := advance_ofScope hb h.named hdoc hof (.read k iterate)
    refine ⟨σ, h.client rfl rfl (fun b hb' => ?_) fun s hs => ?_⟩
    · cases hb'
      exact ⟨hscope ▸ hasks, hscope ▸ hdoc, hof⟩
    · obtain ⟨hasks, hof⟩ := h.shown k _ s hk hs
      exact ⟨hasks, hof.mono le_rfl (fun _ _ => rfl) _⟩
  | @answer k r build hk hu =>
    obtain ⟨hasks, -, hof⟩ := h.building k _ build hk rfl
    refine ⟨σ, h.client rfl rfl (by simp [Client.build]) fun s hs => ?_⟩
    cases hs
    exact ⟨hasks, hof.mono le_rfl (fun _ _ => rfl) _⟩
  | @push k r u hk hu hsent =>
    obtain ⟨hasks, hdoc, hof⟩ := h.building k _ u.build hk rfl
    refine ⟨σ, h.client rfl rfl (fun b hb => ?_) fun s hs => ?_⟩
    · cases hb
      exact ⟨hasks, hdoc, hof.mono le_rfl (fun _ _ => rfl) _⟩
    · cases hs
      exact ⟨hasks, hof.mono le_rfl (fun _ _ => rfl) _⟩
  | @wake k r u x notes hk hsent hr =>
    obtain ⟨hasks, hdoc, hof⟩ := h.building k _ u.build hk rfl
    refine ⟨σ, h.client rfl rfl (fun b hb => ?_) fun s hs => ?_⟩
    · cases hb
      exact ⟨hasks, hdoc, hof.mono le_rfl (fun _ _ => rfl) _⟩
    · obtain ⟨hasks, hof⟩ := h.shown k _ s hk hs
      exact ⟨hasks, hof.mono le_rfl (fun _ _ => rfl) _⟩
  | close hk => exact ⟨σ, h.client rfl rfl (by simp [Client.build]) (by simp [Client.shown])⟩

variable {config : Config} {name : String} {effective : EffectiveSettings}
  {clipboardAvailable : Bool}

theorem Run.separates
    (h : (system D P web config name effective clipboardAvailable).Run τ p) :
    ∃ σ, Separates web σ τ p := by
  refine h.history (I := fun τ p => ∃ σ, Separates web σ τ p) ?_ fun τ p a p' _ hI hs => ?_
  swap
  · obtain ⟨σ, hI⟩ := hI
    exact hI.step (step_cases hs)
  rintro p rfl
  have hi : (Backend.system D P config name effective clipboardAvailable).Reachable
      (.start config name effective clipboardAvailable) := ⟨[], .start rfl⟩
  obtain ⟨σ, hσ⟩ := Manager.Reachable.named
    (Instance.Reachable.sync (Backend.Reachable.instance hi))
  refine ⟨σ, hσ, by simp, ?_, ?_⟩ <;>
  · intro k client _ hk
    cases hk

/-- Documents belong to one scope for good, and whatever a client is shown of a history is of the
one scope that it asked for, as a local client. -/
theorem shown_separate
    (h : (system D P web config name effective clipboardAvailable).Run τ p) :
    ∃ σ : DocId → Scope, (∀ t ∈ τ, ∀ s d, t.pre.inst.sync.docs.get s = some d → σ d = s) ∧
      ∀ k client s, p.clients k = some client → client.shown = some s →
        Server.Asks web client.request s.scope ∧ (s.entries = [] ∨
          ∃ t ∈ τ, ∃ d, σ d = s.scope ∧
            s.entries = Entries.entries (t.pre.inst.sync.docs.heap d)) := by
  obtain ⟨σ, hs⟩ := Run.separates h
  refine ⟨σ, fun t ht s d hd => ((hs.past t ht).1.set s d hd).2, fun k client s hk hshown => ?_⟩
  obtain ⟨hasks, hof⟩ := hs.shown k client s hk hshown
  refine ⟨hasks, hof.imp_right ?_⟩
  rintro ⟨t, ht, d, hd, heq⟩
  exact ⟨t, ht, d, hd.2, heq⟩

/-- The note that the page shows is from the document of the room it asked for. -/
theorem shown_separate_woken : ∃ τ p client s, plainSystem.Run τ p ∧
    p.clients 0 = some client ∧ client.shown = some s ∧ s.entries.map (·.text) = ["hi"] ∧
      Server.Asks plainWeb client.request s.scope ∧
      ∃ σ : DocId → Scope, ∃ t ∈ τ, ∃ d, σ d = s.scope ∧
        s.entries = Entries.entries (t.pre.inst.sync.docs.heap d) := by
  obtain ⟨_, _, _, p, r, u, -, -, h, -, htexts, hk, -, -⟩ := exists_woken
  obtain ⟨s, hs, hentries⟩ := Option.map_eq_some_iff.mp htexts
  rw [hk, Option.bind_some] at hs
  obtain ⟨σ, -, hshown⟩ := shown_separate h
  obtain ⟨hasks, hof⟩ := hshown 0 _ s hk hs
  have hne : s.entries ≠ [] := fun hnil => by simp [hnil] at hentries
  exact ⟨_, p, _, s, h, hk, hs, hentries, hasks, σ, hof.resolve_left hne⟩

end Separation

end Process

end Yoink
