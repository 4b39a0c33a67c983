import Yoink.App.Backend
import Yoink.Sync.Rooms

/-!
# What the loop hears of the documents

An update gets to the loop through the broadcast channel of its document, a forwarder that may fall
behind, and a channel that all forwarders share. The forwarder of a scope is wired up before anyone
else has the document, and no other one ever is, so `updates_forwarded` is about all updates there
ever were of it: they come in order and once, and a gap is reported where it is.
-/

namespace Yoink

variable {D P : Type}

namespace Manager

/-- The loop opens a document only for a room it is joining, which has none yet. -/
def OpensNew (m : Manager D P) : Prop :=
  ∀ s, .docsGetOrCreate s ∈ m.calls (.caller 0) →
    (∃ name, m.calls (.caller 0) = [.docsGetOrCreate s, .joinRoom name]) ∧ m.docs.get s = none

/-- The update that a transaction broadcasts to the subscribers of a document. -/
def Commit.updateOf (c : Commit D P) (d : DocId) : Option (DocUpdate P) :=
  if c.doc = d then c.update.map fun u => ⟨u, c.origin⟩ else none

section Steps

variable [Yrs D P] [DecidableEq P] {m m' : Manager D P} {a : Action P}

theorem OpensNew.step (h : m.OpensNew) (hs : m.Step a m') (hi : a.isInvoke = false)
    (ho : m.AppOnly) : m'.OpensNew := by
  intro s hmem
  by_cases ha : a = .call (.caller 0)
  · subst ha
    obtain ⟨c, cs, hc, rfl⟩ := hs.of_call
    rw [setCalls_calls, Function.update_self] at hmem
    obtain hmem | hmem := List.mem_append.mp hmem
    · cases m.perform_isEffect c _ hmem
    · obtain ⟨⟨name, heq⟩, -⟩ := h s (hc ▸ List.mem_cons_of_mem _ hmem)
      obtain ⟨-, rfl⟩ := List.cons.inj (hc.symm.trans heq)
      simp at hmem
  · rw [hs.app_calls hi ha] at hmem ⊢
    rw [Docs.get, hs.docs_set ho ha]
    exact h s hmem

omit [DecidableEq P] in
/-- A transaction is on a document there is. -/
theorem commits_lt {σ : DocId → Scope} (h : m.Named σ) {c : Commit D P}
    (hc : m.commits a = some c) : c.doc < m.docs.next := by
  obtain ⟨_, s, _, _, d, -, -, hd, rfl⟩ | ⟨e, t, r, b, f, _, _, _, -, ht, hp, -, -, rfl⟩ :=
    commits_cases hc
  · exact (h.set s d hd).1
  · refine (h.conn e r.peer.scope r.doc ?_).1
    simp [ht, hp, Phase.doc, Phase.registered]

end Steps

end Manager

/-- A handler opens a document only for a room that it joins. -/
theorem App.handle_opens (app : App) (docs : DocsView) (sync : SyncView) (env : Env)
    (event : Event P) {command : Command}
    (hc : (app.handle docs sync env event).command = some command) {s : Scope}
    (hmem : .docsGetOrCreate s ∈ command.calls) : ∃ name, app.config.hasRoom name = false ∧
      s = .room name ∧ command.calls = [.docsGetOrCreate s, .joinRoom name] := by
  have hr := app.handle_reacts docs sync env event
  generalize app.handle docs sync env event = r at hr hc
  cases hr with
  | @joined raw name hs hn =>
    cases hc
    have hcalls : (Command.appJoinRoom raw).calls =
        [.docsGetOrCreate (.room name), .joinRoom name] := by simp only [Command.calls, hs]
    rw [hcalls] at hmem ⊢
    obtain rfl : s = .room name := by simpa using hmem
    exact ⟨name, hn, rfl, rfl⟩
  | left hs hn =>
    cases hc
    simp [Command.calls, hs] at hmem
  | _ =>
    cases hc
    try simp [Command.calls] at hmem

/-- A forwarder hears of the transactions on its document. -/
theorem Forwarder.hear_faithful (f : Forwarder P) (c : Manager.Commit D P)
    {sent : List (DocUpdate P)} {heard : List (Received (DocUpdate P))}
    (h : Receiver.Faithful sent heard f.updates) :
    Receiver.Faithful (sent ++ (c.updateOf f.doc).toList) heard (f.hear c).updates := by
  unfold Forwarder.hear Manager.Commit.updateOf
  cases c.update with
  | none => simpa using h
  | some u =>
    by_cases hd : f.doc = c.doc
    · simp only [hd, if_true, Option.map_some, Option.toList_some]
      exact h.send (by decide) _
    · simpa [hd, Ne.symm hd] using h

namespace Backend

/-- The update of a document that a step publishes. -/
def publishes [Yrs D P] (d : DocId) (t : Transition (Backend D P) (Act P)) :
    Option (DocUpdate P) :=
  match t.act with
  | .sync a => (t.pre.inst.sync.commits a).bind fun c => c.updateOf d
  | _ => none

/-- The updates of a document in a run. -/
def published [Yrs D P] (d : DocId) (τ : List (Transition (Backend D P) (Act P))) :
    List (DocUpdate P) :=
  τ.filterMap (publishes d)

/-- The event that a step puts into the document channel, and the forwarder it is from. -/
def delivers (t : Transition (Backend D P) (Act P)) : Option (TaskId × DocEvent P) :=
  match t.act with
  | .deliver i => ((t.pre.forwarders i).bind (·.holding)).map fun event => (i, event)
  | _ => none

/-- What has been put into the document channel in a run. -/
def delivered (τ : List (Transition (Backend D P) (Act P))) : List (TaskId × DocEvent P) :=
  τ.filterMap delivers

/-- What one forwarder has. -/
def deliveredBy (i : TaskId) (τ : List (Transition (Backend D P) (Act P))) : List (DocEvent P) :=
  (delivered τ).filterMap fun e => if e.1 = i then some e.2 else none

/-- The event that a step puts into the document channel for a document. -/
def deliversOf (d : DocId) (t : Transition (Backend D P) (Act P)) : Option (DocEvent P) :=
  match t.act with
  | .deliver i => (t.pre.forwarders i).bind fun f => if f.doc = d then f.holding else none
  | _ => none

/-- What has been put into the document channel for a document, by whatever forwarder. -/
def deliveredOf (d : DocId) (τ : List (Transition (Backend D P) (Act P))) : List (DocEvent P) :=
  τ.filterMap (deliversOf d)

/-- The event that a handler takes off the document channel. -/
def Act.takes : Act P → Option (DocEvent P)
  | .handle _ (.docUpdate scope u) => some (.update scope u)
  | .handle _ .docLagged => some .lagged
  | _ => none

/-- What the loop has taken off the document channel. -/
def taken (τ : List (Transition (Backend D P) (Act P))) : List (DocEvent P) :=
  τ.filterMap (·.act.takes)

/-- What a forwarder has delivered or holds is what it has received. -/
def Follows [Yrs D P] (τ : List (Transition (Backend D P) (Act P))) (i : TaskId)
    (f : Forwarder P) : Prop :=
  ∃ heard, Receiver.Faithful (published f.doc τ) heard f.updates ∧
    deliveredBy i τ ++ f.holding.toList = heard.map (.ofReceived f.scope)

/-- What a run says of the updates on their way to the loop. -/
structure Forwarded [Yrs D P] (τ : List (Transition (Backend D P) (Act P)))
    (b : Backend D P) : Prop where
  order : taken τ ++ b.docEvents = (delivered τ).map (·.2)
  room : b.docEvents.length ≤ docEventQueue
  /-- A document that does not exist yet has had no update. -/
  unborn : ∀ d, b.inst.sync.docs.next ≤ d → published d τ = []
  unspawned : ∀ i, b.spawned ≤ i → b.forwarders i = none ∧ deliveredBy i τ = []
  each : ∀ i f, b.forwarders i = some f → Follows τ i f

section Append

variable [Yrs D P] {τ : List (Transition (Backend D P) (Act P))} {b b' : Backend D P}
  {a : Act P}

omit [Yrs D P] in
theorem taken_append (t : Transition (Backend D P) (Act P)) :
    taken (τ ++ [t]) = taken τ ++ t.act.takes.toList := by
  rw [taken, List.filterMap_append, taken]
  cases h : t.act.takes <;> simp [h]

omit [Yrs D P] in
theorem delivered_append (t : Transition (Backend D P) (Act P)) :
    delivered (τ ++ [t]) = delivered τ ++ (delivers t).toList := by
  rw [delivered, List.filterMap_append, delivered]
  cases h : delivers t <;> simp [h]

theorem published_append (d : DocId) (t : Transition (Backend D P) (Act P)) :
    published d (τ ++ [t]) = published d τ ++ (publishes d t).toList := by
  rw [published, List.filterMap_append, published]
  cases h : publishes d t <;> simp [h]

theorem publishes_of_ne {d : DocId} {t : Transition (Backend D P) (Act P)}
    (h : ∀ a, t.act ≠ .sync a) : publishes d t = none := by
  unfold publishes
  split
  · exact absurd ‹_› (h _)
  · rfl

omit [Yrs D P] in
theorem deliveredBy_append (i : TaskId) (t : Transition (Backend D P) (Act P)) :
    deliveredBy i (τ ++ [t]) = deliveredBy i τ ++
      ((delivers t).bind fun e => if e.1 = i then some e.2 else none).toList := by
  rw [deliveredBy, delivered_append, List.filterMap_append, deliveredBy]
  cases delivers t with
  | none => rfl
  | some e => by_cases he : e.1 = i <;> simp [he]

omit [Yrs D P] in
theorem delivers_of_ne {t : Transition (Backend D P) (Act P)} (h : ∀ i, t.act ≠ .deliver i) :
    delivers t = none := by
  unfold delivers
  split
  · exact absurd ‹_› (h _)
  · rfl

/-- A step that neither publishes nor delivers leaves a forwarder as far as it is. -/
theorem Follows.keep {t : Transition (Backend D P) (Act P)} {i : TaskId} {f f' : Forwarder P}
    (h : Follows τ i f) (hp : publishes f.doc t = none)
    (hd : ((delivers t).bind fun e => if e.1 = i then some e.2 else none) = none)
    (hf : f'.scope = f.scope ∧ f'.doc = f.doc ∧ f'.updates = f.updates ∧ f'.holding = f.holding) :
    Follows (τ ++ [t]) i f' := by
  obtain ⟨heard, hfaithful, hsent⟩ := h
  obtain ⟨hscope, hdoc, hupdates, hholding⟩ := hf
  refine ⟨heard, ?_, ?_⟩
  · rw [hdoc, hupdates, published_append, hp]
    simpa using hfaithful
  · rw [hscope, hholding, deliveredBy_append, hd]
    simpa using hsent

/-- A step of the loop or of a forwarder that delivers nothing. -/
theorem Forwarded.keep (h : Forwarded τ b) (ha : ∀ a', a ≠ .sync a') (hd : ∀ i, a ≠ .deliver i)
    (hn : b'.inst.sync.docs.next = b.inst.sync.docs.next) (hs : b'.spawned = b.spawned)
    (hevents : a.takes.toList ++ b'.docEvents = b.docEvents)
    (hf : ∀ i f', b'.forwarders i = some f' → ∃ f, b.forwarders i = some f ∧
      (Follows (τ ++ [⟨b, a, b'⟩]) i f → Follows (τ ++ [⟨b, a, b'⟩]) i f')) :
    Forwarded (τ ++ [⟨b, a, b'⟩]) b' := by
  have hpub (d : DocId) : publishes d ⟨b, a, b'⟩ = none := publishes_of_ne ha
  have hdel : delivers ⟨b, a, b'⟩ = none := delivers_of_ne hd
  have hby (i : TaskId) : deliveredBy i (τ ++ [⟨b, a, b'⟩]) = deliveredBy i τ := by
    simp [deliveredBy_append, hdel]
  refine ⟨?_, ?_, fun d hle => ?_, fun i hi => ⟨?_, ?_⟩, fun i f' hi => ?_⟩
  · rw [taken_append, List.append_assoc, hevents, h.order, delivered_append, hdel]
    simp
  · have hroom := h.room
    rw [← hevents, List.length_append] at hroom
    omega
  · rw [published_append, hpub, h.unborn d (hn ▸ hle)]
    rfl
  · have hnone := (h.unspawned i (hs ▸ hi)).1
    cases hf' : b'.forwarders i with
    | none => rfl
    | some f' =>
      obtain ⟨f, hsome, -⟩ := hf i f' hf'
      rw [hnone] at hsome
      cases hsome
  · rw [hby]
    exact (h.unspawned i (hs ▸ hi)).2
  · obtain ⟨f, hsome, hfollows⟩ := hf i f' hi
    exact hfollows ((h.each i f hsome).keep (hpub _) (by rw [hdel]; rfl) ⟨rfl, rfl, rfl, rfl⟩)

/-- Rewiring spawns a forwarder for a document that is opened, and changes no other. -/
theorem rewire_forwarders (b : Backend D P) (c : Option Call) {j : TaskId} {g : Forwarder P}
    (h : (b.rewire c).forwarders j = some g) :
    (∃ f, b.forwarders j = some f ∧ g.scope = f.scope ∧ g.doc = f.doc ∧ g.updates = f.updates ∧
      g.holding = f.holding) ∨
    ∃ s, c = some (.docsGetOrCreate s) ∧ j = b.spawned ∧
      g = .spawn s (b.inst.sync.docs.getOrCreate s).2 := by
  unfold rewire at h
  split at h
  · next s =>
    simp only [wire, Function.update_apply] at h
    split at h
    · cases h
      exact .inr ⟨s, rfl, ‹_›, rfl⟩
    · exact .inl ⟨g, h, rfl, rfl, rfl, rfl⟩
  · unfold unwire at h
    split at h
    · obtain ⟨f, hf, rfl⟩ := Option.map_eq_some_iff.mp h
      refine .inl ⟨f, hf, ?_⟩
      split <;> exact ⟨rfl, rfl, rfl, rfl⟩
    · exact .inl ⟨g, h, rfl, rfl, rfl, rfl⟩
  · exact .inl ⟨g, h, rfl, rfl, rfl, rfl⟩

theorem rewire_spawned (b : Backend D P) (c : Option Call) :
    b.spawned ≤ (b.rewire c).spawned ∧
      ∀ s, c = some (.docsGetOrCreate s) → (b.rewire c).spawned = b.spawned + 1 := by
  unfold rewire
  split
  · exact ⟨Nat.le_succ _, fun _ _ => rfl⟩
  · refine ⟨?_, by simp⟩
    unfold unwire
    split <;> exact le_rfl
  · refine ⟨le_rfl, fun s hs => ?_⟩
    subst hs
    simp at *

omit [Yrs D P] in
theorem hear_forwarders (b : Backend D P) (c : Option (Manager.Commit D P)) {j : TaskId}
    {g : Forwarder P} (h : (b.hear c).forwarders j = some g) :
    ∃ f, b.forwarders j = some f ∧ g = c.elim f f.hear := by
  cases c with
  | none => exact ⟨g, h, rfl⟩
  | some c =>
    obtain ⟨f, hf, rfl⟩ := Option.map_eq_some_iff.mp h
    exact ⟨f, hf, rfl⟩

end Append

section Steps

variable [Yrs D P] [Entries D] [DecidableEq P] {τ : List (Transition (Backend D P) (Act P))}
  {b b' : Backend D P} {a : Act P}

omit [Entries D] [DecidableEq P] in
/-- A forwarder after a step of the manager is one from before, or was spawned in it. -/
theorem sync_forwarders {a : Action P} (inst : Instance D P) {j : TaskId} {g : Forwarder P}
    (hg : ({ (b.hear (b.inst.sync.commits a)).rewire (appCall b.inst.sync a) with inst } :
      Backend D P).forwarders j = some g) :
    (∃ f, b.forwarders j = some f ∧ g.scope = f.scope ∧ g.doc = f.doc ∧
      g.updates = ((b.inst.sync.commits a).elim f f.hear).updates ∧ g.holding = f.holding) ∨
    ∃ s, appCall b.inst.sync a = some (.docsGetOrCreate s) ∧ j = b.spawned ∧
      g = .spawn s (b.inst.sync.docs.getOrCreate s).2 := by
  obtain ⟨f', hf', hscope, hdoc, hupdates, hholding⟩ | ⟨s, hc, hj, hg⟩ := rewire_forwarders _ _ hg
  · obtain ⟨f, hf, rfl⟩ := hear_forwarders b _ hf'
    have hfields : ((b.inst.sync.commits a).elim f f.hear).scope = f.scope ∧
        ((b.inst.sync.commits a).elim f f.hear).doc = f.doc ∧
        ((b.inst.sync.commits a).elim f f.hear).holding = f.holding := by
      cases b.inst.sync.commits a with
      | none => exact ⟨rfl, rfl, rfl⟩
      | some c =>
        obtain ⟨hs, hd, -, hh⟩ := f.hear_fields c
        exact ⟨hs, hd, hh⟩
    exact .inl ⟨f, hf, hscope.trans hfields.1, hdoc.trans hfields.2.1, hupdates,
      hholding.trans hfields.2.2⟩
  · rw [hear_spawned] at hj
    rw [hear_inst] at hg
    exact .inr ⟨s, hc, hj, hg⟩

omit [Entries D] [DecidableEq P] in
/-- The loop opens a document that is new. -/
theorem appCall_opens {m : Manager D P} {a : Action P} {s : Scope} (h : m.OpensNew)
    (hc : appCall m a = some (.docsGetOrCreate s)) :
    m.docs.get s = none ∧ (m.docs.getOrCreate s).2 = m.docs.next := by
  have hmem : .docsGetOrCreate s ∈ m.calls (.caller 0) := by
    unfold appCall at hc
    split at hc
    · exact List.mem_of_head? hc
    · cases hc
  obtain ⟨-, hnone⟩ := h s hmem
  exact ⟨hnone, Docs.getOrCreate_of_none hnone⟩

omit [Entries D] in
/-- The tasks of the manager publish, and the loop opens and closes documents. -/
theorem Forwarded.sync (h : Forwarded τ b) {σ : DocId → Scope} (hσ : b.inst.sync.Named σ)
    (hopens : b.inst.sync.OpensNew) {a : Action P} {m : Manager D P} (hs : b.inst.sync.Step a m)
    (hb : b' = { (b.hear (b.inst.sync.commits a)).rewire (appCall b.inst.sync a) with
      inst := { b.inst with sync := m } }) :
    Forwarded (τ ++ [⟨b, .sync a, b'⟩]) b' := by
  have hpub (d : DocId) : publishes d ⟨b, .sync a, b'⟩ =
      (b.inst.sync.commits a).bind fun c => c.updateOf d := rfl
  have hby (i : TaskId) : deliveredBy i (τ ++ [⟨b, .sync a, b'⟩]) = deliveredBy i τ := by
    simp [deliveredBy_append, delivers]
  have hunborn (d : DocId) (hd : b.inst.sync.docs.next ≤ d) :
      published d (τ ++ [⟨b, .sync a, b'⟩]) = [] := by
    rw [published_append, h.unborn d hd, hpub]
    cases hc : b.inst.sync.commits a with
    | none => rfl
    | some c =>
      have hlt := Manager.commits_lt hσ hc
      have hne : c.doc ≠ d := by
        rintro rfl
        exact absurd hlt (Nat.not_lt.mpr hd)
      simp [Manager.Commit.updateOf, hne]
  obtain ⟨hspawned, hnew⟩ := (b.hear (b.inst.sync.commits a)).rewire_spawned
    (appCall b.inst.sync a)
  rw [hear_spawned] at hspawned hnew
  have hforwarders {j : TaskId} {g : Forwarder P} (hg : b'.forwarders j = some g) :=
    sync_forwarders { b.inst with sync := m } (hb ▸ hg)
  have hevents : b'.docEvents = b.docEvents := by
    rw [hb]
    simp
  refine ⟨?_, hevents ▸ h.room, fun d hd => hunborn d ?_, fun i hi => ⟨?_, ?_⟩,
    fun i g hg => ?_⟩
  · rw [hevents, taken_append, delivered_append]
    simpa [delivers, Act.takes] using h.order
  · rw [hb] at hd
    exact hs.next_le.trans hd
  · have hi' : (((b.hear (b.inst.sync.commits a)).rewire (appCall b.inst.sync a))).spawned ≤ i := by
      rw [hb] at hi
      exact hi
    cases hg : b'.forwarders i with
    | none => rfl
    | some g =>
      obtain ⟨f, hf, -⟩ | ⟨s, hc, rfl, -⟩ := hforwarders hg
      · rw [(h.unspawned i (hspawned.trans hi')).1] at hf
        cases hf
      · rw [hnew s hc] at hi'
        exact absurd hi' (Nat.not_succ_le_self _)
  · rw [hby]
    refine (h.unspawned i (hspawned.trans ?_)).2
    rw [hb] at hi
    exact hi
  · obtain ⟨f, hf, hscope, hdoc, hupdates, hholding⟩ | ⟨s, hc, rfl, rfl⟩ := hforwarders hg
    · obtain ⟨heard, hfaithful, hsent⟩ := h.each i f hf
      refine ⟨heard, ?_, by rw [hby, hscope, hholding, hsent]⟩
      rw [hdoc, hupdates, published_append, hpub]
      cases b.inst.sync.commits a with
      | none => simpa using hfaithful
      | some c => exact f.hear_faithful c hfaithful
    · -- The document is a new one.
      obtain ⟨-, hdoc⟩ := appCall_opens hopens hc
      refine ⟨[], ?_, ?_⟩
      · have hnil := hunborn (b.inst.sync.docs.getOrCreate s).2 hdoc.ge
        simp only [Forwarder.spawn, hnil]
        exact Receiver.faithful_subscribed
      · rw [hby, (h.unspawned b.spawned le_rfl).2]
        rfl

theorem Forwarded.step (h : Forwarded τ b) {σ : DocId → Scope} (hσ : b.inst.sync.Named σ)
    (hopens : b.inst.sync.OpensNew) (hs : b.Step a b') : Forwarded (τ ++ [⟨b, a, b'⟩]) b' := by
  cases hs with
  | @handle env event inst hn ho hi =>
    refine h.keep (by simp) (by simp) ?_ rfl ?_ fun i f hf => ⟨f, hf, id⟩
    · cases Instance.step_cases hi with
      | handle => cases (b.inst.react env event).command <;> rfl
    · have htail {e : DocEvent P} (he : b.docEvents.head? = some e) :
          e :: b.docEvents.tail = b.docEvents := by
        cases hevents : b.docEvents with
        | nil => simp [hevents] at he
        | cons e' rest =>
          rw [hevents] at he
          cases he
          rfl
      cases event with
      | docUpdate scope u => exact htail ho
      | docLagged => exact htail ho
      | _ => rfl
  | sync hi =>
    cases Instance.step_cases hi with
    | sync _ hm => exact h.sync hσ hopens (Manager.step_cases hm) rfl
  | refresh | notify =>
    exact h.keep (by simp) (by simp) rfl rfl rfl fun i f hf => ⟨f, hf, id⟩
  | @forward i f f' hf hr =>
    refine h.keep (by simp) (by simp) rfl rfl rfl fun j g hg => ?_
    simp only [setForwarder, Function.update_apply] at hg
    split at hg
    · next hj =>
      subst hj
      cases hg
      refine ⟨f, hf, fun ⟨heard, hfaithful, hsent⟩ => ?_⟩
      unfold Forwarder.receive at hr
      split at hr
      · next hnone =>
        obtain ⟨⟨x, updates⟩, hrecv, rfl⟩ := Option.map_eq_some_iff.mp hr
        refine ⟨heard ++ [x], hfaithful.recv hrecv, ?_⟩
        rw [Option.isNone_iff_eq_none.mp hnone] at hsent
        rw [List.map_append, ← hsent]
        simp
      · cases hr
    · exact ⟨g, hg, id⟩
  | @deliver i f event hf hh hroom =>
    have hdel {b' : Backend D P} : delivers ⟨b, .deliver i, b'⟩ = some (i, event) := by
      simp [delivers, hf, hh]
    have hother {b' : Backend D P} {j : TaskId} (hj : j ≠ i) :
        ((delivers ⟨b, .deliver i, b'⟩).bind fun e => if e.1 = j then some e.2 else none) =
          none := by
      rw [hdel]
      simp [Ne.symm hj]
    refine ⟨?_, ?_, fun d hd => ?_, fun j hj => ?_, fun j g hg => ?_⟩
    · rw [taken_append, delivered_append, hdel, List.map_append, ← h.order]
      simp [Act.takes]
    · rw [List.length_append, List.length_singleton]
      omega
    · rw [published_append, publishes_of_ne (by simp), h.unborn d hd]
      rfl
    · obtain ⟨hnone, hnil⟩ := h.unspawned j hj
      have hji : j ≠ i := by
        rintro rfl
        rw [hf] at hnone
        cases hnone
      refine ⟨(Function.update_of_ne hji _ _).trans hnone, ?_⟩
      rw [deliveredBy_append, hother hji, hnil]
      rfl
    · simp only [setForwarder, Function.update_apply] at hg
      split at hg
      · next hj =>
        subst hj
        cases hg
        obtain ⟨heard, hfaithful, hsent⟩ := h.each j f hf
        refine ⟨heard, ?_, ?_⟩
        · rw [published_append, publishes_of_ne (by simp)]
          simpa using hfaithful
        · rw [deliveredBy_append, hdel, ← hsent, hh]
          simp
      · next hj =>
        exact (h.each j g hg).keep (publishes_of_ne (by simp)) (hother hj) ⟨rfl, rfl, rfl, rfl⟩
  | @stop i f hf ha =>
    refine h.keep (by simp) (by simp) rfl rfl rfl fun j g hg => ?_
    simp only [setForwarder, Function.update_apply] at hg
    split at hg
    · cases hg
    · exact ⟨g, hg, id⟩

end Steps

/-- A document has one forwarder at any time, and a scope one that is not aborted. -/
structure Single (τ : List (Transition (Backend D P) (Act P))) (b : Backend D P) : Prop where
  live : ∀ i f, b.forwarders i = some f → f.aborted = false → b.handles f.scope = some i
  born : ∀ i f, b.forwarders i = some f → f.doc < b.inst.sync.docs.next
  unique : ∀ i j f g, b.forwarders i = some f → b.forwarders j = some g → f.doc = g.doc → i = j
  /-- Nothing has been delivered for a document that does not exist yet. -/
  unsent : ∀ d, b.inst.sync.docs.next ≤ d → deliveredOf d τ = []
  whole : ∀ i f, b.forwarders i = some f → deliveredOf f.doc τ = deliveredBy i τ

section Single

variable {τ : List (Transition (Backend D P) (Act P))} {b b' : Backend D P} {a : Act P}

theorem deliveredOf_append (d : DocId) (t : Transition (Backend D P) (Act P)) :
    deliveredOf d (τ ++ [t]) = deliveredOf d τ ++ (deliversOf d t).toList := by
  rw [deliveredOf, List.filterMap_append, deliveredOf]
  cases h : deliversOf d t <;> simp [h]

/-- What is delivered for the document of a forwarder is delivered by it. -/
theorem Single.deliversOf_eq (h : Single τ b) {i : TaskId} {f : Forwarder P}
    (hf : b.forwarders i = some f) : deliversOf f.doc ⟨b, a, b'⟩ =
      (delivers ⟨b, a, b'⟩).bind fun e => if e.1 = i then some e.2 else none := by
  cases a with
  | deliver j =>
    cases hg : b.forwarders j with
    | none => simp [deliversOf, delivers, hg]
    | some g =>
      by_cases hj : j = i
      · subst hj
        obtain rfl := Option.some.inj (hf.symm.trans hg)
        cases hh : f.holding <;> simp [deliversOf, delivers, hf, hh]
      · have hne : g.doc ≠ f.doc := fun hd => hj (h.unique j i g f hg hf hd)
        cases hh : g.holding <;> simp [deliversOf, delivers, hg, hh, hne, hj]
  | _ => rfl

/-- Every forwarder is one from before, or one for a document that is new. -/
theorem Single.next (h : Single τ b) (hn : b.inst.sync.docs.next ≤ b'.inst.sync.docs.next)
    (hlive : ∀ i f, b'.forwarders i = some f → f.aborted = false → b'.handles f.scope = some i)
    (hf : ∀ i g, b'.forwarders i = some g →
      (∃ f, b.forwarders i = some f ∧ g.doc = f.doc) ∨
        (i = b.spawned ∧ b.inst.sync.docs.next ≤ g.doc ∧ g.doc < b'.inst.sync.docs.next ∧
          deliveredBy i (τ ++ [⟨b, a, b'⟩]) = [])) :
    Single (τ ++ [⟨b, a, b'⟩]) b' := by
  have hunsent (d : DocId) (hd : b.inst.sync.docs.next ≤ d) :
      deliveredOf d (τ ++ [⟨b, a, b'⟩]) = [] := by
    rw [deliveredOf_append, h.unsent d hd]
    cases a with
    | deliver i =>
      cases hg : b.forwarders i with
      | none => simp [deliversOf, hg]
      | some g =>
        have hne : g.doc ≠ d := Nat.ne_of_lt (lt_of_lt_of_le (h.born i g hg) hd)
        simp [deliversOf, hg, hne]
    | _ => rfl
  refine ⟨hlive, fun i g hg => ?_, fun i j f g hfi hgj hd => ?_, fun d hd => ?_,
    fun i g hg => ?_⟩
  · obtain ⟨f, hfi, hdoc⟩ | ⟨-, -, hlt, -⟩ := hf i g hg
    · exact hdoc ▸ lt_of_lt_of_le (h.born i f hfi) hn
    · exact hlt
  · obtain ⟨f', hf', hdoc⟩ | ⟨hi, hnew, -⟩ := hf i f hfi
    · have hold := hdoc ▸ h.born i f' hf'
      obtain ⟨g', hg', hdoc'⟩ | ⟨-, hnew, -⟩ := hf j g hgj
      · exact h.unique i j f' g' hf' hg' (hdoc.symm.trans (hd.trans hdoc'))
      · exact absurd (hd ▸ hnew) (Nat.not_le.mpr hold)
    · obtain ⟨g', hg', hdoc'⟩ | ⟨hj, -⟩ := hf j g hgj
      · have hold := hdoc' ▸ h.born j g' hg'
        exact absurd (hd ▸ hnew) (Nat.not_le.mpr hold)
      · rw [hi, hj]
  · exact hunsent d (hn.trans hd)
  · obtain ⟨f, hfi, hdoc⟩ | ⟨-, hnew, -, hnone⟩ := hf i g hg
    · rw [hdoc, deliveredOf_append, deliveredBy_append, h.whole i f hfi, h.deliversOf_eq hfi]
    · rw [hunsent _ hnew, hnone]

/-- The forwarders are the same, but for their updates. -/
theorem Single.keep (h : Single τ b) (hn : b'.inst.sync.docs.next = b.inst.sync.docs.next)
    (hh : b'.handles = b.handles) (hf : ∀ i g, b'.forwarders i = some g → ∃ f,
      b.forwarders i = some f ∧ g.doc = f.doc ∧ g.scope = f.scope ∧ g.aborted = f.aborted) :
    Single (τ ++ [⟨b, a, b'⟩]) b' := by
  refine h.next hn.ge (fun i g hg hab => ?_) fun i g hg => ?_
  · obtain ⟨f, hfi, -, hscope, hab'⟩ := hf i g hg
    rw [hh, hscope]
    exact h.live i f hfi (hab'.symm.trans hab)
  · obtain ⟨f, hfi, hdoc, -⟩ := hf i g hg
    exact .inl ⟨f, hfi, hdoc⟩

/-- Rewiring aborts a forwarder along with its handle, and spawns one where there is no handle. -/
theorem rewire_live [Yrs D P] {c : Option Call}
    (hlive : ∀ i f, b.forwarders i = some f → f.aborted = false → b.handles f.scope = some i)
    (hnew : ∀ s, c = some (.docsGetOrCreate s) → b.handles s = none) :
    ∀ i f, (b.rewire c).forwarders i = some f → f.aborted = false →
      (b.rewire c).handles f.scope = some i := by
  intro i g hg hab
  unfold rewire at hg ⊢
  split at hg
  · next s =>
    simp only [wire, Function.update_apply] at hg ⊢
    split at hg
    · next hi =>
      cases hg
      simp [Forwarder.spawn, hi]
    · have hold := hlive i g hg hab
      have hne : g.scope ≠ s := by
        intro hs
        rw [hs, hnew s rfl] at hold
        cases hold
      rw [if_neg hne, hold]
  · next name =>
    unfold unwire at hg ⊢
    cases hj : b.handles (.room name) with
    | none =>
      rw [hj] at hg
      exact hlive i g hg hab
    | some j =>
      rw [hj] at hg
      obtain ⟨f, hf, rfl⟩ := Option.map_eq_some_iff.mp hg
      by_cases hij : i = j
      · simp [hij] at hab
      · simp only [if_neg hij] at hab ⊢
        have hold := hlive i f hf hab
        have hne : f.scope ≠ .room name := by
          intro hs
          rw [hs, hj] at hold
          exact hij (Option.some.inj hold).symm
        exact (Function.update_of_ne hne _ _).trans hold
  · exact hlive i g hg hab

variable [Yrs D P] [DecidableEq P]

theorem Single.sync (h : Single τ b) (hf : Forwarded τ b) (hw : b.Wired)
    (hopens : b.inst.sync.OpensNew) {a : Action P} {m : Manager D P} (hs : b.inst.sync.Step a m)
    (hb : b' = { (b.hear (b.inst.sync.commits a)).rewire (appCall b.inst.sync a) with
      inst := { b.inst with sync := m } }) : Single (τ ++ [⟨b, .sync a, b'⟩]) b' := by
  refine h.next (hb ▸ hs.next_le) ?_ fun i g hg => ?_
  · subst hb
    refine rewire_live (fun i g hg hab => ?_) fun s hc => ?_
    · obtain ⟨f, hfi, rfl⟩ := hear_forwarders b _ hg
      rw [hear_handles]
      cases hc : b.inst.sync.commits a with
      | none =>
        rw [hc] at hab
        exact h.live i f hfi hab
      | some c =>
        rw [hc] at hab
        obtain ⟨hscope, -, hab', -⟩ := f.hear_fields c
        exact (congrArg b.handles hscope).trans (h.live i f hfi (hab'.symm.trans hab))
    · -- A scope without a document has no handle.
      rw [hear_handles]
      cases hi : b.handles s with
      | none => rfl
      | some i =>
        obtain ⟨-, f, -, -, -, hdoc⟩ := hw.handle s i hi
        rw [(appCall_opens hopens hc).1] at hdoc
        cases hdoc
  · subst hb
    obtain ⟨f, hfi, -, hdoc, -⟩ | ⟨s, hc, rfl, rfl⟩ := sync_forwarders _ hg
    · exact .inl ⟨f, hfi, hdoc⟩
    · obtain ⟨hnone, hnew⟩ := appCall_opens hopens hc
      refine .inr ⟨rfl, hnew.ge, ?_, ?_⟩
      · -- The step is the call that opens the document.
        have hact : a = .call (.caller 0) := by
          by_contra hne
          rw [appCall_of_ne hne] at hc
          cases hc
        subst hact
        obtain ⟨c, cs, hcs, rfl⟩ := hs.of_call
        obtain rfl : c = .docsGetOrCreate s := by simpa [appCall, hcs] using hc
        obtain ⟨d, hd, -⟩ | ⟨-, -, hnext⟩ := b.inst.sync.docs.getOrCreate_cases s
        · rw [hnone] at hd
          cases hd
        · simp [Forwarder.spawn, Manager.perform, hnew, hnext]
      · rw [deliveredBy_append, (hf.unspawned b.spawned le_rfl).2]
        rfl

variable [Entries D]

theorem Single.step (h : Single τ b) (hf : Forwarded τ b) (hw : b.Wired)
    (hopens : b.inst.sync.OpensNew) (hs : b.Step a b') : Single (τ ++ [⟨b, a, b'⟩]) b' := by
  cases hs with
  | @handle env event inst hn ho hi =>
    refine h.keep ?_ rfl fun i f hf => ⟨f, hf, rfl, rfl, rfl⟩
    cases Instance.step_cases hi with
    | handle => cases (b.inst.react env event).command <;> rfl
  | sync hi =>
    cases Instance.step_cases hi with
    | sync _ hm => exact h.sync hf hw hopens (Manager.step_cases hm) rfl
  | refresh | notify => exact h.keep rfl rfl fun i f hf => ⟨f, hf, rfl, rfl, rfl⟩
  | @forward i f f' hf hr =>
    refine h.keep rfl rfl fun j g hg => ?_
    simp only [setForwarder, Function.update_apply] at hg
    split at hg
    · next hj =>
      cases hg
      unfold Forwarder.receive at hr
      split at hr
      · obtain ⟨x, -, rfl⟩ := Option.map_eq_some_iff.mp hr
        exact ⟨f, hj ▸ hf, rfl, rfl, rfl⟩
      · cases hr
    · exact ⟨g, hg, rfl, rfl, rfl⟩
  | @deliver i f event hf hh hroom =>
    refine h.keep rfl rfl fun j g hg => ?_
    simp only [setForwarder, Function.update_apply] at hg
    split at hg
    · next hj =>
      cases hg
      exact ⟨f, hj ▸ hf, rfl, rfl, rfl⟩
    · exact ⟨g, hg, rfl, rfl, rfl⟩
  | @stop i f hf ha =>
    refine h.keep rfl rfl fun j g hg => ?_
    simp only [setForwarder, Function.update_apply] at hg
    split at hg
    · cases hg
    · exact ⟨g, hg, rfl, rfl, rfl⟩

end Single

section Runs

variable [Yrs D P] [Entries D] [DecidableEq P] {config : Config} {name : String}
  {effective : EffectiveSettings} {clipboardAvailable : Bool}

/-- A room that the loop is about to open a document for has none, as it was not joined. -/
theorem opensNew {i : Instance D P} (h : (Instance.system D P config name effective).Reachable i) :
    i.RoomsSettle ∧ i.sync.OpensNew := by
  refine h.invariant (I := fun i => i.RoomsSettle ∧ i.sync.OpensNew) ?_
    fun i a i' hr hI hs => ?_
  · rintro i rfl
    refine ⟨Instance.start_roomsSettle config name effective, fun s hmem => ?_⟩
    rw [Instance.start_sync, (Manager.new_bare _ _ _).calls] at hmem
    cases hmem
  · obtain ⟨hsettle, hopens⟩ := hI
    have hs := Instance.step_cases hs
    refine ⟨hsettle.step (Instance.Reachable.appOnly hr) hs, ?_⟩
    cases hs with
    | sync ha hm => exact hopens.step (Manager.step_cases hm) ha (Instance.Reachable.appOnly hr)
    | @handle env event hidle hdel =>
      intro s hmem
      cases hc : (i.react env event).command with
      | none =>
        simp only [hc] at hmem ⊢
        exact hopens s hmem
      | some command =>
        simp only [hc, Manager.request, Manager.setCalls_calls, Function.update_self] at hmem ⊢
        obtain ⟨name, hn, rfl, hcalls⟩ := i.app.handle_opens _ _ env event hc hmem
        refine ⟨⟨name, hcalls⟩, ?_⟩
        have hrooms := (hsettle.agree hidle).docs name
        rw [Manager.mem_rooms_iff] at hrooms
        by_contra hsome
        rw [(Config.hasRoom_iff hsettle.rooms.sorted).mpr (hrooms.mp hsome)] at hn
        cases hn

variable {τ : List (Transition (Backend D P) (Act P))} {b : Backend D P}

theorem Run.forwarded (h : (system D P config name effective clipboardAvailable).Run τ b) :
    Forwarded τ b := by
  refine h.history (I := Forwarded) ?_ fun τ b a b' hr hI hs => ?_
  · rintro b rfl
    obtain ⟨he, hs, hf⟩ := start_fresh (D := D) (P := P) config name effective clipboardAvailable
    refine ⟨by rw [he]; rfl, by simp [he], fun _ _ => rfl, fun i hi => ⟨hs i hi, rfl⟩,
      fun i f hi => ?_⟩
    obtain ⟨hupdates, hholding⟩ := hf i f hi
    refine ⟨[], ?_, by rw [hholding]; rfl⟩
    rw [hupdates]
    exact Receiver.faithful_subscribed
  · have hi := Reachable.instance hr.reachable
    obtain ⟨σ, hσ⟩ := Manager.Reachable.named (Instance.Reachable.sync hi)
    exact hI.step hσ (opensNew hi).2 (step_cases hs)

omit [Entries D] [DecidableEq P] in
/-- Wiring up different scopes spawns one forwarder for each. -/
theorem wireAll_handles {scopes : List Scope} (hs : scopes.Nodup) {b : Backend D P}
    (h : ∀ i f, b.forwarders i = some f → b.handles f.scope = some i ∧ f.scope ∉ scopes) :
    ∀ i f, (b.wireAll scopes).forwarders i = some f →
      (b.wireAll scopes).handles f.scope = some i := by
  induction scopes generalizing b with
  | nil => exact fun i f hf => (h i f hf).1
  | cons s scopes ih =>
    obtain ⟨hnot, hnodup⟩ := List.nodup_cons.mp hs
    refine ih hnodup fun i g hg => ?_
    simp only [wire, Function.update_apply] at hg ⊢
    split at hg
    · next hi =>
      cases hg
      exact ⟨by simp [Forwarder.spawn, hi], hnot⟩
    · obtain ⟨hold, hne⟩ := h i g hg
      rw [List.mem_cons, not_or] at hne
      exact ⟨by rw [if_neg hne.1, hold], hne.2⟩

/-- When it starts, every scope has one forwarder. -/
theorem start_single (config : Config) (name : String) (effective : EffectiveSettings)
    (clipboardAvailable : Bool) :
    Single [] (start config name effective clipboardAvailable : Backend D P) := by
  have hlive : ∀ i f, (start config name effective clipboardAvailable : Backend D P).forwarders i =
      some f → (start config name effective clipboardAvailable : Backend D P).handles f.scope =
        some i := by
    refine wireAll_handles (List.nodup_cons.mpr ⟨by simp, List.Nodup.map ?_ ?_⟩) ?_
    · exact fun _ _ => Scope.room.inj
    · exact (sanitizeRooms_roomList config.rooms).sorted.pairwise.imp ne_of_lt
    · intro i f hf
      cases hf
  have hreach : (system D P config name effective clipboardAvailable).Reachable
      (start config name effective clipboardAvailable) := ⟨[], .start rfl⟩
  obtain ⟨σ, hσ⟩ := Manager.Reachable.named (Instance.Reachable.sync (Reachable.instance hreach))
  have hdoc {i : TaskId} {f : Forwarder P}
      (hf : (start config name effective clipboardAvailable : Backend D P).forwarders i = some f) :
      (start config name effective clipboardAvailable : Backend D P).inst.sync.docs.get f.scope =
        some f.doc := by
    obtain ⟨-, g, hg, -, -, hget⟩ := (Reachable.sound hreach).wired.handle _ i (hlive i f hf)
    obtain rfl := Option.some.inj (hf.symm.trans hg)
    exact hget
  refine ⟨fun i f hf _ => hlive i f hf, fun i f hf => (hσ.set _ _ (hdoc hf)).1,
    fun i j f g hf hg hd => ?_, fun _ _ => rfl, fun _ _ _ => rfl⟩
  -- A document belongs to one scope.
  have hscope : f.scope = g.scope :=
    (hσ.set _ _ (hdoc hf)).2.symm.trans (hd ▸ (hσ.set _ _ (hdoc hg)).2)
  have hj := hlive j g hg
  rw [← hscope, hlive i f hf] at hj
  exact Option.some.inj hj

theorem Run.single (h : (system D P config name effective clipboardAvailable).Run τ b) :
    Single τ b := by
  refine h.history (I := Single) ?_ fun τ b a b' hr hI hs => ?_
  · rintro b rfl
    exact start_single config name effective clipboardAvailable
  · have hi := Reachable.instance hr.reachable
    exact hI.step (Run.forwarded hr) (Reachable.sound hr.reachable).wired (opensNew hi).2
      (step_cases hs)

/-- The loop makes its next call. -/
def loopCall : Act EntryLog := .sync (.call (.caller 0))

/-- The user shares a note with the room. -/
def sharing (text : String) : List (Act EntryLog) :=
  [.handle ⟨0, text, true⟩ (.command (.addEntry text (.room "attic"))), loopCall]

/-- A note gets to the loop, which then leaves the room and joins it again. -/
def rejoining : List (Act EntryLog) :=
  sharing "x" ++ [.forward 1, .deliver 1,
    .handle ⟨1, "f", true⟩ (.docUpdate (.room "attic") ⟨[⟨"x", "d", "D", "x", 0⟩], none⟩),
    .refresh true, .notify, .handle ⟨2, "g", true⟩ (.command (.leaveRoom "attic")), loopCall,
    loopCall, loopCall, .refresh true, .notify,
    .handle ⟨3, "h", true⟩ (.command (.joinRoom "attic")), loopCall, loopCall, .refresh true,
    .notify]

/-- More notes than the channel of a document holds, and then the new forwarder gets on. -/
def lagging : List (Act EntryLog) :=
  (List.replicate 129 (sharing "x" ++ sharing "y")).flatten ++
    [.forward 2, .deliver 2, .forward 2, .deliver 2, .forward 2]

end Runs

end Backend

end Yoink
