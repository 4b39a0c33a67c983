import Yoink.Sync.Rooms
import Yoink.Core.GrowSet

/-!
# Revocation

`set_trusted(d, false)` and `leave_room` take the connections they cover out of the registry
and hang each of them up before they return. A connection that sees its hangup starts no
more writes. There are two gaps: `send_or_hangup` looks at the watch before it starts a write and
not again, so a hangup between the two comes too late; and a connection whose hangup somebody
else still owes is covered by neither operation.
-/

namespace Yoink

variable {D P : Type}

/-- An operation that ends what an instance has with some peers. -/
inductive Revocation where
  | distrust (deviceId : DeviceId)
  | leave (name : String)
  deriving DecidableEq, Repr

namespace Revocation

/-- The call of the operation. -/
def call : Revocation → Call
  | .distrust d => .setTrusted d false
  | .leave name => .leaveRoom name

/-- The keys whose connections it ends. -/
def covers : Revocation → ConnKey → Bool
  | .distrust d, key => decide (key = (d, .devices))
  | .leave name, key => decide (key.2 = .room name)

/-- Nobody has trusted the device, or joined the room, again. -/
def inForce : Revocation → State → Bool
  | .distrust d, s => !s.devicesTrusted d
  | .leave name, s => decide (name ∉ s.joined)

variable {v : Revocation} {s : State} {key : ConnKey}

theorem refused (hf : v.inForce s = true) (hc : v.covers key = true) : s.accepts key = false := by
  cases v with
  | distrust d =>
    obtain rfl : key = (d, .devices) := by simpa [covers] using hc
    simpa [inForce, State.accepts] using hf
  | leave name =>
    have hk : key.2 = .room name := by simpa [covers] using hc
    simpa [inForce, State.accepts, hk] using hf

theorem gone (ha : s.accepts key = true) (hc : v.covers key = true) :
    v.call.gone s key = true := by
  cases v with
  | distrust d =>
    obtain rfl : key = (d, .devices) := by simpa [covers] using hc
    simp [call, Call.gone, State.revokedBy, State.devicesTrusted_setTrust_false]
  | leave name =>
    have hk : key.2 = .room name := by simpa [covers] using hc
    have hj : name ∈ s.joined := by simpa [State.accepts, hk] using ha
    simp [call, Call.gone, State.leftBy, hk, hj]

end Revocation

namespace Manager

/-- A caller made the call of `v`, has returned from it, and it has been in force since. -/
def Revoked (v : Revocation) (τ : List (Transition (Manager D P) (Action P))) : Prop :=
  ∃ i τ₁ t τ₂, τ = τ₁ ++ t :: τ₂ ∧ t.act = .call (.caller i) ∧
    (t.pre.calls (.caller i)).head? = some v.call ∧
    (∀ u ∈ t :: τ₂, v.inForce u.post.state = true) ∧
    ∃ u ∈ t :: τ₂, u.post.calls (.caller i) = []

/-- Every connection `v` covers was hung up, or caller `i` is about to hang it up. -/
def Settling (v : Revocation) (i : Nat) (m : Manager D P) : Prop :=
  ∀ e r, m.registered e = some r → v.covers r.key = true →
    m.hungUp e = true ∨ .hangup e ∈ m.calls (.caller i)

/-- Every connection `v` covers was hung up. -/
def Silenced (v : Revocation) (m : Manager D P) : Prop :=
  ∀ e r, m.registered e = some r → v.covers r.key = true → m.hungUp e = true

/-- The section of `v` runs when nobody owes a hangup to a connection it covers. -/
def RevokesSettled (v : Revocation) (m : Manager D P) (a : Action P) : Prop :=
  ∀ t cs, a = .call t → m.calls t = v.call :: cs → ∀ e r, m.registered e = some r →
    v.covers r.key = true → ¬ m.owes (.hangup e)

/-- The frame whose write `e` is about to start: its look at the watch is over. -/
def starts (m : Manager D P) (e : EndId) : Option (Frame P) :=
  match (m.conns e).map ConnTask.phase with
  | some (.starting _ _ f) => f
  | _ => none

/-- A hangup is not signalled to a connection that is about to start a write of content. -/
def HangupsTimely (m : Manager D P) : Action P → Bool
  | .call t =>
    match m.calls t with
    | .hangup e :: _ => (m.starts e).all fun f => !f.isContent
    | _ => true
  | _ => true

section Steps

variable [Yrs D P]

omit [Yrs D P] in
theorem Settling.silenced {m : Manager D P} {v : Revocation} {i : Nat} (h : m.Settling v i)
    (hc : m.calls (.caller i) = []) : m.Silenced v := fun e r hr hv =>
  (h e r hr hv).resolve_right (by simp [hc])

/-- A hangup is never taken back. -/
theorem ConnStep.hungUp_mono {m : Manager D P} {e : EndId} {a : Action P}
    {o o' : Option (ConnTask P)} (h : m.ConnStep e a o o') (hh : o.any (·.hangup) = true) :
    o'.any (·.hangup) = true := by
  cases h with
  | accepted | dialed => cases hh
  | hungUp => rfl
  | moved hc hs => simpa [hs.hangup] using hh
  | _ => exact hh

variable [DecidableEq P] {m m' : Manager D P} {a : Action P} {v : Revocation} {i : Nat}

theorem Step.hungUp_mono (h : m.Step a m') {e : EndId} (hh : m.hungUp e = true) :
    m'.hungUp e = true := (h.connStep e).hungUp_mono hh

/-- While `v` is in force no connection it covers is registered. -/
theorem Step.covered (h : m.Step a m') (hf : v.inForce m.state = true) {e : EndId}
    {r : Registered} (hr : m'.registered e = some r) (hc : v.covers r.key = true) :
    m.registered e = some r := by
  obtain h | ⟨-, ha, -⟩ := (h.connStep e).entering hr
  · exact h
  · simp [Revocation.refused hf hc] at ha

/-- The section of `v` leaves its caller the hangups of all the entries it covers. -/
theorem Settling.of_call (ho : m.Owned) (h : m.Step (.call (.caller i)) m')
    (hc : (m.calls (.caller i)).head? = some v.call)
    (hs : m.RevokesSettled v (.call (.caller i))) : m'.Settling v i := by
  obtain ⟨c, cs, hcs, rfl⟩ := h.of_call
  obtain rfl : c = v.call := by simpa [hcs] using hc
  intro e r hr hv
  rw [registered_call] at hr
  have howes := hs _ cs rfl hcs e r hr hv
  by_cases hh : m.connLeases.holder r.key = some e
  · -- The connection has its entry: the section takes it out.
    obtain ⟨c, hl, rfl⟩ := holder_eq_some.mp hh
    have ha := ho.admitted.connections r.key (by simp [hl])
    have hmem := ((m.perform_releases v.call).hangup c.task).mpr
      ⟨r.key, c, Revocation.gone ha hv, hl, rfl⟩
    exact .inr (by simp [hmem])
  · obtain hh | hh := ho.conns.exact.stopped (by simp [connLeases, hr]) hh
    · exact .inl (h.hungUp_mono hh)
    · exact absurd hh howes

theorem Settling.step (hi : m.Settling v i) (hf : v.inForce m.state = true) (h : m.Step a m') :
    m'.Settling v i := by
  intro e r hr hv
  obtain hh | hc := hi e r (h.covered hf hr hv) hv
  · exact .inl (h.hungUp_mono hh)
  · have hs := h.callStep (.caller i)
    generalize hcs : m.calls (.caller i) = cs at hs hc
    generalize m'.calls (.caller i) = cs' at hs ⊢
    cases hs with
    | idle => exact .inr hc
    | invoked | given => cases hc
    | @made c cs =>
      obtain rfl | hc := List.mem_cons.mp hc
      · obtain ⟨c, cs₁, hcs₁, rfl⟩ := h.of_call
        rw [hcs] at hcs₁
        cases hcs₁
        obtain ⟨t, ht, -⟩ := Option.bind_eq_some_iff.mp (h.covered hf hr hv)
        refine .inl ?_
        rw [hungUp_call (by simp [ht])]
        simp
      · exact .inr (List.mem_append_right _ hc)

theorem Silenced.step (hi : m.Silenced v) (hf : v.inForce m.state = true) (h : m.Step a m') :
    m'.Silenced v := fun e r hr hv =>
  h.hungUp_mono (hi e r (h.covered hf hr hv) hv)

/-- No connection that was hung up is about to start a write of content. -/
def HangupsSeen (m : Manager D P) : Prop :=
  ∀ e f, m.hungUp e = true → m.starts e = some f → f.isContent = false

omit [Yrs D P] [DecidableEq P] in
theorem starts_eq_some {e : EndId} {f : Frame P} : m.starts e = some f ↔
    ∃ t r b, m.conns e = some t ∧ t.phase = .starting r b (some f) := by
  unfold starts
  constructor
  · intro h
    split at h
    · next hp =>
      obtain ⟨t, ht, hp⟩ := Option.map_eq_some_iff.mp hp
      exact ⟨t, _, _, ht, h ▸ hp⟩
    · cases h
  · rintro ⟨t, r, b, ht, hp⟩
    simp [ht, hp]

/-- Whoever gets to the start of a write has just seen no hangup. -/
theorem HangupsSeen.step (hi : m.HangupsSeen) (h : m.Step a m') (ha : m.HangupsTimely a = true) :
    m'.HangupsSeen := by
  intro e f hh hf
  obtain ⟨t', r, b, ht', hp'⟩ := starts_eq_some.mp hf
  replace hh : t'.hangup = true := by simpa [hungUp, ht'] using hh
  have hstep := h.connStep e
  rw [ht'] at hstep
  obtain ⟨t, ht, hp⟩ := hstep.starting hp'
  rw [ht] at hstep
  have hhangup := hstep.hangup
  rcases hp with hp | ⟨rfl, -, hn⟩
  · have hs : m.starts e = some f := starts_eq_some.mpr ⟨t, r, b, ht, hp⟩
    rcases hhangup with heq | ⟨i, cs, rfl, hc⟩
    · exact hi e f (by simpa [hungUp, ht, ← heq] using hh) hs
    · simpa [HangupsTimely, hc, hs] using ha
  · -- The watch has just been looked at.
    rcases hhangup with heq | ⟨i, cs, hact, -⟩
    · rw [heq, hn] at hh
      cases hh
    · cases hact

/-- Content goes out of a registered connection that was not hung up. -/
theorem Step.sends_content (h : m.Step a m') (hi : m.HangupsSeen) {e : EndId} {f : Frame P}
    (hf : a.sends e = some f) (hc : f.isContent = true) :
    m.hungUp e = false ∧ ∃ r, m.registered e = some r := by
  have hn : f.isHello = false := by cases f <;> first | rfl | cases hc
  obtain rfl | ⟨sv, rfl, rfl⟩ := Action.sends_cases hf hn
  · obtain ⟨t, t', ht, -, hl, -⟩ := h.of_conn
    cases hl with
    | leave _ _ _ hn => exact absurd rfl (hn _)
    | abort _ _ _ hn => exact absurd rfl (hn _)
    | @startSend r b _ hp =>
      refine ⟨?_, r, by simp [registered, ht, hp, Phase.registered]⟩
      by_contra hh
      have hs := hi e f (by simpa using hh) (starts_eq_some.mpr ⟨t, r, b, ht, hp⟩)
      rw [hc] at hs
      cases hs
  · cases hc

end Steps

section Runs

variable [Yrs D P] [DecidableEq P] {device : DeviceInfo} {m : Manager D P}
  {τ : List (Transition (Manager D P) (Action P))} {v : Revocation}

theorem Revoked.inForce (h : Revoked v τ) (hr : (system D P device).Run τ m) :
    v.inForce m.state = true := by
  obtain ⟨i, τ₁, t, τ₂, heq, -, -, hf, -⟩ := h
  exact hr.final heq (q := fun m => v.inForce m.state = true) hf

/-- A revocation that has returned has hung up every connection it covers. -/
theorem Run.silenced
    (h : ((system D P device).restrict fun m a _ => m.RevokesSettled v a).Run τ m)
    (hv : Revoked v τ) : m.Silenced v := by
  have hall : ∀ i τ₁ t τ₂, τ = τ₁ ++ t :: τ₂ → t.act = .call (.caller i) →
      (t.pre.calls (.caller i)).head? = some v.call →
      (∀ u ∈ t :: τ₂, v.inForce u.post.state = true) → m.Settling v i ∧
        ((∃ u ∈ t :: τ₂, u.post.calls (.caller i) = []) → m.Silenced v) := by
    refine h.history (I := fun τ m => ∀ i τ₁ t τ₂, τ = τ₁ ++ t :: τ₂ → t.act = .call (.caller i) →
      (t.pre.calls (.caller i)).head? = some v.call →
      (∀ u ∈ t :: τ₂, v.inForce u.post.state = true) → m.Settling v i ∧
        ((∃ u ∈ t :: τ₂, u.post.calls (.caller i) = []) → m.Silenced v)) ?_ ?_
    · intro m _ i τ₁ t τ₂ heq
      simp at heq
    · intro τ m a m' hr hI hs i τ₁ t τ₂ heq hact hcall hf
      have hstep := step_cases hs.1
      obtain ⟨rfl, rfl, rfl⟩ | ⟨τ₃, rfl, rfl⟩ := System.concat_eq_append_cons heq
      · -- The section itself.
        obtain rfl : a = .call (.caller i) := hact
        have hset := Settling.of_call (Reachable.owned hr.of_restrict.reachable) hstep hcall hs.2
        refine ⟨hset, ?_⟩
        rintro ⟨u, hu, hc⟩
        obtain rfl := List.mem_singleton.mp hu
        exact hset.silenced hc
      · rw [← List.cons_append] at hf
        have hf' : ∀ u ∈ t :: τ₃, v.inForce u.post.state = true := fun u hu =>
          hf u (List.mem_append_left _ hu)
        have hm := hr.final rfl (q := fun m => v.inForce m.state = true) hf'
        obtain ⟨hset, hsil⟩ := hI i τ₁ t τ₃ rfl hact hcall hf'
        refine ⟨hset.step hm hstep, ?_⟩
        rintro ⟨u, hu, hc⟩
        rw [← List.cons_append, List.mem_append, List.mem_singleton] at hu
        obtain hu | rfl := hu
        · exact (hsil ⟨u, hu, hc⟩).step hm hstep
        · exact (hset.step hm hstep).silenced hc
  obtain ⟨i, τ₁, t, τ₂, heq, hact, hcall, hf, hret⟩ := hv
  exact (hall i τ₁ t τ₂ heq hact hcall hf).2 hret

omit [Yrs D P] [DecidableEq P] in
/-- A connection that lost its entry and is owed no hangup was hung up. -/
theorem Owned.hungUp_of_removed (ho : m.Owned) {e : EndId} {r : Registered}
    (hr : m.registered e = some r) (hi : m.state.identifies r.key r.generation = false)
    (hn : ∀ t, .hangup e ∉ m.calls t) : m.hungUp e = true := by
  have hh : m.connLeases.holder r.key ≠ some e := fun h => by
    simp [(ho.conns.identifies ho.fresh hr).mpr h] at hi
  obtain h | ⟨t, ht⟩ := ho.conns.exact.stopped (by simp [connLeases, hr]) hh
  · exact h
  · exact absurd ht (hn t)

theorem Reachable.hangupsSeen
    (h : ((system D P device).restrict fun m a _ => m.HangupsTimely a = true).Reachable m) :
    m.HangupsSeen := by
  refine h.invariant (I := HangupsSeen) ?_ ?_
  · rintro m ⟨trust, rooms, rfl⟩ e f hh
    simp [hungUp, (new_bare device trust rooms).conns] at hh
  · intro m a m' _ hI hs
    exact hI.step (step_cases hs.1) hs.2

/-- Silence. As long as no hangup comes between the look at the watch and the write, a connection
whose removal is complete reveals nothing more. If a revocation, besides, runs only when nobody
owes a hangup to what it covers, then nothing is revealed from its return on. -/
theorem revoked_reveals_nothing :
    (((system D P device).restrict fun m a _ => m.HangupsTimely a = true).Run τ m →
      ∀ τ₁ t τ₂ e r, τ = τ₁ ++ t :: τ₂ → t.pre.registered e = some r →
        t.pre.state.identifies r.key r.generation = false → (∀ i, .hangup e ∉ t.pre.calls i) →
        ∀ u ∈ t :: τ₂, ∀ f, u.act.sends e = some f → f.isContent = false) ∧
    ∀ v : Revocation, ((system D P device).restrict fun m a _ =>
        m.HangupsTimely a = true ∧ m.RevokesSettled v a).Run τ m →
      ∀ τ₁ t τ₂, τ = τ₁ ++ t :: τ₂ → Revoked v τ₁ →
        ∀ e r f, t.pre.registered e = some r → v.covers r.key = true →
          t.act.sends e = some f → f.isContent = false := by
  refine ⟨fun h τ₁ t τ₂ e r heq hr hi hn u hu f hf => ?_,
    fun v h τ₁ t τ₂ heq hv e r f hr hc hf => ?_⟩
  · have hcut := (h.of_restrict.split heq).1
    have hh := (Reachable.owned hcut.reachable).hungUp_of_removed hr hi hn
    have hpre := (h.of_restrict.stable (q := fun m => m.hungUp e = true)
      (fun _ _ _ hs => (step_cases hs).hungUp_mono) heq hh).1 u hu
    obtain ⟨τ₃, τ₄, hu⟩ := List.append_of_mem hu
    have heq' : τ = (τ₁ ++ τ₃) ++ u :: τ₄ := by rw [heq, hu, List.append_assoc]
    obtain ⟨hrun, hs⟩ := h.split heq'
    by_contra hcont
    have hsends := (step_cases hs.1).sends_content (Reachable.hangupsSeen hrun.reachable) hf
      (by simpa using hcont)
    simp [hsends.1] at hpre
  · obtain ⟨hrun, hs⟩ := h.split heq
    have hsettled := hrun.of_restrict.to_restrict (C := fun m a _ => m.RevokesSettled v a)
      fun u hu => (hrun.restricted u hu).2
    have htimely := hrun.of_restrict.to_restrict (C := fun m a _ => m.HangupsTimely a = true)
      fun u hu => (hrun.restricted u hu).1
    have hh := Run.silenced hsettled hv e r hr hc
    by_contra hcont
    have hsends := (step_cases hs.1).sends_content (Reachable.hangupsSeen htimely.reachable) hf
      (by simpa using hcont)
    simp [hsends.1] at hh

omit [Yrs D P] [DecidableEq P] in
/-- `Revoked`, at the place in the history where the call is. -/
theorem Revoked.at (i j : Nat) (hcall : (τ[j]?).any (fun t =>
      decide ((t.pre.calls (.caller i)).head? = some v.call) &&
        (match t.act with | .call t' => decide (t' = .caller i) | _ => false)) = true)
    (hf : (τ.drop j).all (fun u => v.inForce u.post.state) = true)
    (hret : (τ.drop j).any (fun u => decide (u.post.calls (.caller i) = [])) = true) :
    Revoked v τ := by
  simp only [Option.any_eq_true, Bool.and_eq_true, decide_eq_true_eq] at hcall
  obtain ⟨t, ht, hhead, hact⟩ := hcall
  obtain ⟨hj, rfl⟩ := List.getElem?_eq_some_iff.mp ht
  have hdrop : τ.drop j = τ[j] :: τ.drop (j + 1) := List.drop_eq_getElem_cons hj
  rw [hdrop] at hf hret
  refine ⟨i, τ.take j, τ[j], τ.drop (j + 1), by rw [← hdrop, List.take_append_drop], ?_, hhead,
    by simpa only [List.all_eq_true] using hf,
    by simpa only [List.any_eq_true, decide_eq_true_eq] using hret⟩
  split at hact
  · rw [‹τ[j].act = _›, of_decide_eq_true hact]
  · cases hact

/-- An inbound connection of the device "b", up to its first frame. -/
def enters (e : EndId) : List (Action GrowSet) :=
  [.handleInbound e, .conn e (.recv (.frame (some (.hello ⟨"b", "B", 2, .devices⟩)))),
    .conn e (.sendHello ⟨"a", "A", 2, .devices⟩), .fetchDoc e, .register e]

/-- It has taken the SYNC_STEP_1 of "b" and is about to answer with an entry. -/
def answering (e : EndId) : List (Action GrowSet) :=
  [.invoke 0 (.addEntry .devices ⟨"id", "a", "A", "secret", 7⟩), .call (.caller 0)] ++
    enters e ++ [.sendStep1 e {7}, .conn e (.step1Sent true),
      .conn e (.recv (.frame (some (.syncStep1 ∅)))), .handleFrame e, .tryAnnounce e]

/-- The new connection of "b" has taken over but not yet hung the old one up when "b" is
distrusted; the old connection goes on to send an entry after `set_trusted` has returned. -/
theorem displaced_reveals_content :
    ∃ (τ : List (Transition (Manager GrowSet GrowSet) (Action GrowSet)))
      (m m' : Manager GrowSet GrowSet) (e : EndId) (r : Registered) (u : GrowSet),
      (system GrowSet GrowSet ⟨"a", "A"⟩).Run τ m ∧ Revoked (.distrust "b") τ ∧
        m.registered e = some r ∧ r.key = ("b", .devices) ∧
        m.step (.conn e (.startSend (some (.syncStep2 u)))) = some m' ∧ 7 ∈ u := by
  let e : EndId := ⟨0, false⟩
  let e' : EndId := ⟨1, false⟩
  let start : Manager GrowSet GrowSet := .new ⟨"a", "A"⟩ ⟨false, ∅, ∅⟩ []
  let acts : List (Action GrowSet) := answering e ++
    enters e' ++ [.invoke 0 (.setTrusted "b" false), .call (.caller 0), .call (.caller 0),
      .call (.caller 0), .conn e .sendAllowed]
  obtain ⟨m, hm, hp⟩ := System.exists_of_exec
    (show (System.exec Manager.step start acts).any (fun m =>
      ((m.registered e).any fun r => decide (r.key = ("b", .devices))) &&
        (m.step (.conn e (.startSend (some (.syncStep2 {7}))))).isSome) = true by decide +kernel)
  simp only [Bool.and_eq_true, Option.any_eq_true, decide_eq_true_eq] at hp
  obtain ⟨⟨r, hr, hk⟩, hs⟩ := hp
  obtain ⟨m', hm'⟩ := Option.isSome_iff_exists.mp hs
  have hrev : Revoked (.distrust "b") (System.trace Manager.step start acts) :=
    .at 0 18 (by decide +kernel) (by decide +kernel) (by decide +kernel)
  exact ⟨_, m, m', e, r, {7}, run_of_exec hm, hrev, hr, hk, hm', by decide⟩

/-- The only connection of "b" has looked at its watch when "b" is distrusted. It is taken out and
hung up, `set_trusted` returns, and then the connection starts to send the entry. -/
theorem polled_reveals_content :
    ∃ (τ : List (Transition (Manager GrowSet GrowSet) (Action GrowSet)))
      (m m' : Manager GrowSet GrowSet) (e : EndId) (r : Registered) (u : GrowSet),
      (system GrowSet GrowSet ⟨"a", "A"⟩).Run τ m ∧ Revoked (.distrust "b") τ ∧
        m.registered e = some r ∧ r.key = ("b", .devices) ∧
        m.state.identifies r.key r.generation = false ∧ m.hungUp e = true ∧
        (∀ i, .hangup e ∉ m.calls i) ∧
        m.step (.conn e (.startSend (some (.syncStep2 u)))) = some m' ∧ 7 ∈ u := by
  let e : EndId := ⟨0, false⟩
  let start : Manager GrowSet GrowSet := .new ⟨"a", "A"⟩ ⟨false, ∅, ∅⟩ []
  let acts : List (Action GrowSet) := answering e ++ [.conn e .sendAllowed,
    .invoke 0 (.setTrusted "b" false), .call (.caller 0), .call (.caller 0), .call (.caller 0)]
  let τ := System.trace Manager.step start acts
  obtain ⟨m, hm, hp⟩ := System.exists_of_exec
    (show (System.exec Manager.step start acts).any (fun m =>
      ((m.registered e).any fun r =>
          decide (r.key = ("b", .devices)) && !m.state.identifies r.key r.generation) &&
        m.hungUp e && ((τ.filterMap (·.act.thread)).all fun t => decide (m.calls t = [])) &&
        (m.step (.conn e (.startSend (some (.syncStep2 {7}))))).isSome) = true by decide +kernel)
  simp only [Bool.and_eq_true, Option.any_eq_true, decide_eq_true_eq, Bool.not_eq_true',
    List.all_eq_true] at hp
  obtain ⟨⟨⟨⟨r, hr, hk, hi⟩, hh⟩, hidle⟩, hs⟩ := hp
  obtain ⟨m', hm'⟩ := Option.isSome_iff_exists.mp hs
  have hrev : Revoked (.distrust "b") τ :=
    .at 0 14 (by decide +kernel) (by decide +kernel) (by decide +kernel)
  refine ⟨τ, m, m', e, r, {7}, run_of_exec hm, hrev, hr, hk, hi, hh, fun i => ?_, hm', by decide⟩
  rw [Run.idle (run_of_exec hm) (List.append_nil _).symm hidle i]
  exact List.not_mem_nil

/-- Both gaps let an entry out: after a removal is complete, and after `set_trusted` has returned
without having seen the connection. -/
theorem revoked_reveals_content :
    (∃ (τ : List (Transition (Manager GrowSet GrowSet) (Action GrowSet)))
      (m m' : Manager GrowSet GrowSet) (e : EndId) (r : Registered) (u : GrowSet),
      (system GrowSet GrowSet ⟨"a", "A"⟩).Run τ m ∧ Revoked (.distrust "b") τ ∧
        m.registered e = some r ∧ r.key = ("b", .devices) ∧
        m.state.identifies r.key r.generation = false ∧ m.hungUp e = true ∧
        (∀ i, .hangup e ∉ m.calls i) ∧
        m.step (.conn e (.startSend (some (.syncStep2 u)))) = some m' ∧ 7 ∈ u) ∧
    ∃ (τ : List (Transition (Manager GrowSet GrowSet) (Action GrowSet)))
      (m m' : Manager GrowSet GrowSet) (e : EndId) (r : Registered) (u : GrowSet),
      (system GrowSet GrowSet ⟨"a", "A"⟩).Run τ m ∧ Revoked (.distrust "b") τ ∧
        m.registered e = some r ∧ r.key = ("b", .devices) ∧
        m.step (.conn e (.startSend (some (.syncStep2 u)))) = some m' ∧ 7 ∈ u :=
  ⟨polled_reveals_content, displaced_reveals_content⟩

/-- If the step is a call, it runs an effect that is owed. -/
def runsEffect (m : Manager D P) : Action P → Bool
  | .call t => (m.calls t).head?.any (·.isEffect)
  | _ => true

/-- In the runs in which an operation is called only while no thread owes an effect, a revocation
finds no hangup owed. -/
theorem Run.revokesSettled (h : (system D P device).Run τ m) (hall : τ.all (fun u =>
      (τ.filterMap (·.act.thread)).all fun t =>
        (u.pre.calls t).all (!·.isEffect) || u.pre.runsEffect u.act) = true) :
    ∀ v, ∀ u ∈ τ, u.pre.RevokesSettled v u.act := by
  intro v u hu t cs hact hcs e r _ _ howes
  obtain ⟨t', ht'⟩ := howes
  obtain ⟨τ₁, τ₂, heq⟩ := List.append_of_mem hu
  have hbusy := Run.busy (h.split heq).1 (List.ne_nil_of_mem ht')
  have hmem : t' ∈ τ.filterMap (·.act.thread) := by
    rw [heq, List.filterMap_append]
    exact List.mem_append_left _ hbusy
  have h := List.all_eq_true.mp (List.all_eq_true.mp hall u hu) t' hmem
  have hv : v.call.isEffect = false := by cases v <;> rfl
  simp only [hact, runsEffect, hcs, List.head?_cons, Option.any_some, hv, Bool.or_false,
    List.all_eq_true] at h
  simpa [Call.isEffect] using h _ ht'

/-- The device "b" is distrusted while a fan-out is about to queue an entry for it. The queue takes
the entry and the connection takes it off the queue, but does not write it. -/
theorem revoked_reveals_nothing_distrusted :
    ∃ (τ : List (Transition (Manager GrowSet GrowSet) (Action GrowSet)))
      (m : Manager GrowSet GrowSet) (e : EndId) (t : ConnTask GrowSet) (r : Registered),
      (system GrowSet GrowSet ⟨"a", "A"⟩).Run τ m ∧ Revoked (.distrust "b") τ ∧
        m.conns e = some t ∧ t.phase = .sendOrHangup r true (some (.update {7})) ∧
        r.key = ("b", .devices) ∧ ∀ f : Frame GrowSet, f.isContent = true →
          m.step (.conn e (.startSend (some f))) = none := by
  let e : EndId := ⟨0, false⟩
  let start : Manager GrowSet GrowSet := .new ⟨"a", "A"⟩ ⟨false, ∅, ∅⟩ []
  let acts : List (Action GrowSet) := enters e ++ [.sendStep1 e ∅, .conn e (.step1Sent true),
    .conn e (.recv (.frame (some (.syncStep1 ∅)))), .handleFrame e, .tryAnnounce e,
    .conn e .sendAllowed, .conn e (.startSend (some (.syncStep2 ∅))), .conn e (.sent true),
    .invoke 0 (.addEntry .devices ⟨"id", "a", "A", "secret", 7⟩), .call (.caller 0),
    .fanRecv 0, .fanTargets 0, .invoke 0 (.setTrusted "b" false), .call (.caller 0),
    .call (.caller 0), .call (.caller 0), .fanPush 0, .conn e (.dequeue (.update {7}))]
  let r : Registered := ⟨⟨"b", "B", 2, .devices⟩, 0, 0⟩
  obtain ⟨m, hm, hp⟩ := System.exists_of_exec
    (show (System.exec Manager.step start acts).any (fun m =>
      (m.conns e).any fun t => decide (t.phase = .sendOrHangup r true (some (.update {7})))) = true
      by decide +kernel)
  simp only [Option.any_eq_true, decide_eq_true_eq] at hp
  obtain ⟨t, ht, hphase⟩ := hp
  have hreg : m.registered e = some r := by simp [registered, ht, hphase, Phase.registered]
  have hrev : Revoked (.distrust "b") (System.trace Manager.step start acts) :=
    .at 0 18 (by decide +kernel) (by decide +kernel) (by decide +kernel)
  have htimely : (System.trace Manager.step start acts).all
      (fun u => u.pre.HangupsTimely u.act) = true := by decide +kernel
  have hsettled := Run.revokesSettled (run_of_exec hm) (by decide +kernel)
  refine ⟨_, m, e, t, r, run_of_exec hm, hrev, ht, hphase, rfl, fun f hf => ?_⟩
  by_contra hne
  obtain ⟨m', hm'⟩ := Option.ne_none_iff_exists'.mp hne
  have hrun := (run_of_exec hm).to_restrict
    (C := fun m a _ => m.HangupsTimely a = true ∧ m.RevokesSettled (.distrust "b") a)
    fun u hu => ⟨List.all_eq_true.mp htimely u hu, hsettled _ u hu⟩
  have hc : m.RevokesSettled (.distrust "b") (.conn e (.startSend (some f))) :=
    by simp [RevokesSettled]
  have := revoked_reveals_nothing.2 _ (hrun.next ⟨hm', rfl, hc⟩) _ _ [] rfl hrev e r f hreg
    (by simp [r, Revocation.covers, Registered.key]) (by simp [Action.sends, ConnTask.Act.sends])
  simp [this] at hf

end Runs

end Manager

end Yoink
