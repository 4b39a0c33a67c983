import Yoink.Sync.Handshake
import Yoink.Sync.Admission

/-!
# Whose connection a dial loop drives

A dial loop is registered under the peer discovery named, its connection under the device the
remote end claims to be. `validate_peer` holds the remote to the scope that was dialed, but
not to the device: the two keys agree in exactly the runs in which no registration lets
another device in where a registered dialer is affected.
-/

namespace Yoink

variable {D P : Type}

namespace Manager

/-- A loop inside `run_connection` drives a connection it dialed. -/
def Driven (m : Manager D P) : Prop :=
  ∀ i l e, m.loops i = some l → l.phase = .running e →
    ∃ t, m.conns e = some t ∧ t.dialedScope = some l.scope ∧ t.owningDialer = some l.generation

/-- A dial loop registered under `k` drives no registered connection but one of `k`. -/
def OwnPairs (m : Manager D P) : Prop :=
  ∀ k d l e r, m.state.dialers.lookup k = some d → m.loops d.loop = some l →
    l.phase = .running e → m.registered e = some r → r.key = k

/-- The registration of a dialed connection leaves the dialers of other peers registered. -/
def SparesOthers (m : Manager D P) (a : Action P) (m' : Manager D P) : Prop :=
  ∀ e i l k, a = .register e → m.loops i = some l → l.phase = .running e → k.1 ≠ l.peerId →
    m'.state.dialers.lookup k = m.state.dialers.lookup k

/-- A registration that lets a dialed connection in finds the dialed device in its HELLO, unless the
loop has lost its dialer by now and the device that answered has none either. -/
def AnsweredBy (m : Manager D P) (a : Action P) : Prop :=
  ∀ e i l t peer doc g, a = .register e → m.loops i = some l → l.phase = .running e →
    m.conns e = some t → t.phase = .fetched peer (some doc) g → m.state.accepts peer.key = true →
    peer.deviceId = l.peerId ∨
      (m.state.dialers.lookup l.key ≠ some ⟨l.generation, i⟩ ∧
        m.state.dialers.lookup peer.key = none)

section Pairs

variable [Yrs D P] [DecidableEq P] {m m' : Manager D P} {a : Action P}

omit [DecidableEq P] in
/-- A connection keeps the scope it was dialed for and the loop that dialed it. -/
theorem ConnStep.driven {e : EndId} {t : ConnTask P} {o' : Option (ConnTask P)}
    (h : m.ConnStep e a (some t) o') :
    ∃ t', o' = some t' ∧ t'.dialedScope = t.dialedScope ∧ t'.owningDialer = t.owningDialer := by
  cases h with
  | moved _ hs => exact ⟨_, rfl, hs.dialedScope, hs.owningDialer⟩
  | _ => exact ⟨_, rfl, rfl, rfl⟩

omit [Yrs D P] [DecidableEq P] in
/-- A loop inside `run_connection` was there before, or has just connected. -/
theorem LoopStep.running {i : TaskId} {o : Option DialLoop} {l' : DialLoop} {e : EndId}
    (h : m.LoopStep i a o (some l')) (hp : l'.phase = .running e) :
    (∃ l, o = some l ∧ l.phase = .running e ∧ l'.key = l.key ∧ l'.generation = l.generation) ∨
      a = .connected i e := by
  cases h with
  | idle => exact .inl ⟨l', rfl, hp, rfl, rfl⟩
  | cancelled => exact .inl ⟨_, rfl, hp, rfl, rfl⟩
  | spawned => exact absurd hp (by simp)
  | moved hs =>
    cases hs with
    | @redial _ _ outcome => cases outcome <;> cases hp
    | _ => cases hp
  | removed => cases hp
  | connected =>
    cases hp
    exact .inr rfl

theorem Driven.step (hd : m.Driven) (h : m.Step a m') : m'.Driven := by
  intro i l' e hl' hp
  have hloop := h.loopStep i
  rw [hl'] at hloop
  obtain ⟨l, hl, hp₀, hk, hg⟩ | rfl := hloop.running hp
  · obtain ⟨t, ht, hscope, howner⟩ := hd i l e hl hp₀
    have hconn := h.connStep e
    rw [ht] at hconn
    obtain ⟨t', ht', hs', ho'⟩ := hconn.driven
    have hkey : l'.scope = l.scope := congrArg Prod.snd hk
    exact ⟨t', ht', by rw [hs', hscope, hkey], by rw [ho', howner, hg]⟩
  · obtain ⟨l, hl, -, -, -, rfl⟩ := h.of_connected
    obtain rfl : { l with phase := .running e } = l' := by simpa using hl'
    exact ⟨.dialed l.scope l.generation, by simp, rfl, rfl⟩

theorem Reachable.driven {device : DeviceInfo} (h : (system D P device).Reachable m) :
    m.Driven := by
  refine h.invariant (I := Driven) ?_ fun m a m' _ hI hs => hI.step (step_cases hs)
  rintro m ⟨trust, rooms, rfl⟩ i l e hl
  simp [(new_bare device trust rooms).loops] at hl

/-- A dialer that was not there before belongs to a loop that has just been spawned. -/
theorem Step.dialers_new (h : m.Step a m') {k : ConnKey} {d : DialerHandle}
    (hd : m'.state.dialers.lookup k = some d) : m.state.dialers.lookup k = some d ∨
      ∃ peerId scope g delay, m'.loops d.loop = some (.spawn peerId scope g delay) := by
  cases h.dialStep with
  | quiet hq => exact .inl (hq.dialers k ▸ hd)
  | call hc hn =>
    rw [setCalls_state, perform_dialers m hn] at hd
    split at hd
    · cases hd
    · exact .inl hd
  | spawn hc ho hw =>
    rw [FinMap.lookup_insert_ite] at hd
    split at hd
    · cases hd
      exact .inr ⟨_, _, _, _, Function.update_self ..⟩
    · exact .inl hd
  | register hc hcs hds hls hcalls =>
    rw [hds] at hd
    split at hd
    · cases hd
    · exact .inl hd
  | returned hl hc => exact .inl hd
  | removed hl hp =>
    rw [setLoop_state, setState_state, State.removeDialerEntry_dialers] at hd
    split at hd
    · cases hd
    · exact .inl hd

omit [Yrs D P] [DecidableEq P] in
/-- The loop of a dialer: its key and its generation. -/
theorem Owned.dialer_loop (ho : m.Owned) {k : ConnKey} {d : DialerHandle} {l : DialLoop}
    (hd : m.state.dialers.lookup k = some d) (hl : m.loops d.loop = some l) :
    l.key = k ∧ l.generation = d.generation := by
  have hk := ho.dials.exact.key_of_holder (dialer_holder_eq_some.mpr ⟨d, hd, rfl⟩)
  obtain ⟨x, hx, rfl⟩ := Option.map_eq_some_iff.mp hk
  obtain ⟨l', hl', -, rfl⟩ := dialing_eq_some.mp hx
  obtain rfl : l = l' := Option.some.inj (hl.symm.trans hl')
  exact ⟨rfl, ho.dials.matched _ _ _ hd hx⟩

theorem OwnPairs.step (hI : m.OwnPairs) (ho : m.Owned) {device : DeviceInfo}
    {τ : History D P} (hr : (system D P device).Run τ m) (h : m.Step a m')
    (ha : m.AnsweredBy a) : m'.OwnPairs := by
  intro k d l' e r hd hl' hp hreg
  have hloop := h.loopStep d.loop
  rw [hl'] at hloop
  obtain ⟨l, hl, hp₀, hkey, hgen⟩ | rfl := hloop.running hp
  · have hd₀ : m.state.dialers.lookup k = some d := by
      obtain hd₀ | ⟨_, _, _, _, hs⟩ := h.dialers_new hd
      · exact hd₀
      · rw [hl'] at hs
        cases hs
        simp at hp
    obtain hreg₀ | ⟨rfl, hacc, t, ht, hph⟩ := (h.connStep e).entering hreg
    · exact hI k d l e r hd₀ hl hp₀ hreg₀
    · obtain ⟨hlk, hlg⟩ := ho.dialer_loop hd₀ hl
      obtain ⟨t', ht', hscope, -⟩ := Reachable.driven hr.reachable d.loop l e hl hp₀
      rw [ht] at ht'
      cases ht'
      obtain hdev | ⟨hn, -⟩ := ha e d.loop l t r.peer r.doc r.generation rfl hl hp₀ ht hph hacc
      · -- `validate_peer` has compared the scopes.
        have hv := (Run.known hr e t ht).valid r.peer (by simp [hph, Phase.hello]) (by simp [hph])
        simp only [ConnTask.validatePeer, hscope, Option.all_some, Bool.and_eq_true,
          decide_eq_true_eq] at hv
        rw [← hlk]
        exact Prod.ext hdev hv.2.symm
      · rw [hlk, hlg] at hn
        exact absurd hd₀ hn
  · obtain ⟨l, hl, -, -, -, rfl⟩ := h.of_connected
    simp [registered, ConnTask.dialed, Phase.registered] at hreg

theorem Run.ownPairs {device : DeviceInfo} {τ : History D P} (h : (system D P device).Run τ m)
    (hall : ∀ u ∈ τ, u.pre.AnsweredBy u.act) : m.OwnPairs := by
  refine h.history (I := fun τ m => (∀ u ∈ τ, u.pre.AnsweredBy u.act) → m.OwnPairs) ?_
    (fun τ m a m' hr hI hs hall => ?_) hall
  · rintro m ⟨trust, rooms, rfl⟩ - k d l e r hd
    simp [(new_bare device trust rooms).dialers] at hd
  · have hI := hI fun u hu => hall u (List.mem_append_left _ hu)
    exact hI.step (Reachable.owned hr.reachable) hr (step_cases hs)
      (hall ⟨m, a, m'⟩ (by simp))

theorem Step.sparesOthers (h : m.Step a m') (ha : m.AnsweredBy a) : m.SparesOthers a m' := by
  rintro e i l k rfl hl hp hk
  obtain ⟨t, peer, doc, g, ht, -, hph, rfl⟩ := h.of_register
  obtain h | ⟨doc, rfl, hacc, h⟩ := m.register_cases e t peer doc g
  · rw [h]
    rfl
  · rw [h]
    simp only [State.register_dialers]
    obtain hdev | ⟨-, hn⟩ := ha e i l t peer doc g rfl hl hp ht hph hacc
    · rw [if_neg]
      rintro ⟨rfl, -⟩
      exact hk hdev
    · split
      · rename_i hkey
        rw [hkey.1, hn]
      · rfl

/-- A registration that lets another device in shows: the loop is captive, or another dialer is
cancelled. -/
theorem answeredBy_of_own (ho : m.Owned) (hdr : m.Driven) (h : m.Step a m')
    (hown : m'.OwnPairs) (hsp : m.SparesOthers a m') : m.AnsweredBy a := by
  rintro e i l t peer doc g rfl hl hp ht hph hacc
  by_contra hne
  push Not at hne
  obtain ⟨hdev, hne⟩ := hne
  have hkey : l.key ≠ peer.key := fun hk => hdev (congrArg Prod.fst hk).symm
  obtain ⟨t', peer', doc', g', ht', -, hph', rfl⟩ := h.of_register
  rw [ht] at ht'
  cases ht'
  rw [hph] at hph'
  cases hph'
  rw [m.register_accepted e t doc g hacc] at hown hsp
  by_cases hd : m.state.dialers.lookup l.key = some ⟨l.generation, i⟩
  · refine hkey (hown l.key ⟨l.generation, i⟩ _ e ⟨peer, doc, g⟩ ?_
      (Option.map_eq_some_iff.mpr ⟨l, hl, rfl⟩) hp (by simp [registered, Phase.registered])).symm
    simp only [State.register_dialers]
    rw [if_neg fun hk => hkey hk.1, hd]
  · obtain ⟨d, hd'⟩ := Option.ne_none_iff_exists'.mp (hne hd)
    obtain ⟨t', ht', -, howner⟩ := hdr i l e hl hp
    rw [ht] at ht'
    cases ht'
    have hred : m.state.redundant peer.key t.owningDialer = true := by
      simp only [State.redundant, hd', Option.any_some, decide_eq_true_eq, howner]
      intro hg
      obtain ⟨i', ⟨l', hl', -, hlk, hlg⟩, -⟩ := ho.dialer hd'
      obtain rfl := ho.fresh.loop_inj i' i l' l hl' hl (hlg.trans (Option.some.inj hg))
      rw [hl] at hl'
      cases hl'
      exact hkey hlk
    have := hsp e i l peer.key rfl hl hp (fun hk => hdev hk)
    simp [State.register_dialers, hred, hd'] at this

/-- In a run, the registered dial loops drive only their own pairs and no dialed connection takes
another peer's dialer out exactly if every registration finds the device that was dialed. -/
theorem own_pair_iff {device : DeviceInfo} {τ : History D P} (h : (system D P device).Run τ m) :
    (∀ u ∈ τ, u.post.OwnPairs ∧ u.pre.SparesOthers u.act u.post) ↔
      ∀ u ∈ τ, u.pre.AnsweredBy u.act := by
  constructor
  · intro hall u hu
    obtain ⟨τ₁, τ₂, rfl⟩ := List.append_of_mem hu
    obtain ⟨hr, hs⟩ := h.split rfl
    exact answeredBy_of_own (Reachable.owned hr.reachable) (Reachable.driven hr.reachable)
      (step_cases hs) (hall u hu).1 (hall u hu).2
  · intro hall u hu
    obtain ⟨τ₁, τ₂, rfl⟩ := List.append_of_mem hu
    have hr := h.upTo
    refine ⟨Run.ownPairs hr fun v hv => hall v ?_, ?_⟩
    · obtain hv | hv := List.mem_append.mp hv
      · exact List.mem_append_left _ hv
      · exact List.mem_append_right _ (by simp [List.mem_singleton.mp hv])
    · exact (step_cases (h.split rfl).2).sparesOthers (hall u hu)

end Pairs

section Runs

/-- Both "b" and "c" are discovered and dialed; what is dialed for "b" answers as `peer`. -/
def dialBoth (peer : Hello) : List (Action GrowSet) :=
  [.invoke 0 (.peerDiscovered ⟨"b", []⟩), .call (.caller 0), .call (.caller 0),
    .invoke 0 (.peerDiscovered ⟨"c", []⟩), .call (.caller 0), .call (.caller 0),
    .dialTarget 1, .connected 1 ⟨0, true⟩, .conn ⟨0, true⟩ (.sendHello ⟨"a", "A", 2, .devices⟩),
    .conn ⟨0, true⟩ (.recv (.frame (some (.hello peer)))), .fetchDoc ⟨0, true⟩]

/-- At the address of "b" there is now "c": the loop counted as dialing "b" drives a connection with
"c", and the dial loop of "c" was cancelled for it. -/
theorem reused_address_captures :
    ∃ (m m' : Manager GrowSet GrowSet) (e : EndId),
      (system GrowSet GrowSet ⟨"a", "A"⟩).Reachable m ∧ m.step (.register e) = some m' ∧
        ¬ m'.OwnPairs ∧ ¬ m.SparesOthers (.register e) m' := by
  let e : EndId := ⟨0, true⟩
  let start : Manager GrowSet GrowSet := .new ⟨"a", "A"⟩ ⟨false, ∅, ∅⟩ []
  let loop : DialLoop := ⟨"b", .devices, 0, false, 0, 1, .running e⟩
  obtain ⟨m, hm, hp⟩ := System.exists_of_exec
    (show (System.exec Manager.step start (dialBoth ⟨"c", "C", 2, .devices⟩)).any (fun m =>
      decide (m.loops 1 = some loop) && (m.state.dialers.lookup ("c", .devices)).isSome &&
      (m.step (.register e)).any fun m' =>
        decide (m'.state.dialers.lookup ("b", .devices) = some ⟨0, 1⟩) &&
          decide (m'.loops 1 = some loop) &&
          (m'.state.dialers.lookup ("c", .devices)).isNone &&
          (m'.registered e).any fun r => decide (r.key = ("c", .devices))) = true
      by decide +kernel)
  simp only [Bool.and_eq_true, Option.any_eq_true, decide_eq_true_eq, Option.isNone_iff_eq_none]
    at hp
  obtain ⟨⟨hl, hc⟩, m', hm', ⟨⟨hb, hl'⟩, hc'⟩, r, hr, hk⟩ := hp
  refine ⟨m, m', e, (run_of_exec hm).reachable, hm', fun hown => ?_, fun hsp => ?_⟩
  · have := hown ("b", .devices) ⟨0, 1⟩ loop e r hb hl' rfl hr
    rw [hk] at this
    exact absurd (congrArg Prod.fst this) (by decide)
  · have hkept := hsp e 1 loop ("c", .devices) rfl hl rfl (by decide)
    rw [hc'] at hkept
    rw [← hkept] at hc
    cases hc

/-- The dialed device answers itself. -/
theorem own_pair_answered :
    ∃ (τ : History GrowSet GrowSet) (m : Manager GrowSet GrowSet),
      (∃ e, (m.registered e).isSome) ∧
        ∀ u ∈ τ, u.post.OwnPairs ∧ u.pre.SparesOthers u.act u.post := by
  let e : EndId := ⟨0, true⟩
  let start : Manager GrowSet GrowSet := .new ⟨"a", "A"⟩ ⟨false, ∅, ∅⟩ []
  let acts : List (Action GrowSet) := dialBoth ⟨"b", "B", 2, .devices⟩ ++ [.register e]
  obtain ⟨m, hm, hr⟩ := System.exists_of_exec
    (show (System.exec Manager.step start acts).any (fun m => (m.registered e).isSome) = true
      by decide +kernel)
  have hcheck : (System.trace Manager.step start acts).all (fun u =>
      !decide (u.act.thread = some (.conn e)) ||
        (decide ((u.pre.conns e).bind (·.owningDialer) = some 0) &&
          (u.pre.loops 1).any (fun l => decide (l.generation = 0 ∧ l.peerId = "b")) &&
          decide ((u.pre.conns e).map ConnTask.phase =
            some (.fetched ⟨"b", "B", 2, .devices⟩ (some 0) 2)))) = true := by decide +kernel
  have hrun := run_of_exec hm
  refine ⟨_, m, ⟨e, hr⟩, (own_pair_iff hrun).mpr ?_⟩
  intro u hu e' i l t peer doc g ha hl hp ht hph _
  have hu' := List.all_eq_true.mp hcheck u hu
  have hact := System.act_mem_of_mem_trace hu
  obtain rfl : e' = e := by simpa [ha, acts, dialBoth] using hact
  obtain ⟨τ₁, τ₂, heq⟩ := List.append_of_mem hu
  have hreach := (hrun.split heq).1.reachable
  simp only [ha, Action.thread, ht, hph, Option.bind_some, Option.map_some, decide_true,
    Bool.not_true, Bool.false_or, Bool.and_eq_true, decide_eq_true_eq, Option.any_eq_true,
    Option.some.injEq, Phase.fetched.injEq] at hu'
  obtain ⟨⟨howner, l₁, hl₁, hg, hpeer⟩, rfl, -⟩ := hu'
  -- The loop that drives the connection is the one that owns it.
  obtain ⟨t', ht', -, howner'⟩ := Reachable.driven hreach i l e hl hp
  rw [ht] at ht'
  cases ht'
  have hi := (Reachable.owned hreach).fresh.loop_inj i 1 l l₁ hl hl₁
    (by rw [hg]; exact Option.some.inj (howner'.symm.trans howner))
  rw [hi, hl₁] at hl
  cases hl
  exact .inl hpeer.symm

end Runs

end Manager

end Yoink
