import Yoink.Network.Net

/-!
# What the ends of a socket know of each other

A socket delivers what was written on its other end, in order (`Run.flow`), so
the HELLO an end reads is the one the other instance wrote, and both ends of a socket
speak of one scope.
-/

namespace Yoink

variable {N D P : Type}

namespace Manager

section Instance

variable [Yrs D P] [DecidableEq P] {m m' : Manager D P} {a : Action P}

/-- An end without a task does no input or output. -/
theorem Step.silent_of_none (h : m.Step a m') {e : EndId} (he : m.conns e = none) :
    a.Silent e := by
  have hc := h.connStep e
  rw [he] at hc
  generalize m'.conns e = o at hc
  cases hc with
  | idle hs => exact hs
  | accepted | dialed => exact ⟨rfl, rfl⟩

omit [DecidableEq P] in
theorem ConnStep.dialedScope {e : EndId} {o o' : Option (ConnTask P)} (h : m.ConnStep e a o o')
    (hd : ∀ t, o = some t → t.dialedScope.isSome = e.dialed) {t' : ConnTask P}
    (ht' : o' = some t') : t'.dialedScope.isSome = e.dialed := by
  cases h with
  | idle => exact hd t' ht'
  | accepted hdial =>
    cases ht'
    exact hdial.symm
  | dialed _ _ hdial =>
    cases ht'
    exact hdial.symm
  | moved _ hs =>
    cases ht'
    rw [hs.dialedScope]
    exact hd _ rfl
  | _ =>
    cases ht'
    have hd' := hd _ rfl
    exact hd'

variable {device : DeviceInfo} {τ : History D P}

/-- The dialing side is the side that knows the scope from the start. -/
theorem Reachable.dialedScope (h : (system D P device).Reachable m) {e : EndId} {t : ConnTask P}
    (ht : m.conns e = some t) : t.dialedScope.isSome = e.dialed := by
  refine h.invariant (I := fun m => ∀ t, m.conns e = some t → t.dialedScope.isSome = e.dialed)
    ?_ (fun m a m' _ hI hs t ht => ?_) t ht
  · rintro m ⟨trust, rooms, rfl⟩ t ht
    simp [(new_bare device trust rooms).conns] at ht
  · exact ((step_cases hs).connStep e).dialedScope hI ht

theorem Run.wrote (h : (system D P device).Run τ m) (e : EndId) :
    written e τ = [] ∨ Greeted device (written e τ) ∨ Streaming device (written e τ) := by
  cases hc : m.conns e with
  | none => exact .inl ((Run.spoken h e).1 hc)
  | some t => exact ((Run.spoken h e).2 t hc).said.any

/-- An instance writes one HELLO on a connection, and it is its own. -/
theorem Run.hello_written (h : (system D P device).Run τ m) {e : EndId} {peer : Hello}
    (hp : .hello peer ∈ written e τ) :
    (written e τ).head? = some (.hello peer) ∧
      ∃ scope, peer = ConnTask.helloFrame device scope := by
  obtain hw | ⟨scope, hw⟩ | ⟨scope, sv, rest, hw, hrest⟩ := Run.wrote h e
  · simp [hw] at hp
  · obtain rfl : peer = ConnTask.helloFrame device scope := by simpa [hw] using hp
    exact ⟨by rw [hw]; rfl, scope, rfl⟩
  · rw [hw] at hp ⊢
    simp only [List.mem_cons, Frame.hello.injEq, reduceCtorEq, false_or] at hp
    obtain rfl | hp := hp
    · exact ⟨rfl, scope, rfl⟩
    · simpa using hrest _ hp

/-- The accepting side answers with the scope it was asked for. -/
theorem Run.echoes (h : (system D P device).Run τ m) {e : EndId} (hd : e.dialed = false)
    {hello : Hello} (hh : .hello hello ∈ written e τ) :
    ∃ peer, some (.hello peer) ∈ taken e τ ∧ peer.scope = hello.scope := by
  refine h.history (I := fun τ _ => .hello hello ∈ written e τ →
    ∃ peer, some (.hello peer) ∈ taken e τ ∧ peer.scope = hello.scope) (fun _ _ hh => ?_)
    (fun τ m a m' hr hI hs hh => ?_) hh
  · cases hh
  · rw [written_concat, List.mem_append] at hh
    rw [taken_concat]
    obtain hh | hh := hh
    · obtain ⟨peer, hp, hs⟩ := hI hh
      exact ⟨peer, List.mem_append_left _ hp, hs⟩
    · -- The HELLO is written by this step, which is its echo.
      have hsend : a.sends e = some (.hello hello) := by simpa using hh
      have hscope (t : ConnTask P) (ht : m.conns e = some t) : t.dialedScope = none := by
        simpa only [hd, Option.isSome_eq_false_iff, Option.isNone_iff_eq_none] using
          Reachable.dialedScope hr.reachable ht
      obtain rfl | rfl := Action.sends_hello hsend
      · obtain ⟨t, t', ht, -, hl, -⟩ := (step_cases hs).of_conn
        cases hl with
        | helloSent _ hdial =>
          rw [hscope t ht] at hdial
          cases hdial
        | @helloEchoed peer hp =>
          obtain ⟨rest, hrs, -⟩ : Opened peer false (taken e τ) := by
            simpa [Listened, hp] using (Run.listened hr e).2 t ht
          exact ⟨peer, by simp [hrs], rfl⟩
        | leave _ hs => cases hs
        | abort _ hs => cases hs
      · obtain ⟨t, t', ht, -, hl, -⟩ := (step_cases hs).of_conn
        cases hl with
        | startSend hp =>
          have := ((Run.spoken hr e).2 t ht).frame (.hello hello) (by simp [hp, Phase.frame])
          cases this
        | leave _ hs => cases hs
        | abort _ hs => cases hs

/-- What goes out after the HELLO goes out of a connection that was registered before. -/
theorem Run.spoke (h : (system D P device).Run τ m) {e : EndId} {f : Frame P}
    (hf : f ∈ written e τ) (hn : f.isHello = false) :
    ∃ peer, System.After (Entered e peer) (fun t => t.act.sends e = some f) τ := by
  obtain ⟨t, ht, hsend⟩ := List.mem_filterMap.mp hf
  obtain ⟨τ₁, τ₂, rfl⟩ := List.append_of_mem ht
  obtain ⟨hr, hs⟩ := h.split rfl
  obtain ⟨peer, hpass⟩ := (step_cases hs).passed (Run.known hr e) (.inl ⟨f, hsend, hn⟩)
  exact ⟨peer, τ₁, t, τ₂, rfl, hpass.entered, hsend⟩

omit [Yrs D P] [DecidableEq P] in
theorem Heard.mem_taken {e : EndId} {peer : Hello} (h : Heard e peer τ) :
    some (.hello peer) ∈ taken e τ := by
  obtain ⟨τ₁, t, τ₂, rfl, -, ht⟩ := h
  exact List.mem_filterMap.mpr ⟨t, by simp, ht⟩

omit [Yrs D P] [DecidableEq P] in
theorem Entered.heard {e : EndId} {peer : Hello} (h : Entered e peer τ) : Heard e peer τ :=
  h.before fun _ τ' hh => hh.append τ'

end Instance

end Manager

namespace Net

section Ends

variable [DecidableEq N]

/-- How the ends of sockets, their owners and their tasks belong together. -/
structure Wired (n : Net N D P) : Prop where
  pair : ∀ e, n.owner e = none → n.owner e.flip = none
  task : ∀ i e, (n.node i).conns e ≠ none → n.owner e = some i
  inbox : ∀ e, n.owner e = none → n.inbox e = []

omit [DecidableEq N] in
/-- The owners after `connect`. -/
theorem owner_connect (n : Net N D P) (i j : N) (sock : Nat) (e : EndId) :
    Function.update (Function.update n.owner ⟨sock, true⟩ (some i)) ⟨sock, false⟩ (some j) e =
      if e.sock = sock then some (if e.dialed then i else j) else n.owner e := by
  obtain ⟨k, d⟩ := e
  cases d <;> simp [Function.update_apply]

variable [Yrs D P] [DecidableEq P] {device : N → DeviceInfo} {n n' : Net N D P}
  {τ : Trace N D P} {a : NetAction N P}

omit [DecidableEq N] [Yrs D P] [DecidableEq P] in
theorem transmit_of_silent {act : Action P} {e : EndId} (hr : act.reads e = none)
    (hs : act.sends e.flip = none) : n.transmit act e = n.inbox e := by
  simp [transmit, hr, hs]

omit [Yrs D P] in
/-- A frame that is read was the next one. -/
theorem carries_reads {i : N} {act : Action P} {e : EndId} {payload : Option (Frame P)}
    (hc : n.carries i act = true) (hr : act.reads e = some payload) :
    ∃ f rest, n.inbox e = f :: rest ∧ payload = some f := by
  cases act with
  | conn e' act =>
    simp only [Action.reads] at hr
    split at hr
    · subst e'
      cases act with
      | recv incoming =>
        cases incoming with
        | frame p =>
          obtain rfl : p = payload := Option.some.inj hr
          simp only [carries, Bool.and_eq_true, decide_eq_true_eq] at hc
          obtain ⟨f, rfl⟩ := Option.isSome_iff_exists.mp hc.2
          obtain ⟨rest, h⟩ := List.head?_eq_some_iff.mp hc.1
          exact ⟨f, rest, h, rfl⟩
        | activity => cases hr
      | _ => cases hr
    · cases hr
  | _ => cases hr

theorem Wired.step (h : n.Wired) (hs : n.Step a n') : n'.Wired := by
  cases hs with
  | start | crash => exact ⟨h.pair, h.task, h.inbox⟩
  | @connect i j l sock m hi hj hd ha hm =>
    refine ⟨fun e he => ?_, fun i' e (he : (Function.update n.node i m i').conns e ≠ none) => ?_,
      fun e he => ?_⟩
    · simp only [owner_connect] at he ⊢
      split at he
      · cases he
      · rename_i hne
        rw [EndId.flip_sock, if_neg hne]
        exact h.pair e he
    · have hold (he : (n.node i').conns e ≠ none) : n.owner e = some i' ∧ e.sock ≠ sock := by
        have ho := h.task i' e he
        refine ⟨ho, fun hsock => ?_⟩
        obtain ⟨k, d⟩ := e
        obtain rfl : k = sock := hsock
        cases d <;> simp_all
      simp only [owner_connect]
      by_cases hold' : (n.node i').conns e = none
      · obtain rfl : i' = i := by
          by_contra hne
          rw [Function.update_of_ne hne] at he
          exact he hold'
        rw [Function.update_self] at he
        obtain hact | ⟨l', hact⟩ := (Manager.step_cases hm).conns_new hold' he
        · cases hact
        · cases hact
          simp
      · obtain ⟨ho, hsock⟩ := hold hold'
        rw [if_neg hsock]
        exact ho
    · simp only [owner_connect] at he
      split at he
      · cases he
      · exact h.inbox e he
  | @node i act m hu hc hm =>
    have hstep := Manager.step_cases hm
    refine ⟨h.pair, fun i' e (he : (Function.update n.node i m i').conns e ≠ none) => ?_,
      fun e he => ?_⟩
    · by_cases hold : (n.node i').conns e = none
      · obtain rfl : i' = i := by
          by_contra hne
          rw [Function.update_of_ne hne] at he
          exact he hold
        rw [Function.update_self] at he
        obtain rfl | ⟨l', rfl⟩ := hstep.conns_new hold he
        · simpa [carries] using hc
        · cases hc
      · exact h.task i' e hold
    · have hnone (e' : EndId) (he' : n.owner e' = none) : act.Silent e' := by
        refine hstep.silent_of_none ?_
        by_contra hne
        rw [h.task i e' hne] at he'
        cases he'
      show n.transmit act e = []
      rw [transmit_of_silent (hnone e he).2 (hnone e.flip (h.pair e he)).1]
      exact h.inbox e he

theorem Reachable.wired (h : (network D P device).Reachable n) : n.Wired := by
  refine System.Reachable.invariant (S := network D P device) (I := Wired) ?_
    (fun n a n' _ hI hs => hI.step (step_cases hs)) h
  rintro n ⟨trust, rooms, rfl⟩
  refine ⟨fun _ _ => rfl, fun i e he => ?_, fun _ _ => rfl⟩
  exact absurd (congrFun (Manager.new_bare (device i) (trust i) (rooms i)).conns e) he

omit [Yrs D P] [DecidableEq P] in
theorem written_step (e : EndId) (i : N) (τ : Trace N D P) :
    Manager.written e (historyOf i (τ ++ [⟨n, a, n'⟩])) =
      Manager.written e (historyOf i τ) ++ ((a.at i).bind (·.sends e)).toList := by
  rw [historyOf_concat]
  cases ha : a.at i with
  | none => simp
  | some act => simpa using Manager.written_concat e _ _

omit [Yrs D P] [DecidableEq P] in
theorem taken_step (e : EndId) (i : N) (τ : Trace N D P) :
    Manager.taken e (historyOf i (τ ++ [⟨n, a, n'⟩])) =
      Manager.taken e (historyOf i τ) ++ ((a.at i).bind (·.reads e)).toList := by
  rw [historyOf_concat]
  cases ha : a.at i with
  | none => simp
  | some act => simpa using Manager.taken_concat e _ _

/-- Nobody has a task on an end that belongs to nobody, and nothing ever happened there. -/
theorem Run.untouched (h : (network D P device).Run τ n) {e : EndId} (he : n.owner e = none)
    (i : N) : (n.node i).conns e = none ∧ Manager.written e (historyOf i τ) = [] ∧
      Manager.taken e (historyOf i τ) = [] := by
  have hc : (n.node i).conns e = none := by
    by_contra hne
    rw [(Reachable.wired h.reachable).task i e hne] at he
    cases he
  exact ⟨hc, (Manager.Run.spoken (Run.history h i) e).1 hc,
    (Manager.Run.listened (Run.history h i) e).1 hc⟩

omit [DecidableEq N] in
/-- An instance does nothing on an end it does not own. -/
theorem Wired.silent (h : n.Wired) {i : N} {act : Action P} {m : Manager D P}
    (hm : (n.node i).step act = some m) {e : EndId} (he : n.owner e ≠ some i) : act.Silent e := by
  refine (Manager.step_cases hm).silent_of_none ?_
  by_contra hne
  exact he (h.task i e hne)

omit [Yrs D P] [DecidableEq P] in
/-- Opening a socket does no input or output. -/
theorem connect_silent (i j k : N) (l : TaskId) (sock : Nat) (e : EndId) :
    ((NetAction.connect i l sock j).at k).bind (Action.sends (P := P) e) = none ∧
      ((NetAction.connect i l sock j).at k).bind (Action.reads (P := P) e) = none := by
  simp only [NetAction.at]
  split <;> exact ⟨rfl, rfl⟩

/-- What a step puts on the way to an end and takes from there. -/
theorem Step.inbox (hs : n.Step a n') (hw : n.Wired) {e : EndId} {i j : N}
    (hi : n.owner e = some i) (hj : n.owner e.flip = some j) :
    n'.inbox e = (if ((a.at i).bind (·.reads e)).isSome then (n.inbox e).tail else n.inbox e) ++
        ((a.at j).bind (·.sends e.flip)).toList ∧
      ∀ payload, (a.at i).bind (·.reads e) = some payload →
        ∃ f rest, n.inbox e = f :: rest ∧ payload = some f := by
  cases hs with
  | start | crash => simp [NetAction.at]
  | @connect i₀ j₀ l sock m hui huj hd ha hm =>
    rw [(connect_silent i₀ j₀ j l sock e.flip).1, (connect_silent i₀ j₀ i l sock e).2]
    simp
  | @node i₀ act m hu hc hm =>
    have hsend : (((NetAction.node i₀ act).at j).bind (·.sends e.flip)) = act.sends e.flip := by
      by_cases hij : i₀ = j
      · simp [NetAction.at, hij]
      · have := (hw.silent hm (e := e.flip) (by rw [hj]; simpa using Ne.symm hij)).1
        simp [NetAction.at, hij, this]
    have hread : (((NetAction.node i₀ act).at i).bind (·.reads e)) = act.reads e := by
      by_cases hij : i₀ = i
      · simp [NetAction.at, hij]
      · have := (hw.silent hm (e := e) (by rw [hi]; simpa using Ne.symm hij)).2
        simp [NetAction.at, hij, this]
    rw [hsend, hread]
    exact ⟨rfl, fun payload hr => carries_reads hc hr⟩

/-- An end keeps its owner. -/
theorem Step.owner_keeps (hs : n.Step a n') {e : EndId} {i : N} (hi : n.owner e = some i) :
    n'.owner e = some i := by
  cases hs with
  | start | crash | node => exact hi
  | @connect i₀ j₀ l sock m hui huj hd ha hm =>
    simp only [owner_connect]
    rw [if_neg]
    · exact hi
    · rintro rfl
      obtain ⟨k, d⟩ := e
      cases d <;> simp_all

/-- What was written on one end of a socket was read at the other, or is on its way. -/
theorem Run.flow (h : (network D P device).Run τ n) {e : EndId} {i j : N}
    (hi : n.owner e = some i) (hj : n.owner e.flip = some j) :
    (Manager.written e.flip (historyOf j τ)).map some =
      Manager.taken e (historyOf i τ) ++ (n.inbox e).map some := by
  refine System.Run.history (S := network D P device) (I := fun τ n => ∀ i j, n.owner e = some i →
    n.owner e.flip = some j → (Manager.written e.flip (historyOf j τ)).map some =
      Manager.taken e (historyOf i τ) ++ (n.inbox e).map some) ?_ ?_ h i j hi hj
  · rintro n ⟨trust, rooms, rfl⟩ i j hi
    cases hi
  · intro τ n a n' hr hI hs i j hi hj
    have hs := step_cases hs
    have hw := Reachable.wired hr.reachable
    rw [written_step, taken_step]
    cases ho : n.owner e with
    | none =>
      -- Nothing happened yet on the ends of a new socket, and opening it is all that does.
      obtain ⟨hci, -, htaken⟩ := Run.untouched hr ho i
      obtain ⟨hcj, hwrote, -⟩ := Run.untouched hr (hw.pair e ho) j
      cases hs with
      | start | crash | node =>
        rw [ho] at hi
        cases hi
      | @connect i₀ j₀ l sock =>
        rw [(connect_silent i₀ j₀ j l sock e.flip).1, (connect_silent i₀ j₀ i l sock e).2]
        simp [htaken, hwrote, hw.inbox e ho]
    | some i₀ =>
      obtain rfl : i₀ = i := Option.some.inj ((hs.owner_keeps ho).symm.trans hi)
      cases hf : n.owner e.flip with
      | none =>
        have := hw.pair _ hf
        rw [EndId.flip_flip, ho] at this
        cases this
      | some j₀ =>
        obtain rfl : j₀ = j := Option.some.inj ((hs.owner_keeps hf).symm.trans hj)
        obtain ⟨hin, hnext⟩ := hs.inbox hw ho hf
        rw [hin, List.map_append, hI _ _ ho hf]
        cases hr : (a.at i₀).bind (·.reads e) with
        | none => simp
        | some payload =>
          obtain ⟨f, rest, hin, rfl⟩ := hnext _ hr
          simp [hin]

theorem Run.written_of_taken (h : (network D P device).Run τ n) {e : EndId} {i j : N}
    (hi : n.owner e = some i) (hj : n.owner e.flip = some j) {f : Frame P}
    (hf : some f ∈ Manager.taken e (historyOf i τ)) :
    f ∈ Manager.written e.flip (historyOf j τ) := by
  have hmem : some f ∈ (Manager.written e.flip (historyOf j τ)).map some := by
    rw [Run.flow h hi hj]
    exact List.mem_append_left _ hf
  simpa using hmem

/-- The HELLO an end reads is the one the owner of the other end wrote. -/
theorem Run.introduced (h : (network D P device).Run τ n) {e : EndId} {i j : N}
    (hi : n.owner e = some i) (hj : n.owner e.flip = some j) {peer : Hello}
    (hp : some (.hello peer) ∈ Manager.taken e (historyOf i τ)) :
    (Manager.written e.flip (historyOf j τ)).head? = some (.hello peer) ∧
      peer.deviceId = (device j).id := by
  obtain ⟨hhead, scope, rfl⟩ :=
    Manager.Run.hello_written (Run.history h j) (Run.written_of_taken h hi hj hp)
  exact ⟨hhead, rfl⟩

/-- Both ends of a socket speak of one scope. -/
theorem Run.one_scope (h : (network D P device).Run τ n) {e : EndId} {i j : N}
    (hi : n.owner e = some i) (hj : n.owner e.flip = some j) {peer peer' : Hello}
    (hp : some (.hello peer) ∈ Manager.taken e (historyOf i τ))
    (hp' : some (.hello peer') ∈ Manager.taken e.flip (historyOf j τ)) :
    peer.scope = peer'.scope := by
  -- The accepting end echoes the scope it was asked for.
  have key (e : EndId) (i j : N) (peer peer' : Hello) (hi : n.owner e = some i)
      (hj : n.owner e.flip = some j) (hd : e.dialed = false)
      (hp : some (.hello peer) ∈ Manager.taken e (historyOf i τ))
      (hp' : some (.hello peer') ∈ Manager.taken e.flip (historyOf j τ)) :
      peer.scope = peer'.scope := by
    have hwrote : .hello peer' ∈ Manager.written e (historyOf i τ) := by
      simpa using Run.written_of_taken h (e := e.flip) hj (by simpa using hi) hp'
    obtain ⟨asked, hasked, hscope⟩ := Manager.Run.echoes (Run.history h i) hd hwrote
    have h1 := (Run.introduced h hi hj hp).1
    have h2 := (Run.introduced h hi hj hasked).1
    rw [h1] at h2
    cases h2
    exact hscope
  cases hd : e.dialed with
  | false => exact key e i j peer peer' hi hj hd hp hp'
  | true =>
    refine (key e.flip j i peer' peer hj (by simpa using hi) (by simp [hd]) hp' ?_).symm
    simpa using hp

end Ends

end Net

end Yoink
