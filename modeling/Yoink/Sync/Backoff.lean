import Yoink.Sync.Dialing
import Yoink.Sync.Rooms
import Yoink.Library.Backoff
import Yoink.Core.GrowSet

/-!
# How often a dial loop tries

Every sleep and every attempt of a dial loop, read off the history of a run, is a timeline of
`dialBackoff`: the waits double from INITIAL_BACKOFF to MAX_BACKOFF while attempts fail and start
over once a connection was established. A connection counts as established exactly if its peer
was announced.
-/

namespace Yoink

variable {D P : Type}

/-- INITIAL_BACKOFF and MAX_BACKOFF. -/
def dialBackoff : Backoff where
  initial := initialBackoff
  cap := maxBackoff
  pos := by decide
  le := by decide

/-- The dial loop whose sleep or attempt an action ends. -/
def Action.paces : Action P → Option TaskId
  | .dialWake i | .connectFailed i | .redial i => some i
  | _ => none

namespace DialLoop

/-- A loop that was told to sleep `first` has been through `paces`, and nothing else. -/
structure Paced (l : DialLoop) (first : Nat) (paces : List Backoff.Pace) : Prop where
  backoff : l.backoff = dialBackoff.after (paces.filterMap Backoff.Pace.outcome)
  within : paces <+: dialBackoff.timeline first (paces.filterMap Backoff.Pace.outcome)
  sleeping : l.phase = .sleeping → paces ++ [.slept l.delay] =
    dialBackoff.timeline first (paces.filterMap Backoff.Pace.outcome)
  awake : l.phase ≠ .sleeping → l.phase ≠ .returned →
    paces = dialBackoff.timeline first (paces.filterMap Backoff.Pace.outcome)

theorem spawn_paced (peerId : DeviceId) (scope : Scope) (generation first : Nat) :
    (spawn peerId scope generation first).Paced first [] := by
  refine ⟨rfl, List.nil_prefix, fun hp => ?_, fun hp _ => ?_⟩ <;>
    by_cases hf : first = 0 <;>
      simp_all [spawn, Backoff.timeline, Backoff.timelineFrom]

/-- Only the phase of a loop changed, and it is not asleep. -/
theorem Paced.of_phase {l l' : DialLoop} {first : Nat} {paces : List Backoff.Pace}
    (h : l.Paced first paces) (hb : l'.backoff = l.backoff) (hs : l'.phase ≠ .sleeping)
    (hp : l'.phase = .returned ∨ (l.phase ≠ .sleeping ∧ l.phase ≠ .returned)) :
    l'.Paced first paces := by
  refine ⟨hb.trans h.backoff, h.within, fun hs' => absurd hs' hs, fun _ hr => ?_⟩
  rcases hp with hp | ⟨h1, h2⟩
  · exact absurd hp hr
  · exact h.awake h1 h2

/-- The sleep is over. -/
theorem Paced.wake {l : DialLoop} {first : Nat} {paces : List Backoff.Pace}
    (h : l.Paced first paces) (hp : l.phase = .sleeping) :
    Paced { l with phase := .awake } first (paces ++ [.slept l.delay]) := by
  have hout : (paces ++ [Backoff.Pace.slept l.delay]).filterMap Backoff.Pace.outcome =
      paces.filterMap Backoff.Pace.outcome := by
    simp [List.filterMap_cons, Backoff.Pace.outcome]
  have heq := h.sleeping hp
  refine ⟨by rw [hout]; exact h.backoff, ?_, fun hp => ?_, fun _ _ => ?_⟩
  · rw [hout, heq]
  · cases hp
  · rw [hout, heq]

/-- What an attempt does to the delays, whichever way it ended. -/
theorem again_paced (l : DialLoop) {outcomes : List Bool} (outcome : Option ConnectionOutcome)
    (hb : l.backoff = dialBackoff.after outcomes) :
    (l.again outcome).backoff =
        dialBackoff.after (outcomes ++ [decide (outcome = some .established)]) ∧
      (l.again outcome).delay =
        dialBackoff.wait (outcomes ++ [decide (outcome = some .established)]) ∧
      (l.again outcome).phase = .sleeping := by
  rcases outcome with _ | _ | _
  · simp [again, hb, Backoff.next, dialBackoff]
  · simp [again, Backoff.next, dialBackoff, redialDelay]
  · simp [again, hb, Backoff.next, dialBackoff]

/-- An attempt is over, and the loop goes to sleep for the wait that follows it. -/
theorem Paced.again {l : DialLoop} {first : Nat} {paces : List Backoff.Pace}
    (h : l.Paced first paces) (outcome : Option ConnectionOutcome) (hs : l.phase ≠ .sleeping)
    (hr : l.phase ≠ .returned) :
    (l.again outcome).Paced first
      (paces ++ [.tried (decide (outcome = some .established))]) := by
  have hout (ok : Bool) : (paces ++ [Backoff.Pace.tried ok]).filterMap Backoff.Pace.outcome =
      paces.filterMap Backoff.Pace.outcome ++ [ok] := by
    simp [Backoff.Pace.outcome]
  obtain ⟨hb, hd, hp⟩ := l.again_paced outcome h.backoff
  have hline : paces ++ [.tried (decide (outcome = some .established)),
      .slept (l.again outcome).delay] = dialBackoff.timeline first
        (paces.filterMap Backoff.Pace.outcome ++ [decide (outcome = some .established)]) := by
    rw [Backoff.timeline_concat, hd, ← h.awake hs hr]
  constructor
  · rw [hout, hb]
  · rw [hout, ← hline]
    exact ⟨[.slept (l.again outcome).delay], by simp⟩
  · intro _
    rw [hout, ← hline]
    simp
  · intro h' _
    exact absurd hp h'

end DialLoop

/-- The local of `pump`, and what `run_connection` makes of it. -/
def Phase.everAnnounced : Phase P → Bool
  | .select _ a | .received _ a _ | .sendOrHangup _ a _ | .starting _ a _ | .sending _ a _
  | .closing _ a | .finishing _ a | .finished a => a
  | .ended outcome => outcome = .established
  | _ => false

theorem ConnTask.Local.everAnnounced {device : DeviceInfo} {act : ConnTask.Act P} {t t' : ConnTask P}
    (h : t.Local device act t') : t'.phase.everAnnounced = t.phase.everAnnounced := by
  cases h with
  | helloEchoed hp | helloAnswered hp =>
    rcases validate_cases (P := P) device t.dialedScope ‹Hello› with ⟨-, h⟩ | h <;>
      simp [hp, h, Phase.everAnnounced]
  | abort hp => rcases hp with hp | ⟨_, hp⟩ <;> simp [hp, Phase.everAnnounced]
  | leave hp => rcases hp with hp | ⟨_, hp | hp⟩ <;> simp [hp, Phase.everAnnounced, breakLoop]
  | activity => rfl
  | @returned a hp => cases a <;> simp [hp, Phase.everAnnounced]
  | _ hp => simp [hp, Phase.everAnnounced]

namespace Manager

/-- How the connection that loop `i` drives has ended, if it has. -/
def outcome (m : Manager D P) (i : TaskId) : Option ConnectionOutcome :=
  match (m.loops i).map DialLoop.phase with
  | some (.running e) =>
    match (m.conns e).map ConnTask.phase with
    | some (.ended outcome) => some outcome
    | _ => none
  | _ => none

/-- The sleep or the attempt of loop `i` that a step ends. -/
def pace (i : TaskId) (t : Transition (Manager D P) (Action P)) : Option Backoff.Pace :=
  match t.act with
  | .dialWake j => if j = i then (t.pre.loops i).map fun l => .slept l.delay else none
  | .connectFailed j => if j = i then some (.tried false) else none
  | .redial j =>
    if j = i then (t.pre.outcome i).map fun o => .tried (o = .established) else none
  | _ => none

/-- Everything loop `i` has slept and tried, in order. -/
def paces (i : TaskId) (τ : List (Transition (Manager D P) (Action P))) : List Backoff.Pace :=
  τ.filterMap (pace i)

theorem pace_of_ne {i : TaskId} {t : Transition (Manager D P) (Action P)}
    (h : t.act.paces ≠ some i) : pace i t = none := by
  obtain ⟨m, a, m'⟩ := t
  cases a with
  | dialWake j | connectFailed j | redial j =>
    have hne : j ≠ i := fun hj => h (by rw [hj]; rfl)
    simp [pace, hne]
  | _ => rfl

/-- What one pace of a loop adds to its timeline. -/
theorem Paced.move {m m' : Manager D P} {a : Action P} {i : TaskId} {l l' : DialLoop}
    {first : Nat} {paces : List Backoff.Pace}
    (h : l.Paced first paces) (ha : a.paces = some i) (hl : m.loops i = some l)
    (hs : l.Local m i a l') : l'.Paced first (paces ++ (pace i ⟨m, a, m'⟩).toList) := by
  cases hs with
  | wake hp =>
    have hpace : pace i ⟨m, .dialWake i, m'⟩ = some (.slept l.delay) := by simp [pace, hl]
    rw [hpace]
    exact h.wake hp
  | connectFailed hp =>
    have hpace : pace i ⟨m, .connectFailed i, m'⟩ = some (.tried false) := by simp [pace]
    rw [hpace]
    exact h.again none (by simp [hp]) (by simp [hp])
  | @redial e t outcome hp ht ho =>
    have hpace : pace i ⟨m, .redial i, m'⟩ =
        some (.tried (decide (some outcome = some ConnectionOutcome.established))) := by
      simp [pace, Manager.outcome, hl, hp, ht, ho]
    rw [hpace]
    exact h.again (some outcome) (by simp [hp]) (by simp [hp])
  | _ => cases ha

/-- What a step that is no pace of a loop leaves of it. -/
theorem Paced.rest {m : Manager D P} {a : Action P} {i : TaskId} {l : DialLoop}
    {o' : Option DialLoop} {first : Nat} {paces : List Backoff.Pace} (h : l.Paced first paces)
    (ha : a.paces ≠ some i)
    (hi : m.spawned ≠ i) (hs : m.LoopStep i a (some l) o') :
    ∃ l', o' = some l' ∧ l'.Paced first paces := by
  cases hs with
  | idle => exact ⟨l, rfl, h⟩
  | cancelled => exact ⟨_, rfl, ⟨h.backoff, h.within, h.sleeping, h.awake⟩⟩
  | spawned hi' => exact absurd hi'.symm hi
  | removed hp => exact ⟨_, rfl, h.of_phase rfl (by simp) (.inl rfl)⟩
  | connected hp => exact ⟨_, rfl, h.of_phase rfl (by simp) (.inr (by simp [hp]))⟩
  | @moved _ _ l' hs =>
    refine ⟨l', rfl, ?_⟩
    cases hs with
    | cancelled => exact h.of_phase rfl (by simp) (.inl rfl)
    | target hp | noTarget hp => exact h.of_phase rfl (by simp) (.inr (by simp [hp]))
    | _ => exact absurd rfl ha

/-- Every dial loop still to be spawned starts at once or after REDIAL_DELAY. -/
def Prompt (m : Manager D P) : Prop :=
  ∀ t d s n, .maybeSpawnDialer d s n ∈ m.calls t → n = 0 ∨ n = redialDelay

variable [Yrs D P]

theorem perform_prompt (m : Manager D P) {c : Call} {d : DeviceId} {s : Scope} {n : Nat}
    (h : .maybeSpawnDialer d s n ∈ (m.perform c).2) : n = 0 := by
  have hdrop {k : ConnKey} {handle : ConnectionHandle} :
      .maybeSpawnDialer d s n ∉ dropConnection k handle := fun hc => by
    rcases State.mem_dropConnection hc with hc | hc <;> cases hc
  cases c with
  | setTrusted d' b =>
    simp only [perform, State.setTrusted] at h
    split at h
    · cases List.mem_singleton.mp h
      rfl
    · rcases List.mem_append.mp h with h | h
      · simp at h
      · obtain ⟨_, -, h⟩ := List.mem_flatMap.mp h
        exact absurd h hdrop
  | leaveRoom name =>
    simp only [perform, State.leaveRoom] at h
    split at h
    · simp only [List.mem_append, List.mem_flatMap, List.mem_map] at h
      rcases h with (⟨_, -, h⟩ | ⟨_, -, h⟩) | ⟨_, -, h⟩
      · cases h
      · cases h
      · exact absurd h hdrop
    · cases h
  | forceClose key g =>
    simp only [perform, State.forceClose] at h
    split at h <;> try split at h
    · exact absurd h hdrop
    all_goals cases h
  | peerLost d' => simp [perform, State.peerLost] at h
  | joinRoom name =>
    rcases m.joinRoom_cases name with heq | ⟨-, -, -, hd⟩
    · simp [perform, heq] at h
    · obtain ⟨d', h⟩ := hd _ h
      cases h
      rfl
  | peerDiscovered peer =>
    simp only [perform, State.peerDiscovered] at h
    split at h
    · cases h
    · obtain ⟨scope, -, h⟩ := List.mem_map.mp h
      cases h
      rfl
  | addEntry scope entry =>
    simp only [perform] at h
    split at h <;> cases h
  | _ => cases h

variable [DecidableEq P] {m m' : Manager D P} {a : Action P}

theorem Prompt.step (h : m.Prompt) (hs : m.Step a m') : m'.Prompt := by
  intro t d s n hmem
  by_cases ha : a.thread = some t
  · cases hs with
    | @invoke i command hc =>
      obtain rfl : .caller i = t := Option.some.inj ha
      have heff := command.calls_isEffect _ (by simpa using hmem)
      cases heff
    | @call t' c cs hc =>
      obtain rfl : t' = t := Option.some.inj ha
      rcases List.mem_append.mp (by simpa using hmem) with hmem | hmem
      · exact .inl (m.perform_prompt hmem)
      · exact h t' d s n (by simp [hc, hmem])
    | @register e t' peer doc g ht hc hp =>
      obtain rfl : .conn e = t := Option.some.inj ha
      rcases m.register_cases e t' peer doc g with heq | ⟨d', -, -, heq⟩ <;>
        simp [heq, hc] at hmem
    | @finishConnection e t' r b ht hc hp =>
      obtain rfl : .conn e = t := Option.some.inj ha
      simp only [setCalls_calls, Function.update_self, State.finishConnection_calls] at hmem
      split at hmem <;> simp at hmem <;> exact .inr hmem.2.2
    | @fanPush i f frame target rest lag hf hp hc =>
      obtain rfl : .fan i = t := Option.some.inj ha
      rcases m.trySend_cases i frame target with heq | ⟨t', -, -, -, heq⟩ | ⟨t', -, -, heq⟩ <;>
        simp [heq, hc] at hmem
    | dial _ hs => cases hs <;> cases ha
    | fan _ hs => cases hs <;> cases ha
    | _ => cases ha
  · rw [hs.calls_of_ne ha] at hmem
    exact h t d s n hmem

theorem Reachable.prompt {device : DeviceInfo} (h : (system D P device).Reachable m) :
    m.Prompt := by
  refine h.invariant (I := Prompt) ?_ fun m a m' _ hI hs => hI.step (step_cases hs)
  rintro m ⟨trust, rooms, rfl⟩ t d s n hmem
  simp [(new_bare device trust rooms).calls] at hmem

/-- A pace of a loop is a move of that loop. -/
theorem Step.paces (h : m.Step a m') {i : TaskId} (ha : a.paces = some i) :
    ∃ l l', m.loops i = some l ∧ l.Local m i a l' ∧ m'.loops i = some l' := by
  cases h with
  | @dial j _ l l' hl hs =>
    have hj : j = i := by cases hs <;> first | exact Option.some.inj ha | cases ha
    subst hj
    exact ⟨l, l', hl, hs, by simp⟩
  | fan _ hs => cases hs <;> cases ha
  | _ => cases ha

theorem Run.paced {device : DeviceInfo} {τ : List (Transition (Manager D P) (Action P))}
    (h : (system D P device).Run τ m) (i : TaskId) :
    (m.loops i = none → paces i τ = []) ∧ ∀ l, m.loops i = some l →
      ∃ first, (first = 0 ∨ first = redialDelay) ∧ l.Paced first (paces i τ) := by
  refine h.history (I := fun τ m => (m.loops i = none → paces i τ = []) ∧
    ∀ l, m.loops i = some l →
      ∃ first, (first = 0 ∨ first = redialDelay) ∧ l.Paced first (paces i τ)) ?_ ?_
  · rintro m ⟨trust, rooms, rfl⟩
    simp [(new_bare device trust rooms).loops, paces]
  · intro τ m a m' hr ⟨hnone, hsome⟩ hstep
    have hs := step_cases hstep
    have hpaces : paces i (τ ++ [⟨m, a, m'⟩]) = paces i τ ++ (pace i ⟨m, a, m'⟩).toList := by
      simp only [paces, List.filterMap_append, List.filterMap_cons, List.filterMap_nil]
      cases pace i ⟨m, a, m'⟩ <;> rfl
    rw [hpaces]
    by_cases ha : a.paces = some i
    · obtain ⟨l, l', hl, hlocal, hl'⟩ := hs.paces ha
      refine ⟨fun hn => by simp [hl'] at hn, fun l'' hl'' => ?_⟩
      obtain rfl : l' = l'' := Option.some.inj (hl'.symm.trans hl'')
      obtain ⟨first, hf, hp⟩ := hsome l hl
      exact ⟨first, hf, Paced.move hp ha hl hlocal⟩
    rw [pace_of_ne ha, Option.toList_none, List.append_nil]
    have hloop := hs.loopStep i
    cases ho : m.loops i with
    | some l =>
      have hi : m.spawned ≠ i := by
        have hlt := ((Reachable.owned hr.reachable).fresh.loop i l ho).2
        exact Nat.ne_of_gt hlt
      obtain ⟨first, hf, hp⟩ := hsome l ho
      rw [ho] at hloop
      obtain ⟨l', hl', hp'⟩ := Paced.rest hp ha hi hloop
      refine ⟨fun hn => by simp [hl'] at hn, fun l'' hl'' => ?_⟩
      obtain rfl : l' = l'' := Option.some.inj (hl'.symm.trans hl'')
      exact ⟨first, hf, hp'⟩
    | none =>
      have hnil := hnone ho
      rw [ho] at hloop
      refine ⟨fun _ => hnil, fun l' hl' => ?_⟩
      rw [hl'] at hloop
      cases hloop with
      | @spawned t d s first cs _ hi hc =>
        refine ⟨first, Reachable.prompt hr.reachable t d s first (by simp [hc]), ?_⟩
        rw [hnil]
        exact DialLoop.spawn_paced ..

/-- The sleeps and attempts of every dial loop follow the backoff timeline: it sleeps the whole
wait before it tries again, and so it never tries more often than once a second. -/
theorem dial_loop_paced {device : DeviceInfo} {τ : List (Transition (Manager D P) (Action P))}
    (h : (system D P device).Run τ m) {i : TaskId} {l : DialLoop} (hl : m.loops i = some l) :
    (∃ first, (first = 0 ∨ first = redialDelay) ∧ l.Paced first (paces i τ)) ∧
      ((paces i τ).filterMap Backoff.Pace.outcome).length ≤
        ((paces i τ).map Backoff.Pace.delay).sum + 1 := by
  obtain ⟨first, hf, hp⟩ := (Run.paced h i).2 l hl
  refine ⟨⟨first, hf, hp⟩, ?_⟩
  have := Backoff.tries_le_of_prefix dialBackoff hp.within
  simpa [dialBackoff, initialBackoff] using this

/-- A peer is found, and two attempts at it fail. -/
theorem dial_loop_paced_twice :
    ∃ (τ : List (Transition (Manager GrowSet GrowSet) (Action GrowSet)))
      (m : Manager GrowSet GrowSet) (first : Nat),
      paces 1 τ = [.tried false, .slept 1, .tried false] ∧
        (m.loops 1).any (fun l => decide (l.delay = 2 ∧ l.backoff = 4)) ∧
        paces 1 τ <+: dialBackoff.timeline first [false, false] := by
  let start : Manager GrowSet GrowSet := .new ⟨"a", "A"⟩ ⟨false, ∅, ∅⟩ []
  let peer : PeerInfo := ⟨"b", []⟩
  let acts : List (Action GrowSet) :=
    [.invoke 0 (.peerDiscovered peer), .call (.caller 0), .call (.caller 0), .dialTarget 1,
      .connectFailed 1, .dialWake 1, .dialTarget 1, .connectFailed 1]
  obtain ⟨m, hm, hp⟩ := System.exists_of_exec
    (show (System.exec Manager.step start acts).any
      (fun m => (m.loops 1).any fun l => decide (l.delay = 2 ∧ l.backoff = 4)) = true
      by decide +kernel)
  have hpaces : paces 1 (System.trace Manager.step start acts) =
      [.tried false, .slept 1, .tried false] := by decide +kernel
  obtain ⟨l, hl, -⟩ := (Option.any_eq_true _ _).mp hp
  obtain ⟨⟨first, -, hpaced⟩, -⟩ := dial_loop_paced (run_of_exec hm) hl
  refine ⟨_, m, first, hpaces, hp, ?_⟩
  have hwithin := hpaced.within
  rw [hpaces] at hwithin ⊢
  exact hwithin

section Announcements

variable {device : DeviceInfo} {τ : List (Transition (Manager D P) (Action P))} {e : EndId}

/-- Whether a step is the one that announces the connection `e`: its `try_announce`, with an
event sent. -/
def announces (e : EndId) (t : Transition (Manager D P) (Action P)) : Bool :=
  match t.act with
  | .tryAnnounce e' => decide (e' = e) && decide (t.pre.events.length < t.post.events.length)
  | _ => false

omit [Yrs D P] [DecidableEq P] in
theorem announces_of_ne {t : Transition (Manager D P) (Action P)} (h : t.act ≠ .tryAnnounce e) :
    announces e t = false := by
  obtain ⟨m, a, m'⟩ := t
  cases a with
  | tryAnnounce e' =>
    have hne : e' ≠ e := fun he => h (by rw [he])
    simp [announces, hne]
  | _ => rfl

/-- The announcement of a connection: the event, and the flag its task keeps. -/
theorem Step.announcement (h : m.Step (.tryAnnounce e) m') :
    ∃ t t', m.conns e = some t ∧ m'.conns e = some t' ∧ t.phase.everAnnounced = false ∧
      announces e ⟨m, .tryAnnounce e, m'⟩ = t'.phase.everAnnounced := by
  cases h with
  | @tryAnnounce _ t r reply ht hc hp =>
    refine ⟨t, ?_⟩
    rcases m.announce_cases e t r reply with ⟨-, heq⟩ | ⟨c, -, -, heq⟩ <;> rw [heq]
    · refine ⟨t.breakLoop r false, ht, by simp, by simp [hp, Phase.everAnnounced], ?_⟩
      simp [announces, Phase.everAnnounced, ConnTask.breakLoop]
    · refine ⟨_, ht, Function.update_self .., by simp [hp, Phase.everAnnounced], ?_⟩
      cases reply <;> simp [announces, ConnTask.replyOrSelect, Phase.everAnnounced]
  | dial _ hs | fan _ hs => cases hs

omit [DecidableEq P] in
/-- Every other step leaves the flag of a connection as it is. -/
theorem ConnStep.announced_eq {o o' : Option (ConnTask P)} (h : m.ConnStep e a o o')
    (ha : a ≠ .tryAnnounce e) :
    o'.any (·.phase.everAnnounced) = o.any (·.phase.everAnnounced) := by
  cases h with
  | idle | hungUp | queued => rfl
  | accepted | dialed => rfl
  | moved hc hs => exact hs.everAnnounced
  | fetched hp | refused hp | entered hp | step1 hp | rejected hp | finished hp =>
    simp [hp, Phase.everAnnounced, ConnTask.breakLoop]
  | @handled _ _ b _ _ reply hp =>
    cases b <;> cases reply <;> simp [hp, Phase.everAnnounced, ConnTask.replyOrSelect]
  | announced | unannounced => exact absurd rfl ha

/-- A connection is announced at most once, and its task knows. -/
theorem Run.announced (h : (system D P device).Run τ m) (e : EndId) :
    τ.countP (announces e) = if (m.conns e).any (·.phase.everAnnounced) then 1 else 0 := by
  refine h.history (I := fun τ m =>
    τ.countP (announces e) = if (m.conns e).any (·.phase.everAnnounced) then 1 else 0) ?_ ?_
  · rintro m ⟨trust, rooms, rfl⟩
    simp [(new_bare device trust rooms).conns]
  · intro τ m a m' _ ih hstep
    have hs := step_cases hstep
    rw [List.countP_append, List.countP_singleton, ih]
    by_cases ha : a = .tryAnnounce e
    · subst ha
      obtain ⟨t, t', ht, ht', hflag, heq⟩ := hs.announcement
      simp [ht, ht', hflag, heq]
    · rw [announces_of_ne ha, (hs.connStep e).announced_eq ha]
      simp

/-- `run_connection` returns Established exactly if the connection was announced, which it is
once at most; so only an announced connection resets the backoff of its dial loop. -/
theorem established_iff_announced (h : (system D P device).Run τ m) {t : ConnTask P}
    {outcome : ConnectionOutcome} (ht : m.conns e = some t) (hp : t.phase = .ended outcome) :
    τ.countP (announces e) = if outcome = .established then 1 else 0 := by
  have := Run.announced h e
  cases outcome <;> simpa [ht, hp, Phase.everAnnounced] using this

/-- A connection that was announced, and one whose peer speaks another version; both are over. -/
theorem established_iff_announced_once :
    ∃ (τ : List (Transition (Manager GrowSet GrowSet) (Action GrowSet)))
      (m : Manager GrowSet GrowSet) (e e' : EndId) (t t' : ConnTask GrowSet),
      (system GrowSet GrowSet ⟨"a", "A"⟩).Run τ m ∧
        m.conns e = some t ∧ t.phase = .ended .established ∧ τ.countP (announces e) = 1 ∧
        m.conns e' = some t' ∧ t'.phase = .ended .failed ∧ τ.countP (announces e') = 0 := by
  let e : EndId := ⟨0, false⟩
  let e' : EndId := ⟨1, false⟩
  let start : Manager GrowSet GrowSet := .new ⟨"a", "A"⟩ ⟨false, ∅, ∅⟩ []
  let acts : List (Action GrowSet) :=
    [.handleInbound e, .conn e (.recv (.frame (some (.hello ⟨"b", "B", 2, .devices⟩)))),
      .conn e (.sendHello ⟨"a", "A", 2, .devices⟩), .fetchDoc e, .register e, .sendStep1 e ∅,
      .conn e (.step1Sent true), .conn e (.recv (.frame (some (.syncStep2 ∅)))), .handleFrame e,
      .tryAnnounce e, .conn e .recvNone, .conn e .closed, .finishConnection e, .call (.conn e),
      .call (.conn e), .conn e .returned,
      .handleInbound e', .conn e' (.recv (.frame (some (.hello ⟨"c", "C", 1, .devices⟩)))),
      .conn e' (.sendHello ⟨"a", "A", 2, .devices⟩), .conn e' .closed]
  obtain ⟨m, hm, hp⟩ := System.exists_of_exec
    (show (System.exec Manager.step start acts).any (fun m =>
      ((m.conns e).any fun t => decide (t.phase = .ended .established)) &&
        (m.conns e').any fun t => decide (t.phase = .ended .failed)) = true by decide +kernel)
  simp only [Bool.and_eq_true, Option.any_eq_true, decide_eq_true_eq] at hp
  obtain ⟨⟨t, ht, hphase⟩, t', ht', hphase'⟩ := hp
  have hrun := run_of_exec hm
  exact ⟨_, m, e, e', t, t', hrun, ht, hphase, established_iff_announced hrun ht hphase, ht',
    hphase', established_iff_announced hrun ht' hphase'⟩

end Announcements

end Manager

end Yoink
