import Yoink.App.Loop
import Yoink.App.Presence

/-!
# Trust verdicts

The verdict about a device is kept twice, in the lists of the sync manager and in those of the
config, and read in three places: by the manager, in the UI state and at the next start. Between
two events all of them give the last verdict the user gave.
-/

namespace Yoink

variable {D P : Type}

namespace Config

/-- The settings a start under the given model seeds sync with. -/
def trust (config : Config) (requirePairing : Bool) : TrustSettings :=
  ⟨requirePairing, config.allowed.toFinset, config.blocked.toFinset⟩

/-- The persisted list of the model that is not active. -/
def inactive (config : Config) (requirePairing : Bool) : List DeviceId :=
  if requirePairing then config.blocked else config.allowed

/-- What is persisted decides the verdict. -/
theorem trust_persistTrust (config : Config) (requirePairing : Bool) (d : DeviceId) (b : Bool) :
    (config.persistTrust requirePairing d b).trust requirePairing =
      (config.trust requirePairing).set d b := by
  have hadd (list : List DeviceId) :
      (if d ∈ list then list else list ++ [d]).toFinset = insert d list.toFinset := by
    ext x
    split_ifs with hd
    · simp only [List.mem_toFinset, Finset.mem_insert]
      exact ⟨.inr, fun hx => hx.elim (· ▸ hd) id⟩
    · simp
  have hdrop (list : List DeviceId) :
      (list.filter (· ≠ d)).toFinset = list.toFinset.erase d := by
    rw [List.toFinset_filter, ← Finset.filter_ne']
    simp
  cases requirePairing <;> cases b <;>
    simp only [persistTrust, trust, TrustSettings.set, hadd, hdrop, reduceCtorEq, if_true, if_false,
      Bool.false_eq_true]

theorem inactive_persistTrust (config : Config) (requirePairing : Bool) (d : DeviceId) (b : Bool) :
    (config.persistTrust requirePairing d b).inactive requirePairing =
      config.inactive requirePairing := by
  cases requirePairing <;> rfl

theorem trust_congr {config config' : Config} (ha : config'.allowed = config.allowed)
    (hb : config'.blocked = config.blocked) (requirePairing : Bool) :
    config'.trust requirePairing = config.trust requirePairing ∧
      config'.inactive requirePairing = config.inactive requirePairing := by
  simp [trust, inactive, ha, hb]

end Config

/-- What an event decides about a device. -/
def Event.verdict (deviceId : DeviceId) : Event P → Option Bool
  | .command (.setDeviceTrusted d trusted) => if d = deviceId then some trusted else none
  | _ => none

namespace App

/-- Only a verdict edits the lists. -/
theorem handle_lists (app : App) (docs : DocsView) (sync : SyncView) (env : Env) (event : Event P)
    (h : ∀ d b, event ≠ .command (.setDeviceTrusted d b)) :
    (app.handle docs sync env event).app.config.allowed = app.config.allowed ∧
      (app.handle docs sync env event).app.config.blocked = app.config.blocked := by
  have hr := app.handle_reacts docs sync env event
  generalize app.handle docs sync env event = r at hr ⊢
  cases hr with
  | trusted d b => exact absurd rfl (h d b)
  | joined => exact app.config.insertRoom_lists _
  | _ => exact ⟨rfl, rfl⟩

end App

namespace Instance

/-- The verdicts the user gave about a device, in order. -/
def verdicts (τ : List (Transition (Instance D P) (Act P))) (d : DeviceId) : List Bool :=
  (handled τ).filterMap (·.verdict d)

/-- The config gives the last verdicts, and so will the manager. -/
structure Decided (config : Config) (requirePairing : Bool)
    (τ : List (Transition (Instance D P) (Act P))) (i : Instance D P) : Prop where
  settled : i.sync.settle Call.onTrust i.sync.state.trust = i.app.config.trust requirePairing
  last : ∀ d, (i.app.config.trust requirePairing).trusts d =
    (verdicts τ d).getLast?.getD ((config.trust requirePairing).trusts d)
  inactive : i.app.config.inactive requirePairing = config.inactive requirePairing

section Invariant

variable {config : Config} {requirePairing : Bool}
  {τ : List (Transition (Instance D P) (Act P))} {i : Instance D P}

theorem Decided.trust_eq (h : Decided config requirePairing τ i) (hidle : i.Idle) :
    i.sync.state.trust = i.app.config.trust requirePairing :=
  (Manager.settle_idle hidle _ _).symm.trans h.settled

theorem verdicts_handle (τ : List (Transition (Instance D P) (Act P))) (i' : Instance D P)
    (env : Env) (event : Event P) (d : DeviceId) :
    verdicts (τ ++ [⟨i, .handle env event, i'⟩]) d =
      verdicts τ d ++ (event.verdict d).toList := by
  rw [verdicts, handled, List.filterMap_append, List.filterMap_append]
  cases h : event.verdict d <;> simp [verdicts, handled, h]

variable [Yrs D P]

theorem Decided.sync [DecidableEq P] (h : Decided config requirePairing τ i) {a : Action P}
    {m : Manager D P} (hs : i.sync.Step a m) (ha : a.isInvoke = false) (ho : i.sync.AppOnly) :
    Decided config requirePairing (τ ++ [⟨i, .sync a, { i with sync := m }⟩])
      { i with sync := m } := by
  refine ⟨?_, fun d => ?_, h.inactive⟩
  · refine Eq.trans ?_ h.settled
    refine hs.settle_eq (fun m => m.state.trust) (fun _ _ _ => rfl) Manager.perform_trust
      (fun c hc v => ?_) ho ha fun hcall => ?_
    · obtain hq | ⟨d, b, rfl, -⟩ := c.onTrust_cases v
      · exact hq
      · obtain he | ⟨_, _, he⟩ := hc <;> cases he
    · exact hs.trust.resolve_right fun ⟨t, _, _, _, ht, _⟩ => hcall t ht
  · rw [verdicts, handled_sync]
    exact h.last d

omit [Yrs D P] in
theorem Decided.handle [Entries D] (h : Decided config requirePairing τ i) (hidle : i.Idle)
    {env : Env} {event : Event P} {i' : Instance D P} (happ : i'.app = (i.react env event).app)
    (hsync : i'.sync = i.sync.request (i.react env event).command) :
    Decided config requirePairing (τ ++ [⟨i, .handle env event, i'⟩]) i' := by
  have htrust := h.trust_eq hidle
  have hstate : i'.sync.state = i.sync.state := by
    rw [hsync]
    cases (i.react env event).command <;> rfl
  by_cases hcmd : ∃ d b, event = .command (.setDeviceTrusted d b)
  · obtain ⟨d, b, rfl⟩ := hcmd
    have hrp : i.sync.state.requirePairing = requirePairing :=
      congrArg TrustSettings.requirePairing htrust
    have hconfig : i'.app.config = i.app.config.persistTrust requirePairing d b := by
      rw [happ, ← hrp]
      rfl
    have hset := i.app.config.trust_persistTrust requirePairing d b
    refine ⟨?_, fun d' => ?_, ?_⟩
    · rw [hconfig, hset, hstate, htrust, hsync]
      exact Manager.settle_request _ _ (.setTrusted d b)
    · rw [hconfig, hset, TrustSettings.trusts_set, verdicts_handle, h.last d']
      by_cases hd : d = d'
      · simp [Event.verdict, hd]
      · simp [Event.verdict, hd, Ne.symm hd]
    · rw [hconfig, Config.inactive_persistTrust, h.inactive]
  · have hne (d) (b) : event ≠ .command (.setDeviceTrusted d b) := fun he => hcmd ⟨d, b, he⟩
    obtain ⟨ha, hb⟩ := i.app.handle_lists i.sync.docs.view i.sync.view env event hne
    obtain ⟨hlists, hinactive⟩ := Config.trust_congr ha hb requirePairing
    have happ : i'.app = (i.app.handle i.sync.docs.view i.sync.view env event).app := happ
    rw [← happ] at hlists hinactive
    refine ⟨?_, fun d => ?_, hinactive.trans h.inactive⟩
    · rw [hlists, hstate, ← htrust, hsync]
      cases hc : (i.react env event).command with
      | none => exact Manager.settle_idle hidle _ _
      | some command =>
        rw [Manager.settle_request]
        refine Manager.foldl_quiet (fun c hmem v => ?_) _
        obtain hq | ⟨d, b, rfl, -⟩ := c.onTrust_cases v
        · exact hq
        · exact absurd (App.handle_setTrusted hc hmem) (hne d b)
    · have hnone : event.verdict d = none := by
        cases event with
        | command command =>
          cases command with
          | setDeviceTrusted d b => exact absurd rfl (hne d b)
          | _ => rfl
        | _ => rfl
      rw [hlists, verdicts_handle, hnone, Option.toList_none, List.append_nil]
      exact h.last d

end Invariant

section Runs

variable [Yrs D P] [Entries D] [DecidableEq P] {config : Config} {name : String}
  {settings : EffectiveSettings}

omit [Entries D] [DecidableEq P] in
theorem start_trust (config : Config) (name : String) (settings : EffectiveSettings) :
    (start config name settings : Instance D P).sync.state.trust =
      config.trust settings.requirePairing := by
  rw [start_sync]
  refine Manager.new_induction (I := fun m => m.state.trust = _) rfl fun m name h => ?_
  exact (m.perform_trust (.joinRoom name)).trans h

theorem Run.decided {τ : List (Transition (Instance D P) (Act P))} {i : Instance D P}
    (h : (system D P config name settings).Run τ i) :
    Decided config settings.requirePairing τ i := by
  refine h.history (I := Decided config settings.requirePairing) ?_ fun τ i a i' hr hI hs => ?_
  · rintro i rfl
    refine ⟨?_, fun d => rfl, rfl⟩
    refine (Manager.settle_idle ?_ _ _).trans (start_trust config name settings)
    rw [start_sync, (Manager.new_bare _ _ _).calls]
  · cases step_cases hs with
    | handle hidle _ => exact hI.handle hidle rfl rfl
    | sync ha hm => exact hI.sync (Manager.step_cases hm) ha (Reachable.appOnly hr.reachable)

/-- The places that give a verdict about `d` all give this one. -/
structure OneVerdict (i : Instance D P) (requirePairing : Bool) (d : DeviceId)
    (verdict : Bool) : Prop where
  manager : i.sync.state.devicesTrusted d = verdict
  row : ∀ toLowercase ui scope order,
    ∀ row ∈ ((i.serverCtx ui).buildState toLowercase scope order).peers,
      row.id = d → row.trusted = verdict
  /-- A start under the same model, from the config as it is now. -/
  restart : ∀ name settings, settings.requirePairing = requirePairing →
    (start i.app.config name settings : Instance D P).sync.state.devicesTrusted d = verdict

/-- Between two events, the last verdict given about a device is the verdict everywhere, and the
lists of the inactive model are as they were at the start. -/
theorem one_verdict {τ : List (Transition (Instance D P) (Act P))} {i : Instance D P}
    (h : (system D P config name settings).Run τ i) (hidle : i.Idle) :
    let first : Instance D P := start config name settings
    (∀ d, i.OneVerdict settings.requirePairing d
      ((verdicts τ d).getLast?.getD (first.sync.state.devicesTrusted d))) ∧
    i.sync.state.trust.inactive = first.sync.state.trust.inactive ∧
    i.app.config.inactive settings.requirePairing =
      config.inactive settings.requirePairing := by
  intro first
  have hdecided := Run.decided h
  have htrust := hdecided.trust_eq hidle
  have hfirst : first.sync.state.trust = config.trust settings.requirePairing :=
    start_trust config name settings
  refine ⟨fun d => ?_, ?_, hdecided.inactive⟩
  · have hlast := hdecided.last d
    rw [← hfirst, ← State.devicesTrusted_eq] at hlast
    have hmanager : i.sync.state.devicesTrusted d =
        (verdicts τ d).getLast?.getD (first.sync.state.devicesTrusted d) := by
      rw [State.devicesTrusted_eq, htrust, hlast]
    refine ⟨hmanager, fun toLowercase ui scope order row hrow hd => ?_, fun _ _ hm => ?_⟩
    · rw [← hmanager, ← hd]
      exact (i.serverCtx ui).row_trusted toLowercase scope order hrow
    · rw [State.devicesTrusted_eq, start_trust, hm, hlast]
  · have hinactive (config : Config) (b : Bool) :
        (config.trust b).inactive = (config.inactive b).toFinset := by cases b <;> rfl
    rw [htrust, hfirst, hinactive, hinactive, hdecided.inactive]

end Runs

/-- A device that is blocked twice over in the config is trusted, another one blocked. -/
theorem one_verdict_unblocked :
    ∃ i : Instance EntryLog EntryLog, i.app.config.blocked = ["c"] ∧
      i.OneVerdict false "b" true ∧ i.OneVerdict false "c" false := by
  let config : Config := ⟨"z", none, ["b"], ["b", "b"], []⟩
  let first : Instance EntryLog EntryLog := start config "Z" ⟨false, .manual, true⟩
  let acts : List (Act EntryLog) :=
    [.handle ⟨0, "e", true⟩ (.command (.setDeviceTrusted "b" true)), .sync (.call (.caller 0)),
      .sync (.call (.caller 0)), .handle ⟨0, "e", true⟩ (.command (.setDeviceTrusted "c" false)),
      .sync (.call (.caller 0))]
  obtain ⟨i, hi, hp⟩ := System.exists_of_exec
    (show (System.exec step first acts).any (fun i =>
      decide (i.Idle ∧ i.app.config.blocked = ["c"])) = true by decide +kernel)
  obtain ⟨hidle, hblocked⟩ := of_decide_eq_true hp
  have hverdict {d : DeviceId} {b : Bool}
      (h : verdicts (System.trace step first acts) d = [b]) : i.OneVerdict false d b := by
    have hone := (one_verdict (run_of_exec hi) hidle).1 d
    rwa [show verdicts (System.trace step (start config "Z" ⟨false, .manual, true⟩) acts) d = [b]
      from h] at hone
  exact ⟨i, hblocked, hverdict (by decide +kernel), hverdict (by decide +kernel)⟩

end Instance

end Yoink
