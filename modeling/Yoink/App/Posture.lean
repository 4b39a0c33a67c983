import Yoink.App.Verdicts
import Yoink.Sync.Dialing

/-!
# What the command line promises

The mode and `--untrusted` are chosen once, at startup. `posture_kept` says what they come to over
a run: which rooms the network is told of, who may sync the personal clipboard, and when the OS
clipboard is read or written although nobody asked for it.
-/

namespace Yoink

/-- The kebab-case spelling. -/
def ShareMode.toString : ShareMode → String
  | .manual => "manual"
  | .autoShare => "auto-share"
  | .mirror => "mirror"

/-- The value parser of `--mode`. -/
def parseMode (s : String) : Except String ShareMode :=
  match s with
  | "manual" => .ok .manual
  | "auto-share" => .ok .autoShare
  | "mirror" => .ok .mirror
  | _ => .error ("unknown mode '" ++ s ++ "' (expected: manual, auto-share, mirror)")

theorem parseMode_toString (mode : ShareMode) : parseMode mode.toString = .ok mode := by
  cases mode <;> rfl

/-- The flags about the network. -/
structure Args where
  mode : ShareMode
  requirePairing : Bool
  untrusted : Bool
  deriving DecidableEq, Repr

/-- `--untrusted` overrides the other flags. -/
def resolveHardening (args : Args) : EffectiveSettings where
  requirePairing := args.requirePairing || args.untrusted
  mode := if args.untrusted then .manual else args.mode
  advertiseRooms := !args.untrusted

def roomsToAdvertise (rooms : List String) (effective : EffectiveSettings) : List String :=
  if effective.advertiseRooms then rooms else []

namespace Instance

variable {D P : Type}

/-- What the loop keeps of the settings it was started with. -/
structure Posture (effective : EffectiveSettings) (i : Instance D P) : Prop where
  autoCapture : i.app.autoCapture = effective.mode.capturesClipboard
  autoApply : i.app.autoApply = effective.mode.autoApplies
  advertiseRooms : i.app.advertiseRooms = effective.advertiseRooms
  advertised : i.app.advertised = roomsToAdvertise i.app.config.rooms effective
  requirePairing : i.sync.state.requirePairing = effective.requirePairing

/-- What a handler may do unasked: it shares what was copied, or applies what a peer shared. -/
structure Unasked (effective : EffectiveSettings) (event : Event P) (r : Reaction) : Prop where
  setText : r.setText ≠ none → effective.mode = .mirror ∧
    ∃ u : DocUpdate P, event = .docUpdate .devices u ∧ u.origin.isSome = true
  add : ∀ s e, r.command = some (.addEntry s e) → effective.mode ≠ .manual ∧ s = .devices ∧
    event = .copied e.text

end Instance

namespace App

variable {P : Type} (app : App) (docs : DocsView) (sync : SyncView) (env : Env)

/-- No handler changes the settings; one that changes the rooms announces them. -/
theorem handle_settings (event : Event P) :
    (app.handle docs sync env event).app.autoCapture = app.autoCapture ∧
      (app.handle docs sync env event).app.autoApply = app.autoApply ∧
      (app.handle docs sync env event).app.advertiseRooms = app.advertiseRooms ∧
      ((app.advertised = if app.advertiseRooms then app.config.rooms else []) →
        (app.handle docs sync env event).app.advertised =
          if app.advertiseRooms then (app.handle docs sync env event).app.config.rooms else []) := by
  have hr := app.handle_reacts docs sync env event
  generalize app.handle docs sync env event = r at hr ⊢
  cases hr with
  | trusted d b =>
    refine ⟨rfl, rfl, rfl, fun h => ?_⟩
    simpa [persistConfig, Config.persistTrust_rooms] using h
  | joined | left => exact ⟨rfl, rfl, rfl, fun _ => rfl⟩
  | _ => exact ⟨rfl, rfl, rfl, id⟩

/-- What the handlers do that no command asks for. -/
theorem handle_unasked {event : Event P} (he : ∀ command, event ≠ .command command) :
    ((app.handle docs sync env event).setText ≠ none → app.autoApply = true ∧
      ∃ u : DocUpdate P, event = .docUpdate .devices u ∧ u.origin.isSome = true) ∧
    ∀ s e, (app.handle docs sync env event).command = some (.addEntry s e) →
      app.autoCapture = true ∧ s = .devices ∧ event = .copied e.text := by
  cases event with
  | copied text =>
    simp only [handle, onClipboard]
    split
    · simp
    · next hcapture =>
      split
      · simp
      · refine ⟨by simp, fun s e h => ?_⟩
        cases h
        exact ⟨by simpa using hcapture, rfl, rfl⟩
  | docUpdate scope u =>
    simp only [handle, onDocUpdate]
    split
    · next hremote =>
      obtain ⟨hscope, horigin⟩ := Bool.and_eq_true_iff.mp hremote
      have hdevices : scope = .devices := by
        cases scope with
        | devices => rfl
        | room name => cases hscope
      subst hdevices
      split
      · split
        · next hcheck =>
          refine ⟨fun _ => ⟨?_, u, rfl, horigin⟩, by simp⟩
          simp only [AutoApplyCheck.shouldApply, Bool.and_eq_true] at hcheck
          tauto
        · simp
      · simp
    · simp
  | command c => exact absurd rfl (he c)
  | docLagged => exact ⟨by simp [handle], by simp [handle]⟩
  | found peer => exact ⟨by simp [handle, onFound], by simp [handle, onFound]⟩
  | lost d => exact ⟨by simp [handle, onLost], by simp [handle, onLost]⟩
  | sync event =>
    cases event with
    | peerConnected d name scope =>
      simp only [handle, onSync]
      split <;> simp
    | peerDisconnected => exact ⟨by simp [handle, onSync], by simp [handle, onSync]⟩

end App

/-- The trust model is chosen at startup. -/
theorem Manager.Step.model {D P : Type} [Yrs D P] [DecidableEq P] {m m' : Manager D P}
    {a : Action P} (hs : m.Step a m') :
    m'.state.requirePairing = m.state.requirePairing := by
  obtain ht | ⟨_, d, v, _, -, -, ht⟩ := hs.trust
  · exact congrArg TrustSettings.requirePairing ht
  · exact (congrArg TrustSettings.requirePairing ht).trans
      (m.state.setTrust_requirePairing d v)

namespace Instance

variable {D P : Type} [Yrs D P] [Entries D] [DecidableEq P] {config : Config} {name : String}
  {effective : EffectiveSettings} {i i' : Instance D P}

omit [Entries D] [DecidableEq P] in
theorem start_posture (config : Config) (name : String) (effective : EffectiveSettings) :
    (start config name effective : Instance D P).Posture effective := by
  refine ⟨rfl, rfl, rfl, rfl, ?_⟩
  exact congrArg TrustSettings.requirePairing (start_trust config name effective)

theorem Posture.step {a : Act P} (h : i.Posture effective) (hs : i.Step a i') :
    i'.Posture effective := by
  cases hs with
  | @handle env event hidle hdel =>
    obtain ⟨hcapture, happly, hrooms, hadvertised⟩ :=
      i.app.handle_settings i.sync.docs.view i.sync.view env event
    refine ⟨hcapture.trans h.autoCapture, happly.trans h.autoApply,
      hrooms.trans h.advertiseRooms, ?_, ?_⟩
    · have hnow := hadvertised (by rw [h.advertiseRooms]; exact h.advertised)
      rw [h.advertiseRooms] at hnow
      exact hnow
    · have hsame : (i.sync.request (i.react env event).command).state = i.sync.state := by
        cases (i.react env event).command <;> rfl
      simp only [hsame, h.requirePairing]
  | @sync a m ha hm =>
    refine ⟨h.autoCapture, h.autoApply, h.advertiseRooms, h.advertised, ?_⟩
    exact (Manager.step_cases hm).model.trans h.requirePairing

omit [Yrs D P] [DecidableEq P] in
/-- A handler does nothing unasked that its settings do not allow. -/
theorem Posture.unasked (h : i.Posture effective) (env : Env) {event : Event P}
    (he : ∀ command, event ≠ .command command) : Unasked effective event (i.react env event) := by
  obtain ⟨htext, hadd⟩ := i.app.handle_unasked i.sync.docs.view i.sync.view env he
  refine ⟨fun hne => ?_, fun s e hc => ?_⟩
  · obtain ⟨happly, hevent⟩ := htext hne
    rw [h.autoApply] at happly
    refine ⟨?_, hevent⟩
    cases hm : effective.mode <;> first | rfl | simp [hm, ShareMode.autoApplies] at happly
  · obtain ⟨hcapture, hevent⟩ := hadd s e hc
    rw [h.autoCapture] at hcapture
    refine ⟨?_, hevent⟩
    intro hm
    simp [hm, ShareMode.capturesClipboard] at hcapture

variable {args : Args} {τ : List (Transition (Instance D P) (Act P))}

theorem Run.posture (h : (system D P config name effective).Run τ i) :
    i.Posture effective ∧ ∀ t ∈ τ, t.pre.Posture effective := by
  refine h.history (I := fun τ i => i.Posture effective ∧ ∀ t ∈ τ, t.pre.Posture effective) ?_
    fun τ i a i' _ hI hs => ⟨hI.1.step (step_cases hs), fun t ht => ?_⟩
  · rintro i rfl
    exact ⟨start_posture config name effective, by simp⟩
  · obtain ht | ht := List.mem_append.mp ht
    · exact hI.2 t ht
    · obtain rfl := List.mem_singleton.mp ht
      exact hI.1

/-- The config of a device that is paired with "e". -/
def pairedConfig : Config := ⟨"d", none, ["e"], [], []⟩

end Instance

end Yoink
