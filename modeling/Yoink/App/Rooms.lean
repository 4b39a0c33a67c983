import Yoink.App.Instance
import Yoink.Core.GrowSet

/-!
# One set of joined rooms

Six structures keep the joined rooms. The app's own three change with the handler; the
manager's and the document set follow call by call. `settled` is what they will be once
the calls that are left have been made, and that agrees with the app at every moment.
-/

namespace Yoink

variable {D P : Type}

/-- The rooms as the manager and the document set have them. -/
@[ext]
structure RoomViews where
  joined : Set String
  docs : Set String
  fanOuts : Set String

namespace RoomViews

/-- All three are `s`. -/
def all (s : Set String) : RoomViews := ⟨s, s, s⟩

end RoomViews

open scoped Classical in
/-- What a call does to the rooms. -/
noncomputable def Call.onRooms : Call → RoomViews → RoomViews
  | .docsGetOrCreate (.room name), v => { v with docs := insert name v.docs }
  | .docsRemove (.room name), v => { v with docs := v.docs \ {name} }
  | .joinRoom name, v =>
    if Canonical name ∧ name ∉ v.joined then
      ⟨insert name v.joined, insert name v.docs, insert name v.fanOuts⟩
    else v
  | .leaveRoom name, v =>
    if name ∈ v.joined then { v with joined := v.joined \ {name}, fanOuts := v.fanOuts \ {name} }
    else v
  | _, v => v

/-- A call that leaves the rooms alone. -/
def Call.Roomless (c : Call) : Prop := ∀ v, c.onRooms v = v

theorem Call.roomless_of_isEffect {c : Call} (h : c.isEffect = true ∨ ∃ k g, c = .forceClose k g) :
    c.Roomless := by
  obtain h | ⟨k, g, rfl⟩ := h
  · cases c <;> simp only [Call.isEffect, Bool.false_eq_true] at h <;> exact fun _ => rfl
  · exact fun _ => rfl

section Views

variable {s : Set String} {name : String}

/-- Joining a room whose document was just created. -/
theorem join_calls (hc : Canonical name) (hn : name ∉ s) :
    [Call.docsGetOrCreate (.room name), .joinRoom name].foldl (fun v c => c.onRooms v) (.all s) =
      .all (insert name s) := by
  simp [Call.onRooms, RoomViews.all, hc, hn]

theorem leave_calls (hn : name ∈ s) :
    [Call.leaveRoom name, .docsRemove (.room name)].foldl (fun v c => c.onRooms v) (.all s) =
      .all (s \ {name}) := by
  simp [Call.onRooms, RoomViews.all, hn]

theorem joinRoom_all (hc : Canonical name) :
    (Call.joinRoom name).onRooms (.all s) = .all (insert name s) := by
  by_cases hn : name ∈ s
  · simp [Call.onRooms, RoomViews.all, hn]
  · simp [Call.onRooms, RoomViews.all, hc, hn]

end Views

namespace Manager

def roomViews (m : Manager D P) : RoomViews where
  joined := {name | name ∈ m.state.joined}
  docs := {name | Scope.room name ∈ m.docs.set.rooms}
  fanOuts := {name | Scope.room name ∈ m.state.fanOuts}

/-- The rooms once the app's calls have been made. -/
noncomputable def settled (m : Manager D P) : RoomViews :=
  (m.calls (.caller 0)).foldl (fun v c => c.onRooms v) m.roomViews

theorem roomViews_congr {m m' : Manager D P} (hd : m'.docs.set = m.docs.set)
    (hj : m'.state.joined = m.state.joined) (hf : m'.state.fanOuts = m.state.fanOuts) :
    m'.roomViews = m.roomViews := by
  simp [roomViews, hd, hj, hf]

section Step

variable [Yrs D P]

omit [Yrs D P] in
theorem mem_rooms_iff (docs : Docs D) (name : String) :
    Scope.room name ∈ docs.set.rooms ↔ docs.get (.room name) ≠ none := by
  rw [← AList.lookup_isSome, Option.isSome_iff_ne_none]
  rfl

theorem mem_getOrCreate (docs : Docs D) (scope : Scope) (name : String) :
    Scope.room name ∈ (docs.getOrCreate scope).1.set.rooms ↔
      scope = .room name ∨ Scope.room name ∈ docs.set.rooms := by
  rw [mem_rooms_iff, mem_rooms_iff]
  by_cases hs : scope = .room name
  · subst hs
    simp [docs.getOrCreate_get]
  · rw [docs.getOrCreate_get_ne (Ne.symm hs)]
    simp [hs]

omit [Yrs D P] in
theorem mem_remove (docs : Docs D) (scope : Scope) (name : String) :
    Scope.room name ∈ (docs.remove scope).set.rooms ↔
      Scope.room name ∈ docs.set.rooms ∧ scope ≠ .room name := by
  rw [mem_rooms_iff, mem_rooms_iff, docs.get_remove]
  by_cases hs : scope = .room name
  · simp [hs]
  · simp [hs, Ne.symm hs]

theorem perform_roomViews (m : Manager D P) (c : Call) :
    (m.perform c).1.roomViews = c.onRooms m.roomViews := by
  cases c with
  | docsGetOrCreate scope =>
    cases scope with
    | devices => rfl
    | room name =>
      ext n <;> simp [perform, roomViews, Call.onRooms, mem_getOrCreate, eq_comm]
  | docsRemove scope =>
    cases scope with
    | devices => rfl
    | room name =>
      ext n <;> simp [perform, roomViews, Call.onRooms, mem_remove, eq_comm]
  | joinRoom name =>
    obtain h | ⟨hc, hn, h, -⟩ := m.joinRoom_cases name
    · -- The manager ignores the call.
      have hj : ¬ (Canonical name ∧ name ∉ m.state.joined) := fun hj => by
        simpa [joinRoom, hj.1, hj.2, spawnFanOut] using congrArg (fun p => p.1.spawned) h
      simp only [perform, h, Call.onRooms]
      exact (if_neg hj).symm
    · simp only [perform, h, Call.onRooms]
      rw [if_pos ⟨hc, hn⟩]
      ext n <;> simp [roomViews, mem_getOrCreate, eq_comm]
  | leaveRoom name =>
    by_cases hn : name ∈ m.state.joined
    · have hfan (n : String) : Scope.room n ∈ (m.state.leaveRoom name).1.fanOuts ↔
          Scope.room n ∈ m.state.fanOuts ∧ n ≠ name := by
        rw [← AList.lookup_isSome, State.leaveRoom_fanOuts, ← AList.lookup_isSome]
        by_cases heq : n = name <;> simp [hn, heq]
      have hv : name ∈ m.roomViews.joined := hn
      simp only [Call.onRooms]
      rw [if_pos hv]
      ext n <;> simp [perform, roomViews, State.leaveRoom_joined, hfan, and_comm]
    · have hv : name ∉ m.roomViews.joined := hn
      simp only [Call.onRooms]
      rw [if_neg hv]
      simp only [perform, State.leaveRoom, if_neg hn]
      rfl
  | maybeSpawnDialer d s n =>
    obtain h | ⟨-, -, h⟩ := m.maybeSpawnDialer_cases d s n <;> simp only [perform, h] <;> rfl
  | addEntry scope entry =>
    cases hg : m.docs.get scope <;> simp only [perform, hg, commit_eq] <;> rfl
  | setTrusted d b =>
    obtain ⟨_, _, h⟩ := m.state.setTrusted_eq d b
    exact roomViews_congr rfl (by simp [perform, h]) (by simp [perform, h])
  | forceClose key g =>
    obtain ⟨_, h⟩ := m.state.forceClose_eq key g
    simp only [perform, h]
    rfl
  | peerDiscovered peer =>
    obtain ⟨_, h⟩ := m.state.peerDiscovered_eq m.device.id peer
    simp only [perform, h]
    rfl
  | peerLost d => rfl
  | emit event => rfl
  | hangup e => simp only [perform, signalHangup_eq]; rfl
  | cancelDialer l => simp only [perform, cancelLoop_eq]; rfl
  | dropFanOut f => simp only [perform, cancelFan_eq]; rfl

variable [DecidableEq P]

/-- No step but the start of an operation changes what the rooms will be. -/
theorem settled_step {m m' : Manager D P} {a : Action P} (hs : m.Step a m')
    (ho : m.AppOnly) (ha : a.isInvoke = false) : m'.settled = m.settled := by
  refine hs.settle_eq roomViews (fun _ _ _ => rfl) perform_roomViews
    (fun c hc => Call.roomless_of_isEffect hc) ho ha fun hcall => ?_
  cases hs.roomStep with
  | quiet hd _ hj hf => exact roomViews_congr hd hj hf
  | _ => exact absurd rfl (hcall _)

end Step

section Start

variable [Yrs D P]

theorem new_roomViews (device : DeviceInfo) (trust : TrustSettings) {rooms : List String}
    (hc : ∀ name ∈ rooms, Canonical name) :
    (Manager.new device trust rooms : Manager D P).roomViews = .all {name | name ∈ rooms} := by
  have key {rooms : List String} (hc : ∀ name ∈ rooms, Canonical name) {m : Manager D P}
      {s : Set String} (hm : m.roomViews = .all s) :
      (rooms.foldl (fun m name => (m.joinRoom name).1) m).roomViews =
        .all (s ∪ {name | name ∈ rooms}) := by
    induction rooms generalizing m s with
    | nil => simpa using hm
    | cons name rooms ih =>
      have hjoin : (m.joinRoom name).1.roomViews = .all (insert name s) := by
        rw [← joinRoom_all (hc name List.mem_cons_self), ← hm]
        exact m.perform_roomViews (.joinRoom name)
      rw [List.foldl_cons, ih (fun n hn => hc n (List.mem_cons_of_mem _ hn)) hjoin]
      congr 1
      ext n
      simp only [Set.mem_union, Set.mem_insert_iff, Set.mem_ofPred_eq, List.mem_cons]
      tauto
  have hbare : ((initial device trust).spawnFanOut .devices 0 : Manager D P).roomViews =
      .all ∅ := by
    ext n <;> simp [roomViews, spawnFanOut, initial, Docs.new, RoomViews.all, AList.mem_keys,
      AList.keys_singleton]
  rw [Manager.new, key hc hbare, Set.empty_union]

end Start

end Manager

namespace App

/-- What a handler does about rooms. -/
inductive RoomReaction (app : App) : Reaction → Prop where
  | quiet {r : Reaction} (hc : r.app.config.rooms = app.config.rooms)
      (hj : r.app.joinedRooms = app.joinedRooms) (hf : r.app.forwarders = app.forwarders)
      (hq : ∀ command ∈ r.command, ∀ c ∈ command.calls, c.Roomless) : RoomReaction app r
  | joined {raw name : String} {r : Reaction} (hs : sanitizeRoomName raw = some name)
      (hn : app.config.hasRoom name = false)
      (hc : r.app.config.rooms = (app.config.insertRoom name).rooms)
      (hj : r.app.joinedRooms = insert name app.joinedRooms)
      (hf : r.app.forwarders = insert (.room name) app.forwarders)
      (hr : r.command = some (.appJoinRoom raw)) : RoomReaction app r
  | left {raw name : String} {r : Reaction} (hs : sanitizeRoomName raw = some name)
      (hn : app.config.hasRoom name = true)
      (hc : r.app.config.rooms = (app.config.removeRoom name).rooms)
      (hj : r.app.joinedRooms = app.joinedRooms.erase name)
      (hf : r.app.forwarders = app.forwarders.erase (.room name))
      (hr : r.command = some (.appLeaveRoom raw)) : RoomReaction app r

theorem handle_rooms {P : Type} (app : App) (docs : DocsView) (sync : SyncView) (env : Env)
    (event : Event P) : app.RoomReaction (app.handle docs sync env event) := by
  have one {app' : App} {command : Command} {c : Call} {text : Option String}
      (hc : app'.config.rooms = app.config.rooms) (hj : app'.joinedRooms = app.joinedRooms)
      (hf : app'.forwarders = app.forwarders) (hcalls : command.calls = [c]) (hq : c.Roomless) :
      app.RoomReaction { app := app', command := some command, setText := text } := by
    refine .quiet hc hj hf fun command' h c' hc' => ?_
    obtain rfl := Option.some.inj h
    obtain rfl := List.mem_singleton.mp (hcalls ▸ hc')
    exact hq
  have h := app.handle_reacts docs sync env event
  generalize app.handle docs sync env event = r at h ⊢
  cases h with
  | nothing | applied | renamed | seeded => exact .quiet rfl rfl rfl nofun
  | add | found | lost => exact one rfl rfl rfl rfl fun _ => rfl
  | trusted => exact one (Config.persistTrust_rooms _ _ _ _) rfl rfl rfl fun _ => rfl
  | joined hs hn => exact .joined hs hn rfl rfl rfl rfl
  | left hs hn => exact .left hs hn rfl rfl rfl rfl

end App

namespace Instance

/-- At every moment the app's own rooms are what the manager's will be. -/
structure RoomsSettle (i : Instance D P) : Prop where
  rooms : RoomList i.app.config.rooms
  mirror : ∀ name, name ∈ i.app.joinedRooms ↔ name ∈ i.app.config.rooms
  forwarders : ∀ name, Scope.room name ∈ i.app.forwarders ↔ name ∈ i.app.config.rooms
  settled : i.sync.settled = .all {name | name ∈ i.app.config.rooms}

/-- Every view of the joined rooms is the persisted list, which is sorted and canonical. -/
structure RoomsAgree (i : Instance D P) : Prop where
  sorted : i.app.config.rooms.SortedLT
  canonical : ∀ name ∈ i.app.config.rooms, sanitizeRoomName name = some name
  joinedRooms : ∀ name, name ∈ i.app.joinedRooms ↔ name ∈ i.app.config.rooms
  joined : ∀ name, name ∈ i.sync.state.joined ↔ name ∈ i.app.config.rooms
  docs : ∀ name, Scope.room name ∈ i.sync.docs.set.rooms ↔ name ∈ i.app.config.rooms
  forwarders : ∀ name, Scope.room name ∈ i.app.forwarders ↔ name ∈ i.app.config.rooms
  fanOuts : ∀ name, Scope.room name ∈ i.sync.state.fanOuts ↔ name ∈ i.app.config.rooms

section Invariant

variable {i : Instance D P}

theorem settled_of_idle (h : i.Idle) : i.sync.settled = i.sync.roomViews :=
  Manager.settle_idle h _ _

theorem RoomsSettle.agree (h : i.RoomsSettle) (hidle : i.Idle) : i.RoomsAgree := by
  have hv := (settled_of_idle hidle).symm.trans h.settled
  refine ⟨h.rooms.sorted, h.rooms.canonical, h.mirror, fun name => ?_, fun name => ?_,
    h.forwarders, fun name => ?_⟩
  · exact Set.ext_iff.mp (congrArg RoomViews.joined hv) name
  · exact Set.ext_iff.mp (congrArg RoomViews.docs hv) name
  · exact Set.ext_iff.mp (congrArg RoomViews.fanOuts hv) name

variable [Yrs D P]

theorem start_roomsSettle (config : Config) (name : String) (settings : EffectiveSettings) :
    (start config name settings : Instance D P).RoomsSettle := by
  have hrooms := sanitizeRooms_roomList config.rooms
  have hsync := start_sync (D := D) (P := P) config name settings
  have hbare := Manager.new_bare (D := D) (P := P) ⟨config.deviceId, name⟩
    ⟨settings.requirePairing, config.allowed.toFinset, config.blocked.toFinset⟩
    (sanitizeRooms config.rooms)
  have hidle : (start config name settings : Instance D P).Idle := by
    rw [Idle, hsync, hbare.calls]
  refine ⟨hrooms, fun n => List.mem_toFinset, fun n => ?_, ?_⟩
  · show Scope.room n ∈ (wireScopes (sanitizeRooms config.rooms) : Docs D × Finset Scope).2 ↔ _
    rw [wireScopes_eq]
    simp [start]
  · rw [settled_of_idle hidle, hsync]
    exact Manager.new_roomViews _ _ hrooms.canonical

variable [Entries D] [DecidableEq P]

omit [Yrs D P] [Entries D] [DecidableEq P] in
/-- A handler changes the app's rooms and requests the calls that change the manager's alike. -/
theorem RoomsSettle.handle (h : i.RoomsSettle) (hidle : i.Idle) {r : Reaction} {n : Nat}
    {ds : Finset DeviceId} (hr : i.app.RoomReaction r) :
    RoomsSettle ⟨r.app, i.sync.request r.command, n, ds⟩ := by
  have hviews : i.sync.roomViews = .all {name | name ∈ i.app.config.rooms} :=
    (settled_of_idle hidle).symm.trans h.settled
  have hsettled {command : Command} : (i.sync.request (some command)).settled =
      command.calls.foldl (fun v c => c.onRooms v) i.sync.roomViews :=
    Manager.settle_request _ _ command
  cases hr with
  | quiet hc hj hf hq =>
    refine ⟨hc ▸ h.rooms, hc ▸ hj ▸ h.mirror, hc ▸ hf ▸ h.forwarders, ?_⟩
    simp only [hc]
    cases hcmd : r.command with
    | none => exact h.settled
    | some command => rw [hsettled, Manager.foldl_quiet (hq command hcmd), hviews]
  | @joined raw name _ hs hn hc hj hf hcmd =>
    have hcan := canonical_of_sanitize hs
    have hmem (n : String) : n ∈ r.app.config.rooms ↔ n = name ∨ n ∈ i.app.config.rooms := by
      rw [hc, Config.mem_insertRoom h.rooms.sorted]
    have hnot : name ∉ i.app.config.rooms := fun hin => by
      simp [(Config.hasRoom_iff h.rooms.sorted).mpr hin] at hn
    refine ⟨hc ▸ h.rooms.insertRoom hcan, fun n => ?_, fun n => ?_, ?_⟩
    · simp [hj, hmem, h.mirror]
    · simp [hf, hmem, h.forwarders]
    · rw [hcmd, hsettled, hviews]
      simp only [Command.calls, hs]
      rw [join_calls hcan hnot]
      exact congrArg RoomViews.all (Set.ext fun n => by simp [hmem])
  | @left raw name _ hs hn hc hj hf hcmd =>
    have hmem (n : String) : n ∈ r.app.config.rooms ↔ n ∈ i.app.config.rooms ∧ n ≠ name := by
      rw [hc, Config.mem_removeRoom]
    have hin : name ∈ i.app.config.rooms := (Config.hasRoom_iff h.rooms.sorted).mp hn
    refine ⟨hc ▸ h.rooms.removeRoom, fun n => ?_, fun n => ?_, ?_⟩
    · simp [hj, hmem, h.mirror, and_comm]
    · simp [hf, hmem, h.forwarders, and_comm]
    · rw [hcmd, hsettled, hviews]
      simp only [Command.calls, hs]
      rw [leave_calls hin]
      exact congrArg RoomViews.all (Set.ext fun n => by simp [hmem])

theorem RoomsSettle.step {i' : Instance D P} {a : Act P} (h : i.RoomsSettle)
    (ho : i.sync.AppOnly) (hs : i.Step a i') : i'.RoomsSettle := by
  cases hs with
  | @handle env event hidle hdel =>
    have hr : i.app.RoomReaction (i.react env event) := i.app.handle_rooms _ _ env event
    exact h.handle hidle hr
  | sync ha hm =>
    refine ⟨h.rooms, h.mirror, h.forwarders, ?_⟩
    exact (Manager.settled_step (Manager.step_cases hm) ho ha).trans h.settled

variable {config : Config} {name : String} {settings : EffectiveSettings}

/-- Whenever the loop is between two events, all views of the joined rooms agree. -/
theorem rooms_agree (h : (system D P config name settings).Reachable i) (hidle : i.Idle) :
    i.RoomsAgree := by
  refine RoomsSettle.agree ?_ hidle
  refine h.invariant (I := RoomsSettle) ?_ fun i a i' hr hI hs =>
    hI.step (Reachable.appOnly hr) (step_cases hs)
  rintro i rfl
  exact start_roomsSettle config name settings

end Invariant

/-- A hand-edited room list, a room joined under a raw name and one left under another. -/
theorem rooms_agree_edited :
    ∃ i : Instance EntryLog EntryLog, i.app.config.rooms = ["a", "my-room"] ∧ i.RoomsAgree := by
  let config : Config := ⟨"d", none, [], [], ["b b!", "A", "?", "b-b"]⟩
  let env : Env := ⟨0, "e", true⟩
  let acts : List (Act EntryLog) :=
    [.handle env (.command (.joinRoom "My Room")), .sync (.call (.caller 0)),
      .sync (.call (.caller 0)), .handle env (.command (.leaveRoom "B b")),
      .sync (.call (.caller 0)), .sync (.call (.caller 0)), .sync (.call (.caller 0))]
  obtain ⟨i, hi, hp⟩ := System.exists_of_exec
    (show (System.exec step (start config "D" ⟨false, .manual, true⟩) acts).any
      (fun i : Instance EntryLog EntryLog =>
        decide (i.app.config.rooms = ["a", "my-room"] ∧ i.Idle)) = true by decide +kernel)
  simp only [decide_eq_true_eq] at hp
  exact ⟨i, hp.1, rooms_agree (run_of_exec hi).reachable hp.2⟩

end Instance

end Yoink
