import Yoink.App.Saving
import Yoink.Core.GrowSet

/-!
# Starting, crashing and starting again

A machine keeps its config directory from one run of the program to the next. `load_or_init` reads
the file or, where there is none, writes a fresh config with a new device id; a file it cannot
parse is a hard error. A process may end at any system call and loses what it has in memory; the
disk stays, a half-written sibling included. Nobody else writes the directory.
-/

namespace Yoink

/-- What a start takes from outside: the id a first run would draw, the resolved device name and
the flags. -/
structure Launch where
  uuid : DeviceId
  name : String
  settings : EffectiveSettings
  deriving DecidableEq, Repr

/-- The config of a first run. -/
def Config.fresh (uuid : DeviceId) : Config := ⟨uuid, none, [], [], []⟩

/-- The config directory, and the process if there is one. -/
inductive Home where
  /-- No process. Without a file, `disk.file` names nothing. -/
  | off (disk : Disk UInt8) (present : Bool)
  /-- A first run saves its fresh config. -/
  | creating (disk : Disk UInt8) (launch : Launch) (writer : FileWriter UInt8)
  /-- The loop runs, or has ended and the process is about to. -/
  | on (saver : Saver)

namespace Home

inductive Act (P : Type) where
  | launch (l : Launch)
  /-- The next system call of the first save. -/
  | work
  /-- It fails. -/
  | fail
  /-- `load_or_init` returns to `main`. -/
  | loaded
  /-- A step of the loop or of one of its writes. -/
  | loop (a : Saver.Act P)
  /-- The process ends where it is: killed, or by an error of `main`. -/
  | crash
  /-- `run` has returned. -/
  | exit

variable {P : Type}

/-- `config.toml`, if it exists. -/
def file : Home → Option (List UInt8)
  | off disk present => if present then some disk.read else none
  | creating disk _ writer => if writer = .finished true then some disk.read else none
  | on s => some s.disk.read

/-- The config the process holds. -/
def config : Home → Option Config
  | off _ _ => none
  | creating _ l _ => some (.fresh l.uuid)
  | on s => some s.app.config

/-- The id the process shows to its peers. -/
def device : Home → Option DeviceId
  | on s => some s.app.device.id
  | _ => none

section Step

variable (D : Type) [Yrs D P] (serialize : Config → Option (List UInt8))
  (parse : List UInt8 → Option Config)

/-- `main` after `load_or_init`, up to the loop. -/
def begin (disk : Disk UInt8) (config : Config) (l : Launch) : Home :=
  .on (.ofInstance disk (Instance.start config l.name l.settings : Instance D P))

def step : Home → Act P → Option Home
  | .off disk present, .launch l =>
    if present then
      match parse disk.read with
      | some config => some (begin D disk config l)
      -- A corrupt file is a hard error; it is left as it is.
      | none => some (.off disk present)
    else some (.creating disk l .queued)
  | .creating disk l writer, .work =>
    if writer.isFinished then none
    else
      let next := writer.step (serialize (.fresh l.uuid)) disk
      some (.creating next.1 l next.2)
  | .creating disk l writer, .fail =>
    if writer.isFinished then none else some (.creating disk l (.finished false))
  | .creating disk l writer, .loaded =>
    match writer with
    | .finished ok =>
      if ok then some (begin D disk (.fresh l.uuid) l) else some (.off disk false)
    | _ => none
  | .on s, .loop a => (Saver.step serialize s a).map .on
  | .on s, .exit =>
    match s.phase with
    | .returned _ => some (.off s.disk true)
    | _ => none
  | .creating disk _ writer, .crash => some (.off disk (writer = .finished true))
  | .on s, .crash => some (.off s.disk true)
  | _, _ => none

end Step

/-- The life of a config directory, with a config file in it or without. -/
def lives (D : Type) [Yrs D P] (serialize : Config → Option (List UInt8))
    (parse : List UInt8 → Option Config) (disk : Disk UInt8) (present : Bool) :
    System Home (Act P) where
  init x := x = off disk present
  step x a x' := step D serialize parse x a = some x'

end Home

/-- A canonical room list is loaded as it is. -/
theorem RoomList.sanitizeRooms {rooms : List String} (h : RoomList rooms) :
    sanitizeRooms rooms = rooms := by
  have hsame : rooms.filterMap sanitizeRoomName = rooms := by
    conv_rhs => rw [← List.filterMap_some (l := rooms)]
    exact List.filterMap_congr fun name hname => h.canonical name hname
  rw [Yoink.sanitizeRooms, hsame, SortedList.sortDedup_of_sortedLT h.sorted]

/-- The room list of the config is in order, and names the rooms that are joined. -/
structure App.RoomsInOrder (app : App) : Prop where
  rooms : RoomList app.config.rooms
  joined : app.joinedRooms = app.config.rooms.toFinset

/-- What no handler changes about an app: who it is, and that its rooms are in order. -/
theorem App.handle_identity {P : Type} (app : App) (docs : DocsView) (sync : SyncView) (env : Env)
    (event : Event P) : (app.handle docs sync env event).app.device = app.device ∧
      (app.handle docs sync env event).app.config.deviceId = app.config.deviceId ∧
      (app.RoomsInOrder → (app.handle docs sync env event).app.RoomsInOrder) := by
  have h := app.handle_reacts docs sync env event
  generalize app.handle docs sync env event = r at h ⊢
  cases h with
  | trusted d b =>
    refine ⟨rfl, ?_, fun hrooms => ?_⟩
    · cases sync.requirePairing <;> simp [App.persistConfig, Config.persistTrust]
    · have hsame := Config.persistTrust_rooms app.config sync.requirePairing d b
      exact ⟨hsame ▸ hrooms.rooms, hrooms.joined.trans (congrArg _ hsame.symm)⟩
  | @joined raw name hs hn =>
    refine ⟨rfl, ?_, fun hrooms => ⟨hrooms.rooms.insertRoom (canonical_of_sanitize hs), ?_⟩⟩
    · simp only [App.announceRooms, App.persistConfig, Config.insertRoom]
      split <;> rfl
    · ext n
      have hmem : n ∈ (app.config.insertRoom name).rooms ↔ n = name ∨ n ∈ app.config.rooms :=
        Config.mem_insertRoom hrooms.rooms.sorted
      simp [App.announceRooms, App.persistConfig, hrooms.joined, hmem]
  | @left raw name hs hn =>
    refine ⟨rfl, rfl, fun hrooms => ⟨hrooms.rooms.removeRoom, ?_⟩⟩
    ext n
    have hmem : n ∈ (app.config.removeRoom name).rooms ↔ n ∈ app.config.rooms ∧ n ≠ name :=
      Config.mem_removeRoom
    simp [App.announceRooms, App.persistConfig, hrooms.joined, hmem, and_comm]
  | _ => exact ⟨rfl, rfl, fun hrooms => ⟨hrooms.rooms, hrooms.joined⟩⟩

namespace Saver

/-- A loop that runs under the id its file has, with its rooms in order. -/
structure Kept (parse : List UInt8 → Option Config) (s : Saver) : Prop where
  device : s.app.device.id = s.app.config.deviceId
  rooms : s.app.RoomsInOrder
  tasks : ∀ task ∈ s.tasks, task.config.deviceId = s.app.config.deviceId
  file : (parse s.disk.read).map (·.deviceId) = some s.app.config.deviceId

section Kept

variable {P : Type} {serialize : Config → Option (List UInt8)}
  {parse : List UInt8 → Option Config} {s s' : Saver} {a : Act P}

/-- What a step does to the file, to the writes and to the app. -/
structure Writes (parse : List UInt8 → Option Config) (s s' : Saver) : Prop where
  file : s'.disk.read = s.disk.read ∨ ∃ task ∈ s.tasks, parse s'.disk.read = some task.config
  tasks : ∀ task ∈ s'.tasks,
    (∃ task' ∈ s.tasks, task.config = task'.config) ∨ task.config = s.app.config
  device : s'.app.device = s.app.device
  deviceId : s'.app.config.deviceId = s.app.config.deviceId
  rooms : s.app.RoomsInOrder → s'.app.RoomsInOrder

theorem reap_app (s : Saver) : s.reap.app.device = s.app.device ∧
    s.reap.app.joinedRooms = s.app.joinedRooms := by
  unfold reap
  split
  · simp only
    split <;> exact ⟨rfl, rfl⟩
  · exact ⟨rfl, rfl⟩

/-- Nothing is written, and what is started saves the config of this moment. -/
theorem Writes.keep (hdisk : s'.disk = s.disk)
    (htasks : ∀ task ∈ s'.tasks, task ∈ s.tasks ∨ task.config = s.app.config)
    (happ : s'.app.device = s.app.device ∧ s'.app.joinedRooms = s.app.joinedRooms)
    (hconfig : s'.app.config = s.app.config) : Writes parse s s' where
  file := .inl (by rw [hdisk])
  tasks task ht := (htasks task ht).imp_left fun h => ⟨task, h, rfl⟩
  device := happ.1
  deviceId := by rw [hconfig]
  rooms h := ⟨by rw [hconfig]; exact h.rooms, by rw [happ.2, hconfig, h.joined]⟩

theorem Writes.progress {i : Nat} {task : SaveTask} (ht : s.tasks[i]? = some task)
    {disk : Disk UInt8} {writer : FileWriter UInt8}
    (hread : disk.read = s.disk.read ∨ parse disk.read = some task.config) :
    Writes parse s (s.progress i task disk writer) where
  file := hread.imp_right fun h => ⟨task, List.mem_of_getElem? ht, h⟩
  tasks task' ht' := by
    rcases List.mem_or_eq_of_mem_set ht' with ht' | rfl
    · exact .inl ⟨task', ht', rfl⟩
    · exact .inl ⟨task, List.mem_of_getElem? ht, rfl⟩
  device := rfl
  deviceId := rfl
  rooms := id

/-- A reaped state and a save of its config, if one is started. -/
theorem Writes.of_reap (h : s.Safe serialize parse) (hf : s.inFlight = false)
    (hdisk : s'.disk = s.reap.disk) (hdevice : s'.app.device = s.reap.app.device)
    (hjoined : s'.app.joinedRooms = s.reap.app.joinedRooms)
    (hconfig : s'.app.config = s.reap.app.config)
    (htasks : s'.tasks = s.reap.tasks ∨ s'.tasks = s.reap.tasks ++ [s.reap.saveTask]) :
    Writes parse s s' := by
  obtain ⟨-, -, -, hrconfig, hrtasks, hrdisk, -⟩ := h.reap hf
  refine .keep (hdisk.trans hrdisk) (fun task ht => ?_)
    ⟨hdevice.trans s.reap_app.1, hjoined.trans s.reap_app.2⟩ (hconfig.trans hrconfig)
  rcases htasks with heq | heq <;> rw [heq, hrtasks] at ht
  · exact .inl ht
  · rcases List.mem_append.mp ht with ht | ht
    · exact .inl ht
    · obtain rfl := List.mem_singleton.mp ht
      exact .inr hrconfig

theorem Step.writes (hs : Step serialize s a s') (h : s.Safe serialize parse)
    (hround : ∀ config raw, serialize config = some raw → parse raw = some config) :
    Writes parse s s' := by
  cases hs with
  | turn docs sync env event hp =>
    obtain ⟨hdevice, hid, hrooms⟩ := s.app.handle_identity docs sync env event
    exact ⟨.inl rfl, fun task ht => .inl ⟨task, ht, rfl⟩, hdevice, hid, hrooms⟩
  | tick hp =>
    unfold Saver.flushConfig
    split
    · exact .keep rfl (fun task ht => .inl ht) ⟨rfl, rfl⟩ rfl
    · rename_i hf
      simp only
      split
      · exact .of_reap h (by simpa using hf) rfl rfl rfl rfl (.inl rfl)
      · exact .of_reap h (by simpa using hf) rfl rfl rfl rfl (.inr rfl)
  | ctrlC hp => exact .keep rfl (fun task ht => .inl ht) ⟨rfl, rfl⟩ rfl
  | work ht hw => exact .progress ht ((h.reads hround ht hw).imp And.left And.left)
  | fail ht hw => exact .progress ht (.inl rfl)
  | settle hp hf =>
    unfold Saver.settle
    simp only
    split
    · exact .of_reap h hf rfl rfl rfl rfl (.inr rfl)
    · exact .of_reap h hf rfl rfl rfl rfl (.inl rfl)
  | finish hp ht hw => exact .keep rfl (fun task ht => .inl ht) ⟨rfl, rfl⟩ rfl

theorem Kept.step (hk : s.Kept parse) (hw : Writes parse s s') : s'.Kept parse where
  device := by rw [hw.device, hw.deviceId, hk.device]
  rooms := hw.rooms hk.rooms
  tasks task ht := by
    rw [hw.deviceId]
    rcases hw.tasks task ht with ⟨task', ht', heq⟩ | heq
    · rw [heq, hk.tasks task' ht']
    · rw [heq]
  file := by
    rw [hw.deviceId]
    rcases hw.file with heq | ⟨task, ht, heq⟩
    · rw [heq, hk.file]
    · rw [heq, Option.map_some, hk.tasks task ht]

end Kept

end Saver

namespace Home

variable {D P : Type} [Yrs D P] {serialize : Config → Option (List UInt8)}
  {parse : List UInt8 → Option Config} {disk : Disk UInt8} {present : Bool}

/-- What holds of a config directory and its process at any time. -/
def Good (serialize : Config → Option (List UInt8)) (parse : List UInt8 → Option Config) :
    Home → Prop
  | off disk _ => disk.Sound
  | creating disk l writer => disk.Sound ∧ writer.Owns (serialize (.fresh l.uuid)) disk ∧
      (writer = .finished true → parse disk.read = some (.fresh l.uuid))
  | on s => s.Safe serialize parse ∧ s.Kept parse

/-- The steps of a config directory and its process. -/
inductive Step (D : Type) [Yrs D P] (serialize : Config → Option (List UInt8))
    (parse : List UInt8 → Option Config) : Home → Act P → Home → Prop where
  | start {disk : Disk UInt8} {config : Config} (l : Launch) (hp : parse disk.read = some config) :
      Step D serialize parse (.off disk true) (.launch l) (begin D disk config l)
  | corrupt {disk : Disk UInt8} (l : Launch) (hp : parse disk.read = none) :
      Step D serialize parse (.off disk true) (.launch l) (.off disk true)
  | first {disk : Disk UInt8} (l : Launch) :
      Step D serialize parse (.off disk false) (.launch l) (.creating disk l .queued)
  | work {disk : Disk UInt8} {l : Launch} {writer : FileWriter UInt8}
      (hw : writer.isFinished = false) : Step D serialize parse (.creating disk l writer) .work
        (.creating (writer.step (serialize (.fresh l.uuid)) disk).1 l
          (writer.step (serialize (.fresh l.uuid)) disk).2)
  | fail {disk : Disk UInt8} {l : Launch} {writer : FileWriter UInt8}
      (hw : writer.isFinished = false) : Step D serialize parse (.creating disk l writer) .fail
        (.creating disk l (.finished false))
  | loaded {disk : Disk UInt8} {l : Launch} :
      Step D serialize parse (.creating disk l (.finished true)) .loaded
        (begin D disk (.fresh l.uuid) l)
  | refused {disk : Disk UInt8} {l : Launch} :
      Step D serialize parse (.creating disk l (.finished false)) .loaded (.off disk false)
  | loop {s s' : Saver} {a : Saver.Act P} (hs : Saver.Step serialize s a s') :
      Step D serialize parse (.on s) (.loop a) (.on s')
  | crashFirst {disk : Disk UInt8} {l : Launch} {writer : FileWriter UInt8} :
      Step D serialize parse (.creating disk l writer) .crash
        (.off disk (writer = .finished true))
  | stop {s : Saver} {a : Act P} : Step D serialize parse (.on s) a (.off s.disk true)

theorem step_cases {x x' : Home} {a : Act P} (h : step D serialize parse x a = some x') :
    Step D serialize parse x a x' := by
  cases x with
  | off disk present =>
    cases a with
    | launch l =>
      cases present with
      | false =>
        obtain rfl := Option.some.inj h
        exact .first l
      | true =>
        simp only [step, if_true] at h
        split at h <;> cases h
        · exact .start l ‹_›
        · exact .corrupt l ‹_›
    | _ => cases h
  | creating disk l writer =>
    cases a with
    | work =>
      simp only [step] at h
      split at h <;> cases h
      rename_i hw
      exact .work (by simpa using hw)
    | fail =>
      simp only [step] at h
      split at h <;> cases h
      rename_i hw
      exact .fail (by simpa using hw)
    | loaded =>
      simp only [step] at h
      split at h
      · rename_i ok
        cases ok <;> cases h
        · exact .refused
        · exact .loaded
      · cases h
    | crash =>
      obtain rfl := Option.some.inj h
      exact .crashFirst
    | _ => cases h
  | on s =>
    cases a with
    | loop a =>
      obtain ⟨s', hs, rfl⟩ := Option.map_eq_some_iff.mp h
      exact .loop (Saver.step_cases hs)
    | exit =>
      simp only [step] at h
      split at h <;> cases h
      exact .stop
    | crash =>
      obtain rfl := Option.some.inj h
      exact .stop
    | _ => cases h

/-- A loop that starts from the config in the file. -/
theorem begin_good (l : Launch) {config : Config} (hd : disk.Sound)
    (hp : parse disk.read = some config) :
    Good serialize parse (begin D disk config l : Home) := by
  have hstarts : Saver.Starts parse config
      (.ofInstance disk (Instance.start config l.name l.settings : Instance D P)) :=
    ⟨hd, hp, rfl, rfl, rfl, rfl, rfl⟩
  refine ⟨hstarts.safe, rfl, ⟨sanitizeRooms_roomList _, rfl⟩, fun task ht => ?_, ?_⟩
  · cases ht
  · exact congrArg (Option.map (·.deviceId)) hp

theorem Good.step (hround : ∀ config raw, serialize config = some raw → parse raw = some config)
    {x x' : Home} {a : Act P} (hg : x.Good serialize parse) (h : Step D serialize parse x a x') :
    x'.Good serialize parse := by
  cases h with
  | start l hp => exact begin_good l hg hp
  | corrupt | crashFirst => first | exact hg | exact hg.1
  | first l => exact ⟨hg, trivial, nofun⟩
  | @work disk l writer hw =>
    obtain ⟨hd, ho, -⟩ := hg
    obtain ⟨hd', ho', hread⟩ := ho.step hd
    refine ⟨hd', ho', fun hf => ?_⟩
    rcases hread with ⟨-, hfin⟩ | ⟨hread, -⟩
    · rw [hfin hf] at hw
      cases hw
    · exact hround _ _ hread
  | fail hw => exact ⟨hg.1, trivial, nofun⟩
  | @loaded disk l => exact begin_good l hg.1 (hg.2.2 rfl)
  | refused => exact hg.1
  | loop hs => exact ⟨hg.1.step hround hs, hg.2.step (hs.writes hg.1 hround)⟩
  | stop => exact hg.1.disk

theorem Reachable.good
    (hround : ∀ config raw, serialize config = some raw → parse raw = some config)
    (hd : disk.Sound) {x : Home} (h : (lives (P := P) D serialize parse disk present).Reachable x) :
    x.Good serialize parse := by
  refine h.invariant (I := Good serialize parse) ?_ fun x a x' _ hI hs =>
    hI.step hround (step_cases hs)
  rintro x rfl
  exact hd

/-- The device id in the file, if there is a file that parses. -/
def identity (parse : List UInt8 → Option Config) (x : Home) : Option DeviceId :=
  (x.file.bind parse).map (·.deviceId)

/-- A process runs under the id of its file. -/
theorem Good.device {x : Home} (hg : x.Good serialize parse) {d : DeviceId}
    (h : x.device = some d) : x.identity parse = some d := by
  cases x with
  | on s =>
    obtain rfl := Option.some.inj h
    rw [hg.2.device]
    exact hg.2.file
  | _ => cases h

/-- No step changes the id in the file. -/
theorem Step.identity {x x' : Home} {a : Act P} (h : Step D serialize parse x a x')
    (hround : ∀ config raw, serialize config = some raw → parse raw = some config)
    (hg : x.Good serialize parse) {d : DeviceId} (hx : x.identity parse = some d) :
    x'.identity parse = some d := by
  cases h with
  | start l hp => exact hx
  | corrupt | stop => exact hx
  | first l => cases hx
  | @work disk l writer hw =>
    have hne : writer ≠ .finished true := fun hf => by rw [hf] at hw; cases hw
    simp [Home.identity, file, hne] at hx
  | @fail disk l writer hw =>
    have hne : writer ≠ .finished true := fun hf => by rw [hf] at hw; cases hw
    simp [Home.identity, file, hne] at hx
  | loaded => exact hx
  | refused => cases hx
  | @crashFirst disk l writer =>
    simpa [Home.identity, file] using hx
  | @loop s s' a hs =>
    have hd : s.app.config.deviceId = d := by
      have hfile : (parse s.disk.read).map (·.deviceId) = some d := hx
      rw [hg.2.file] at hfile
      exact Option.some.inj hfile
    have hw := hs.writes hg.1 hround
    show (parse s'.disk.read).map (·.deviceId) = some d
    rw [(hg.2.step hw).file, hw.deviceId, hd]

/-- The device id never changes once the config file exists, over any number of starts, crashes at
any system call, failed writes and config changes; and a process runs under that id. -/
theorem identity_kept
    (hround : ∀ config raw, serialize config = some raw → parse raw = some config)
    (hd : disk.Sound) {τ τ₁ τ₂ : List (Transition Home (Act P))} {t : Transition Home (Act P)}
    {x : Home} (h : (lives D serialize parse disk present).Run τ x) (heq : τ = τ₁ ++ t :: τ₂)
    {d : DeviceId} (ht : t.pre.identity parse = some d) :
    (∀ u ∈ t :: τ₂, u.pre.identity parse = some d ∧ ∀ d', u.pre.device = some d' → d' = d) ∧
      x.identity parse = some d ∧ ∀ d', x.device = some d' → d' = d := by
  have hgood := Reachable.good hround hd (h.split heq).1.reachable
  obtain ⟨hall, hx⟩ := h.stable (q := fun x => x.Good serialize parse ∧ x.identity parse = some d)
    (fun x a x' hs hq => ⟨hq.1.step hround (step_cases hs),
      (step_cases hs).identity hround hq.1 hq.2⟩) heq ⟨hgood, ht⟩
  have hdevice {y : Home} (hy : y.Good serialize parse ∧ y.identity parse = some d)
      {d' : DeviceId} (h' : y.device = some d') : d' = d :=
    Option.some.inj ((hy.1.device h').symm.trans hy.2)
  exact ⟨fun u hu => ⟨(hall u hu).2, fun d' h' => hdevice (hall u hu) h'⟩, hx.2,
    fun d' h' => hdevice hx h'⟩

/-- The life of a directory whose config file needs no escapes. -/
def plainLives (present : Bool) : System Home (Act GrowSet) :=
  lives GrowSet Config.toToml Config.ofToml Saver.plainStart.disk present

theorem plainDisk_sound : Saver.plainStart.disk.Sound := ⟨by decide, nofun⟩

/-- A start that would draw another id, if it were the first. -/
def nextLaunch : Launch := ⟨"id-9", "host", ⟨false, .manual, true⟩⟩

def plainStep : Home → Act GrowSet → Option Home := step GrowSet Config.toToml Config.ofToml

/-- Started, and in the middle of saving a blocked device. -/
def halfway : List (Act GrowSet) :=
  [.launch nextLaunch, .loop (Saver.commanded (.setDeviceTrusted "d" false)), .loop .tick] ++
    List.replicate 5 (.loop (.work 0))

/-- Killed there, started again, killed when a room is saved, and started once more. -/
def resumed : List (Act GrowSet) :=
  [.crash, .launch nextLaunch, .loop (Saver.commanded (.joinRoom "attic")), .loop .tick] ++
    List.replicate 65 (.loop (.work 0)) ++ [.crash, .launch nextLaunch]

/-- A write that a crash has cut off after four bytes does no harm: the next two processes run
under the old id, and what the second one saved is there for the third. -/
theorem identity_kept_killed : ∃ τ₁ s τ₂ x,
    (plainLives true).Run (τ₁ ++ ⟨on s, .crash, off s.disk true⟩ :: τ₂) x ∧
      s.disk.tmp.map (fun i => Toml.ofBytes (s.disk.content i)) = some "devi".toList ∧
      x.config = some ⟨"id-2", none, [], [], ["attic"]⟩ ∧ x.device = some "id-2" ∧
      ∀ u ∈ τ₂, u.pre.identity Config.ofToml = some "id-2" := by
  obtain ⟨x₁, hx₁, hp₁⟩ := System.exists_of_exec
    (show (System.exec plainStep (off Saver.plainStart.disk true) halfway).any (fun x =>
      match x with
      | on s => decide (s.disk.tmp.map (fun i => Toml.ofBytes (s.disk.content i)) =
          some "devi".toList ∧ Config.ofToml s.disk.read = some Saver.plainConfig)
      | _ => false) = true by decide +kernel)
  obtain ⟨x, hx, hp⟩ := System.exists_of_exec
    (show (System.exec plainStep (off Saver.plainStart.disk true) (halfway ++ resumed)).any
      (fun x => decide (x.config = some ⟨"id-2", none, [], [], ["attic"]⟩ ∧
        x.device = some "id-2")) = true by decide +kernel)
  obtain ⟨hconfig, hdevice⟩ := of_decide_eq_true hp
  rw [System.exec_append, hx₁, Option.bind_some] at hx
  cases x₁ with
  | on s =>
    obtain ⟨htmp, hfile⟩ := of_decide_eq_true hp₁
    have h₀ : (plainLives true).Run [] (off Saver.plainStart.disk true) := .start rfl
    have hrun := (h₀.exec (fun _ _ _ hs => hs) hx₁).exec (fun _ _ _ hs => hs) hx
    have hid : (on s).identity Config.ofToml = some "id-2" := by
      simp [identity, file, hfile, Saver.plainConfig]
    have htrace : System.trace plainStep (on s) resumed = ⟨on s, .crash, off s.disk true⟩ ::
        System.trace plainStep (off s.disk true) resumed.tail := rfl
    rw [htrace] at hrun
    obtain ⟨hall, -⟩ := identity_kept Config.ofToml_toToml plainDisk_sound hrun rfl hid
    exact ⟨_, s, _, x, hrun, htmp, hconfig, hdevice,
      fun u hu => (hall u (List.mem_cons_of_mem _ hu)).1⟩
  | _ => cases hp₁

/-- The config was some process's own at some point of the history. -/
def Past (τ : List (Transition Home (Act P))) (config : Config) : Prop :=
  ∃ t ∈ τ, t.pre.config = some config

/-- The file is the one there was at first, or holds in one piece a config that was current
once; and so does every write that is under way. -/
structure Held (parse : List UInt8 → Option Config) (first : Option (List UInt8))
    (τ : List (Transition Home (Act P))) (x : Home) : Prop where
  file : x.file = first ∨ ∃ config, x.file.bind parse = some config ∧ Past τ config
  tasks : ∀ s, x = on s → ∀ task ∈ s.tasks, Past τ task.config

theorem Past.append {τ : List (Transition Home (Act P))} {config : Config} (h : Past τ config)
    (t : Transition Home (Act P)) : Past (τ ++ [t]) config := by
  obtain ⟨u, hu, hc⟩ := h
  exact ⟨u, List.mem_append_left _ hu, hc⟩

theorem Past.last {τ : List (Transition Home (Act P))} {t : Transition Home (Act P)}
    {config : Config} (h : t.pre.config = some config) : Past (τ ++ [t]) config :=
  ⟨t, by simp, h⟩

/-- A step that is no turn or write of a loop leaves the file, or creates it. -/
theorem Held.still {first : Option (List UInt8)} {τ : List (Transition Home (Act P))}
    {x x' : Home} {a : Act P} (h : Held parse first τ x)
    (hfile : x'.file = x.file ∨ ∃ config, x.config = some config ∧
      x'.file.bind parse = some config) (htasks : ∀ s, x' = on s → s.tasks = []) :
    Held parse first (τ ++ [⟨x, a, x'⟩]) x' where
  file := by
    rcases hfile with heq | ⟨config, hc, hp⟩
    · rw [heq]
      exact h.file.imp_right fun ⟨config, hp, hpast⟩ => ⟨config, hp, hpast.append _⟩
    · exact .inr ⟨config, hp, .last hc⟩
  tasks s hs task ht := by
    rw [htasks s hs] at ht
    cases ht

theorem Held.step {first : Option (List UInt8)} {τ : List (Transition Home (Act P))}
    {x x' : Home} {a : Act P} (h : Held parse first τ x)
    (hround : ∀ config raw, serialize config = some raw → parse raw = some config)
    (hg : x.Good serialize parse) (hs : Step D serialize parse x a x') :
    Held parse first (τ ++ [⟨x, a, x'⟩]) x' := by
  cases hs with
  | start l hp =>
    refine h.still (.inl rfl) fun s hs => ?_
    cases hs
    rfl
  | loaded =>
    refine h.still (.inl rfl) fun s hs => ?_
    cases hs
    rfl
  | corrupt | first | refused | stop => exact h.still (.inl rfl) fun s hs => by cases hs
  | crashFirst => exact h.still (.inl (by simp [Home.file])) fun s hs => by cases hs
  | @work disk l writer hw =>
    have hne : writer ≠ .finished true := fun hf => by rw [hf] at hw; cases hw
    refine h.still ?_ fun s hs => by cases hs
    have hnext := hg.step (D := D) hround (.work (l := l) hw)
    by_cases hf : (writer.step (serialize (.fresh l.uuid)) disk).2 = .finished true
    · refine .inr ⟨.fresh l.uuid, rfl, ?_⟩
      simpa [Home.file, hf] using hnext.2.2 hf
    · exact .inl (by simp [Home.file, hf, hne])
  | @fail disk l writer hw =>
    have hne : writer ≠ .finished true := fun hf => by rw [hf] at hw; cases hw
    exact h.still (.inl (by simp [Home.file, hne])) fun s hs => by cases hs
  | @loop s s' a hs =>
    have hw := hs.writes hg.1 hround
    constructor
    · rcases hw.file with heq | ⟨task, ht, heq⟩
      · have hsame : (on s').file = (on s).file := congrArg some heq
        rw [hsame]
        exact h.file.imp_right fun ⟨config, hp, hpast⟩ => ⟨config, hp, hpast.append _⟩
      · exact .inr ⟨task.config, heq, (h.tasks s rfl task ht).append _⟩
    · intro s₁ hs₁ task ht
      obtain rfl : s' = s₁ := Home.on.inj hs₁
      rcases hw.tasks task ht with ⟨task', ht', heq⟩ | heq
      · rw [heq]
        exact (h.tasks s rfl task' ht').append _
      · rw [heq]
        exact .last rfl

/-- Whatever ends a process and whenever, the file is the one there was at first or one complete
config that some process had; and a file that does not parse is never touched. -/
theorem config_survives
    (hround : ∀ config raw, serialize config = some raw → parse raw = some config)
    (hd : disk.Sound) {τ : List (Transition Home (Act P))} {x : Home}
    (h : (lives D serialize parse disk present).Run τ x) :
    (x.file = (off disk present).file ∨
      ∃ config, x.file.bind parse = some config ∧ Past τ config) ∧
    (present = true → parse disk.read = none → x = off disk true) := by
  constructor
  · refine Held.file (h.history (I := fun τ x => Held parse (off disk present).file τ x) ?_ ?_)
    · rintro x rfl
      exact ⟨.inl rfl, nofun⟩
    · intro τ x a x' hr hI hs
      exact hI.step hround (Reachable.good hround hd hr.reachable) (step_cases hs)
  · intro hp hbad
    refine h.reachable.invariant (I := fun x => x = off disk true) ?_ fun x a x' _ hI hs => ?_
    · rintro x rfl
      rw [hp]
    · subst hI
      cases step_cases hs with
      | start l hok => cases hbad.symm.trans hok
      | corrupt => rfl

/-- A first run is killed in the middle of its first save. -/
def firstHalf : List (Act GrowSet) := .launch nextLaunch :: List.replicate 3 .work

/-- The next first run writes the file, and is killed in the middle of its second save. -/
def secondHalf : List (Act GrowSet) :=
  [.crash, .launch { nextLaunch with uuid := "id-2" }] ++ List.replicate 58 .work ++
    [.loaded, .loop (Saver.commanded (.setDeviceTrusted "d" false)), .loop .tick] ++
    List.replicate 5 (.loop (.work 0)) ++ [.crash]

/-- A half-written sibling from a first run is no config file, and one beside the file leaves the
file as the process before had it. -/
theorem config_survives_first : ∃ τ disk disk' writer, (plainLives false).Run τ (off disk' true) ∧
    (⟨creating disk nextLaunch writer, .crash, off disk false⟩ ∈ τ ∧ disk.tmp = some 1) ∧
      disk'.tmp = some 2 ∧ ∃ config, Config.ofToml disk'.read = some config ∧ Past τ config := by
  obtain ⟨x₁, hx₁, hp₁⟩ := System.exists_of_exec
    (show (System.exec plainStep (off Saver.plainStart.disk false) firstHalf).any (fun x =>
      match x with
      | creating disk l writer =>
        decide (disk.tmp = some 1 ∧ writer.isFinished = false ∧ l = nextLaunch)
      | _ => false) = true by decide +kernel)
  obtain ⟨x, hx, hp⟩ := System.exists_of_exec
    (show (System.exec plainStep (off Saver.plainStart.disk false)
      (firstHalf ++ secondHalf)).any (fun x =>
        match x with
        | off disk present => decide (disk.tmp = some 2 ∧ present = true)
        | _ => false) = true by decide +kernel)
  rw [System.exec_append, hx₁, Option.bind_some] at hx
  have h₀ : (plainLives false).Run [] (off Saver.plainStart.disk false) := .start rfl
  have hrun := (h₀.exec (fun _ _ _ hs => hs) hx₁).exec (fun _ _ _ hs => hs) hx
  cases x₁ with
  | creating disk l writer =>
    obtain ⟨htmp, hw, rfl⟩ := of_decide_eq_true hp₁
    have hcrash : plainStep (creating disk nextLaunch writer) .crash = some (off disk false) := by
      cases writer with
      | finished ok => cases hw
      | _ => rfl
    have hmem : ⟨creating disk nextLaunch writer, .crash, off disk false⟩ ∈
        System.trace plainStep (creating disk nextLaunch writer) secondHalf := by
      simp [secondHalf, System.trace, hcrash]
    cases x with
    | off disk' present =>
      obtain ⟨htmp', rfl⟩ := of_decide_eq_true hp
      refine ⟨_, disk, disk', writer, hrun, ⟨?_, htmp⟩, htmp', ?_⟩
      · exact List.mem_append_right _ hmem
      · refine (config_survives Config.ofToml_toToml plainDisk_sound hrun).1.resolve_left ?_
        exact fun hfile => Option.some_ne_none disk'.read hfile
    | _ => cases hp
  | _ => cases hp₁

/-- A loop with nothing left to save: the config is clean and no write is outstanding or has
failed, or the loop has returned and its final save did not fail. -/
def Saved (s : Saver) : Prop :=
  (s.app.configDirty = false ∧ ∀ i, s.handle = some i →
    ∃ task, s.tasks[i]? = some task ∧ task.writer = .finished true) ∨
    ∃ final, s.phase = .returned final ∧ ¬ s.SaveFailed final

theorem saved_file {s : Saver} (h : s.Safe serialize parse) (hsaved : Saved s) :
    parse s.disk.read = some s.app.config := by
  rcases hsaved with ⟨hclean, hdone⟩ | ⟨final, hp, hok⟩
  · cases hhandle : s.handle with
    | none => exact h.clean hhandle hclean
    | some i =>
      -- A write that is finished has saved the config, reaped or not.
      obtain ⟨task, ht, hsame, hread⟩ := h.handle i hhandle
      obtain ⟨task', ht', hw⟩ := hdone i hhandle
      obtain rfl := Option.some.inj (ht.symm.trans ht')
      rw [hread hw, hsame hclean]
  · exact (h.returned final hp).resolve_left hok

/-- A process that ends with nothing left to save, in whatever way, is taken up again by the next
start: the same config, with nothing to write, and so the same id and the same rooms joined. -/
theorem restart_resumes
    (hround : ∀ config raw, serialize config = some raw → parse raw = some config)
    (hd : disk.Sound) {s : Saver}
    (h : (lives (P := P) D serialize parse disk present).Reachable (on s))
    (hsaved : Saved s) {a : Act P} {y : Home} (hstop : step D serialize parse (on s) a = some y)
    (ha : ∀ b, a ≠ .loop b) (l : Launch) :
    ∃ s', step D serialize parse y (.launch l : Act P) = some (on s') ∧
      s'.app.config = s.app.config ∧ s'.app.configDirty = false ∧
      s'.app.device.id = s.app.device.id ∧ s'.app.joinedRooms = s.app.joinedRooms ∧
      s'.app.joinedRooms = s.app.config.rooms.toFinset := by
  obtain ⟨hsafe, hkept⟩ := Reachable.good hround hd h
  have hy : y = off s.disk true := by
    cases step_cases hstop with
    | loop => exact absurd rfl (ha _)
    | stop => rfl
  have hfile := saved_file hsafe hsaved
  have hrooms := hkept.rooms.rooms.sanitizeRooms
  refine ⟨.ofInstance s.disk (Instance.start s.app.config l.name l.settings : Instance D P),
    ?_, ?_, ?_, hkept.device.symm, ?_, ?_⟩
  · simp [hy, step, hfile, begin]
  · simp [Saver.ofInstance, Instance.start, hrooms]
  · simp [Saver.ofInstance, Instance.start, hrooms]
  · simp [Saver.ofInstance, Instance.start, hrooms, hkept.rooms.joined]
  · simp [Saver.ofInstance, Instance.start, hrooms]

/-- A room is joined and saved; the write is finished, but not reaped yet. -/
def unreaped : List (Act GrowSet) :=
  [.launch nextLaunch, .loop (Saver.commanded (.joinRoom "attic")), .loop .tick] ++
    List.replicate 65 (.loop (.work 0))

/-- Killed at that moment, a process is resumed with its room. -/
theorem restart_resumes_unreaped : ∃ s s', (plainLives true).Reachable (on s) ∧
    s.handle = some 0 ∧ plainStep (off s.disk true) (.launch nextLaunch) = some (on s') ∧
      s'.app.config = ⟨"id-2", none, [], [], ["attic"]⟩ ∧ s'.app.configDirty = false ∧
      s'.app.joinedRooms = {"attic"} := by
  obtain ⟨x, hx, hp⟩ := System.exists_of_exec
    (show (System.exec plainStep (off Saver.plainStart.disk true) unreaped).any (fun x =>
      match x with
      | on s => decide ((s.app.configDirty = false ∧ s.handle = some 0) ∧
          (s.tasks[0]?).map (·.writer) = some (.finished true) ∧
          s.app.config = ⟨"id-2", none, [], [], ["attic"]⟩)
      | _ => false) = true by decide +kernel)
  have h₀ : (plainLives true).Run [] (off Saver.plainStart.disk true) := .start rfl
  have hrun := h₀.exec (fun _ _ _ hs => hs) hx
  cases x with
  | on s =>
    obtain ⟨⟨hclean, hhandle⟩, hdone, hconfig⟩ := of_decide_eq_true hp
    obtain ⟨task, ht, hw⟩ := Option.map_eq_some_iff.mp hdone
    have hsaved : Saved s := .inl ⟨hclean, fun i hi => by
      obtain rfl := Option.some.inj (hhandle.symm.trans hi)
      exact ⟨task, ht, hw⟩⟩
    obtain ⟨s', hs', hsame, hclean', -, -, hjoined⟩ := restart_resumes (a := .crash)
      Config.ofToml_toToml plainDisk_sound hrun.reachable hsaved rfl (fun b => by simp) nextLaunch
    exact ⟨s, s', hrun.reachable, hhandle, hs', hsame.trans hconfig, hclean', by
      rw [hjoined, hconfig]; rfl⟩
  | _ => cases hp

end Home

end Yoink
