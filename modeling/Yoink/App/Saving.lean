import Yoink.App.ConfigFile
import Yoink.App.Instance
import Yoink.Library.AtomicFile
import Yoink.Library.System

/-!
# Saving the configuration

Handlers only mark the configuration dirty. A flush tick starts a write of a snapshot on the
blocking pool and clears the flag before the write has succeeded; its result is reaped on a later
tick or at shutdown, and a failure sets the flag again. The last write, if one is needed,
is made in place after the loop has ended. `serialize` and `parse` stand for the TOML library.
-/

namespace Yoink

/-- A write of a configuration, on the blocking pool or in place. -/
structure SaveTask where
  config : Config
  writer : FileWriter UInt8

/-- How far `App::run` has got. -/
inductive RunPhase where
  | running
  /-- After ctrl-c: waits for the write in flight. -/
  | settling
  /-- The final save, which is the task with this number. -/
  | saving (task : Nat)
  /-- The final save, if one was needed. -/
  | returned (final : Option Nat)
  deriving DecidableEq, Repr

/-- The app loop with its config file. -/
structure Saver where
  app : App
  disk : Disk UInt8
  /-- Every write that was ever started, in order. -/
  tasks : List SaveTask
  /-- `BackgroundWrite::handle`. -/
  handle : Option Nat
  phase : RunPhase

namespace Saver

inductive Act (P : Type) where
  /-- A turn of the loop, whatever it finds in its surroundings. -/
  | turn (docs : DocsView) (sync : SyncView) (env : Env) (event : Event P)
  | tick
  | ctrlC
  /-- A task makes its next system call. -/
  | work (task : Nat)
  /-- A task fails or panics. -/
  | fail (task : Nat)
  /-- Shutdown goes on once the write in flight is finished. -/
  | settle
  | finish

/-- `BackgroundWrite::in_flight`. -/
def inFlight (s : Saver) : Bool :=
  match s.handle.bind (s.tasks[·]?) with
  | some task => !task.writer.isFinished
  | none => false

/-- `BackgroundWrite::reap` of a write that is finished; a failure marks the config dirty. -/
def reap (s : Saver) : Saver :=
  match s.handle.bind (s.tasks[·]?) with
  | some task =>
    { s with
      handle := none
      app := if task.writer = .finished true then s.app else s.app.persistConfig }
  | none => { s with handle := none }

/-- The task that a save of the current config starts as. -/
def saveTask (s : Saver) : SaveTask := ⟨s.app.config, .queued⟩

/-- `flush_config`. -/
def flushConfig (s : Saver) : Saver :=
  if s.inFlight then s
  else
    let s := s.reap
    if !s.app.configDirty then s
    else
      { s with
        app := { s.app with configDirty := false }
        tasks := s.tasks ++ [s.saveTask]
        handle := some s.tasks.length }

/-- `run` after the loop: reap, then save in place if that is needed. -/
def settle (s : Saver) : Saver :=
  let s := s.reap
  if s.app.configDirty then
    { s with tasks := s.tasks ++ [s.saveTask], phase := .saving s.tasks.length }
  else { s with phase := .returned none }

/-- A task has got to `writer` and left the disk as `disk`. -/
def progress (s : Saver) (i : Nat) (task : SaveTask) (disk : Disk UInt8)
    (writer : FileWriter UInt8) : Saver :=
  { s with disk, tasks := s.tasks.set i { task with writer } }

section Step

variable {P : Type} (serialize : Config → Option (List UInt8))

def step (s : Saver) : Act P → Option Saver
  | .turn docs sync env event =>
    if s.phase = .running then some { s with app := (s.app.handle docs sync env event).app }
    else none
  | .tick => if s.phase = .running then some s.flushConfig else none
  | .ctrlC => if s.phase = .running then some { s with phase := .settling } else none
  | .work i =>
    match s.tasks[i]? with
    | some task =>
      if task.writer.isFinished then none
      else
        let next := task.writer.step (serialize task.config) s.disk
        some (s.progress i task next.1 next.2)
    | none => none
  | .fail i =>
    match s.tasks[i]? with
    | some task =>
      if task.writer.isFinished then none else some (s.progress i task s.disk (.finished false))
    | none => none
  | .settle =>
    if s.phase = .settling ∧ s.inFlight = false then some s.settle else none
  | .finish =>
    match s.phase with
    | .saving i =>
      match s.tasks[i]? with
      | some task =>
        if task.writer.isFinished then some { s with phase := .returned (some i) } else none
      | none => none
    | _ => none

end Step

/-- Right after `main` has loaded `loaded` from the file: the room list is made canonical, and
the config is dirty if that changed it. -/
structure Starts (parse : List UInt8 → Option Config) (loaded : Config) (s : Saver) : Prop where
  disk : s.disk.Sound
  file : parse s.disk.read = some loaded
  config : s.app.config = { loaded with rooms := sanitizeRooms loaded.rooms }
  dirty : s.app.configDirty = decide (sanitizeRooms loaded.rooms ≠ loaded.rooms)
  tasks : s.tasks = []
  handle : s.handle = none
  phase : s.phase = .running

/-- All runs of the loop from a config that was loaded. -/
def saving (P : Type) (serialize : Config → Option (List UInt8))
    (parse : List UInt8 → Option Config) (loaded : Config) : System Saver (Act P) where
  init s := Starts parse loaded s
  step s a s' := step serialize s a = some s'

/-- An instance with the disk it was started on, before any tick. -/
def ofInstance {D P : Type} (disk : Disk UInt8) (i : Instance D P) : Saver :=
  ⟨i.app, disk, [], none, .running⟩

/-- What an instance does to the loop's fields, the loop does here. -/
theorem reachable_ofInstance {D P : Type} [Yrs D P] [Entries D] [DecidableEq P]
    {serialize : Config → Option (List UInt8)} {parse : List UInt8 → Option Config}
    {disk : Disk UInt8} {config : Config} {name : String} {settings : EffectiveSettings}
    {i : Instance D P} (hdisk : disk.Sound) (hfile : parse disk.read = some config)
    (h : (Instance.system D P config name settings).Reachable i) :
    (saving P serialize parse config).Reachable (ofInstance disk i) := by
  refine h.map (ofInstance disk) ?_ fun i a i' _ hr hs => ?_
  · rintro i rfl
    exact ⟨[], .start ⟨hdisk, hfile, rfl, rfl, rfl, rfl, rfl⟩⟩
  · cases Instance.step_cases hs with
    | sync => exact hr
    | @handle env event =>
      exact hr.next (show step serialize _ (.turn i.sync.docs.view i.sync.view env event) = _ from
        rfl)

/-- The write with number `i` is in progress. -/
def InProgress (s : Saver) (i : Nat) : Prop :=
  ∃ task, s.tasks[i]? = some task ∧ task.writer.isFinished = false

end Saver

/-- A handler that changes the config marks it dirty, and none marks it clean. -/
theorem App.handle_configDirty {P : Type} (app : App) (docs : DocsView) (sync : SyncView)
    (env : Env) (event : Event P) : (app.handle docs sync env event).app.configDirty = true ∨
      ((app.handle docs sync env event).app.configDirty = app.configDirty ∧
        (app.handle docs sync env event).app.config = app.config) := by
  have h := app.handle_reacts docs sync env event
  generalize app.handle docs sync env event = r at h ⊢
  cases h with
  | trusted | joined | left => exact .inl rfl
  | _ => exact .inr ⟨rfl, rfl⟩

namespace Saver

/-- The final save was needed and failed. -/
def SaveFailed (s : Saver) (final : Option Nat) : Prop :=
  ∃ i task, final = some i ∧ s.tasks[i]? = some task ∧ task.writer = .finished false

/-- What the dirty flag, the snapshot in flight, its result and the file have to do with each
other. -/
structure Safe (serialize : Config → Option (List UInt8)) (parse : List UInt8 → Option Config)
    (s : Saver) : Prop where
  disk : s.disk.Sound
  owns : ∀ (i : Nat) (task : SaveTask), s.tasks[i]? = some task →
    task.writer.Owns (serialize task.config) s.disk
  quiet : ∀ i, s.InProgress i → s.handle = some i ∨ s.phase = .saving i
  alone : s.handle ≠ none → s.phase = .running ∨ s.phase = .settling
  handle : ∀ i, s.handle = some i → ∃ task, s.tasks[i]? = some task ∧
    (s.app.configDirty = false → task.config = s.app.config) ∧
    (task.writer = .finished true → parse s.disk.read = some task.config)
  clean : s.handle = none → s.app.configDirty = false → parse s.disk.read = some s.app.config
  saving : ∀ i, s.phase = .saving i → s.app.configDirty = true ∧
    ∃ task, s.tasks[i]? = some task ∧ task.config = s.app.config ∧
      (task.writer = .finished true → parse s.disk.read = some task.config)
  returned : ∀ final, s.phase = .returned final →
    s.SaveFailed final ∨ parse s.disk.read = some s.app.config

section Safe

variable {serialize : Config → Option (List UInt8)} {parse : List UInt8 → Option Config}
  {s : Saver}

theorem Starts.safe {loaded : Config} (h : s.Starts parse loaded) : s.Safe serialize parse where
  disk := h.disk
  owns i task ht := by simp [h.tasks] at ht
  quiet i := by
    rintro ⟨task, ht, -⟩
    simp [h.tasks] at ht
  alone hn := absurd h.handle hn
  handle i hi := by simp [h.handle] at hi
  clean _ hd := by
    rw [h.dirty, decide_eq_false_iff_not, not_not] at hd
    rw [h.file, h.config, hd]
  saving i hp := by simp [h.phase] at hp
  returned final hp := by simp [h.phase] at hp

/-- At most one write is in progress. -/
theorem Safe.unique (h : s.Safe serialize parse) {i j : Nat} (hi : s.InProgress i)
    (hj : s.InProgress j) : i = j := by
  have clash {i j : Nat} (hh : s.handle = some i) (hp : s.phase = .saving j) : False := by
    obtain hr | hr := h.alone (by simp [hh])
    · simp [hp] at hr
    · simp [hp] at hr
  obtain hi | hi := h.quiet i hi
  · obtain hj | hj := h.quiet j hj
    · exact Option.some.inj (hi.symm.trans hj)
    · exact (clash hi hj).elim
  · obtain hj | hj := h.quiet j hj
    · exact (clash hj hi).elim
    · exact RunPhase.saving.inj (hi.symm.trans hj)

/-- Another app whose config is the same, or marked dirty. -/
theorem Safe.app (h : s.Safe serialize parse) {app : App} (hp : s.phase = .running)
    (happ : app.configDirty = true ∨
      (app.configDirty = s.app.configDirty ∧ app.config = s.app.config)) :
    ({ s with app } : Saver).Safe serialize parse where
  disk := h.disk
  owns := h.owns
  quiet := h.quiet
  alone := h.alone
  handle i hi := by
    obtain ⟨task, ht, hd, hf⟩ := h.handle i hi
    refine ⟨task, ht, fun hclean => ?_, hf⟩
    obtain hdirty | ⟨hdirty, hconfig⟩ := happ
    · simp [hdirty] at hclean
    · exact (hd (hdirty ▸ hclean)).trans hconfig.symm
  clean hn hclean := by
    obtain hdirty | ⟨hdirty, hconfig⟩ := happ
    · simp [hdirty] at hclean
    · exact (h.clean hn (hdirty ▸ hclean)).trans (congrArg some hconfig.symm)
  saving i hi := by simp [hp] at hi
  returned final hr := by simp [hp] at hr

/-- Reaping forgets a finished write, and remembers that it failed. -/
theorem Safe.reap (h : s.Safe serialize parse) (hf : s.inFlight = false) :
    s.reap.Safe serialize parse ∧ s.reap.handle = none ∧ s.reap.phase = s.phase ∧
      s.reap.app.config = s.app.config ∧ s.reap.tasks = s.tasks ∧ s.reap.disk = s.disk ∧
      ∀ i, s.reap.InProgress i → s.phase = .saving i := by
  cases hh : s.handle with
  | none =>
    have hreap : s.reap = s := by
      obtain ⟨app, disk, tasks, handle, phase⟩ := s
      obtain rfl : handle = none := hh
      rfl
    rw [hreap]
    refine ⟨h, hh, rfl, rfl, rfl, rfl, fun i hi => (h.quiet i hi).resolve_left ?_⟩
    simp [hh]
  | some k =>
    obtain ⟨task, ht, hdirty, hfile⟩ := h.handle k hh
    have hfin : task.writer.isFinished = true := by simpa [inFlight, hh, ht] using hf
    have hreap : s.reap = { s with
        handle := none
        app := if task.writer = .finished true then s.app else s.app.persistConfig } := by
      simp [Saver.reap, hh, ht]
    have hphase := h.alone (by simp [hh])
    have hconfig : s.reap.app.config = s.app.config := by
      rw [hreap]
      simp only
      split <;> rfl
    -- The only write that could be in progress is the one that is finished.
    have hquiet (i) (hi : s.InProgress i) : s.phase = .saving i := by
      refine (h.quiet i hi).resolve_left fun hk => ?_
      obtain ⟨task', ht', hfin'⟩ := hi
      obtain rfl := Option.some.inj (hh.symm.trans hk)
      obtain rfl := Option.some.inj (ht.symm.trans ht')
      simp [hfin] at hfin'
    rw [hreap] at hconfig ⊢
    refine ⟨?_, rfl, rfl, hconfig, rfl, rfl, hquiet⟩
    refine ⟨h.disk, h.owns, fun i hi => .inr (hquiet i hi), fun hn => absurd rfl hn, nofun,
      fun _ hclean => ?_, fun i hi => ?_, fun final hr => ?_⟩
    · rw [hconfig]
      by_cases hok : task.writer = .finished true
      · rw [if_pos hok] at hclean
        exact (hfile hok).trans (congrArg some (hdirty hclean))
      · rw [if_neg hok] at hclean
        cases hclean
    · obtain hp | hp := hphase <;> simp [hp] at hi
    · obtain hp | hp := hphase <;> simp [hp] at hr

theorem saveTask_writer (s : Saver) : s.saveTask.writer = .queued := rfl

/-- A task that is started changes nothing on the disk yet. -/
theorem owns_append (h : s.Safe serialize parse) (i : Nat) (task : SaveTask)
    (ht : (s.tasks ++ [s.saveTask])[i]? = some task) :
    task.writer.Owns (serialize task.config) s.disk := by
  obtain hi | hi := Nat.lt_or_ge i s.tasks.length
  · rw [List.getElem?_append_left hi] at ht
    exact h.owns i task ht
  · rw [List.getElem?_append_right hi] at ht
    obtain ⟨-, rfl⟩ := List.getElem?_eq_some_iff.mp ht
    simp [saveTask_writer, FileWriter.Owns]

theorem inProgress_append {s' : Saver} (htasks : s'.tasks = s.tasks ++ [s.saveTask]) {i : Nat}
    (hi : s'.InProgress i) : s.InProgress i ∨ i = s.tasks.length := by
  obtain ⟨task, ht, hw⟩ := hi
  rw [htasks] at ht
  obtain hlt | hge := Nat.lt_or_ge i s.tasks.length
  · exact .inl ⟨task, by rwa [List.getElem?_append_left hlt] at ht, hw⟩
  · right
    obtain ⟨hlen, -⟩ := List.getElem?_eq_some_iff.mp ht
    simp at hlen
    omega

/-- The flush tick. -/
theorem Safe.flushConfig (h : s.Safe serialize parse) (hp : s.phase = .running) :
    s.flushConfig.Safe serialize parse := by
  unfold Saver.flushConfig
  split
  · exact h
  rename_i hf
  obtain ⟨hsafe, hnone, hphase, hconfig, htasks, hdisk, hquiet⟩ := h.reap (by simpa using hf)
  generalize s.reap = r at hsafe hnone hphase hconfig htasks hdisk hquiet ⊢
  rw [hp] at hphase hquiet
  simp only
  split
  · exact hsafe
  refine ⟨hsafe.disk, owns_append hsafe, fun i hi => ?_, fun _ => .inl hphase, fun i hi => ?_,
    nofun, fun i hi => ?_, fun final hr => ?_⟩
  · obtain hold | rfl := inProgress_append (s := r) rfl hi
    · cases hquiet i hold
    · exact .inl rfl
  · obtain rfl := Option.some.inj hi
    exact ⟨r.saveTask, List.getElem?_concat_length, fun _ => rfl, nofun⟩
  · cases hphase.symm.trans hi
  · cases hphase.symm.trans hr

/-- What comes after the loop. -/
theorem Safe.settle (h : s.Safe serialize parse) (hp : s.phase = .settling)
    (hf : s.inFlight = false) : s.settle.Safe serialize parse := by
  obtain ⟨hsafe, hnone, hphase, hconfig, htasks, hdisk, hquiet⟩ := h.reap hf
  unfold Saver.settle
  generalize s.reap = r at hsafe hnone hphase hconfig htasks hdisk hquiet ⊢
  rw [hp] at hphase hquiet
  simp only
  split
  · rename_i hdirty
    refine ⟨hsafe.disk, owns_append hsafe, fun i hi => ?_, fun hn => absurd hnone hn,
      fun i hi => ?_, hsafe.clean, fun i hi => ?_, nofun⟩
    · obtain hold | rfl := inProgress_append (s := r) rfl hi
      · cases hquiet i hold
      · exact .inr rfl
    · cases hnone.symm.trans hi
    · obtain rfl := RunPhase.saving.inj hi
      exact ⟨hdirty, r.saveTask, List.getElem?_concat_length, rfl, nofun⟩
  · rename_i hdirty
    have hclean := hsafe.clean hnone (by simpa using hdirty)
    refine ⟨hsafe.disk, hsafe.owns, fun i hi => ?_, fun hn => absurd hnone hn, hsafe.handle,
      hsafe.clean, nofun, fun _ _ => .inr hclean⟩
    cases hquiet i hi

/-- A write in progress gets on: it leaves the file alone, or has replaced it and is done. -/
theorem Safe.progress (h : s.Safe serialize parse) {i : Nat} {task : SaveTask}
    (ht : s.tasks[i]? = some task) (hw : task.writer.isFinished = false) {disk : Disk UInt8}
    {writer : FileWriter UInt8} (hdisk : disk.Sound)
    (howns : writer.Owns (serialize task.config) disk)
    (hread : (disk.read = s.disk.read ∧ writer ≠ .finished true) ∨
      (parse disk.read = some task.config ∧ writer = .finished true)) :
    (s.progress i task disk writer).Safe serialize parse := by
  have hi : s.InProgress i := ⟨task, ht, hw⟩
  have hlen : i < s.tasks.length := (List.getElem?_eq_some_iff.mp ht).1
  have hself : (s.progress i task disk writer).tasks[i]? = some { task with writer } :=
    List.getElem?_set_self hlen
  have hother (j) (hj : j ≠ i) : (s.progress i task disk writer).tasks[j]? = s.tasks[j]? :=
    List.getElem?_set_ne hj.symm
  have hdone (hf : writer = .finished true) : parse disk.read = some task.config := by
    obtain ⟨-, hn⟩ | ⟨hp, -⟩ := hread
    · exact absurd hf hn
    · exact hp
  -- The write in progress is the one of the handle, or the final one.
  have hactive := h.quiet i hi
  have hno (hn : s.handle = none) : s.phase = .saving i := hactive.resolve_left (by simp [hn])
  have hsome (k) (hk : s.handle = some k) : k = i := by
    obtain hk' | hp := hactive
    · exact Option.some.inj (hk.symm.trans hk')
    · obtain hr | hr := h.alone (by simp [hk]) <;> simp [hp] at hr
  refine ⟨hdisk, fun j task' hj => ?_, fun j hj => ?_, h.alone, fun k hk => ?_, fun hn hclean => ?_,
    fun j hp => ?_, fun final hr => ?_⟩
  · by_cases hji : j = i
    · subst hji
      obtain rfl := Option.some.inj (hself.symm.trans hj)
      exact howns
    · rw [hother j hji] at hj
      cases hw' : task'.writer with
      | finished ok => trivial
      | _ => exact absurd (h.unique ⟨task', hj, by simp [hw', FileWriter.isFinished]⟩ hi) hji
  · by_cases hji : j = i
    · exact hji ▸ hactive
    · obtain ⟨task', hj, hfin⟩ := hj
      exact h.quiet j ⟨task', hother j hji ▸ hj, hfin⟩
  · obtain rfl := hsome k hk
    obtain ⟨task', ht', hd, -⟩ := h.handle k hk
    obtain rfl := Option.some.inj (ht.symm.trans ht')
    exact ⟨_, hself, hd, hdone⟩
  · have hdirty := (h.saving i (hno hn)).1
    cases hdirty.symm.trans hclean
  · have hji : j = i := by
      obtain hk | hp' := hactive
      · obtain hr | hr := h.alone (by simp [hk]) <;> cases hp.symm.trans hr
      · exact RunPhase.saving.inj (hp.symm.trans hp')
    subst hji
    obtain ⟨hd, task', ht', hconfig, -⟩ := h.saving j hp
    obtain rfl := Option.some.inj (ht.symm.trans ht')
    exact ⟨hd, _, hself, hconfig, hdone⟩
  · obtain hk | hp := hactive
    · obtain hr' | hr' := h.alone (by simp [hk]) <;> cases hr.symm.trans hr'
    · cases hr.symm.trans hp

theorem Safe.finish (h : s.Safe serialize parse) {i : Nat} {task : SaveTask}
    (hp : s.phase = .saving i) (ht : s.tasks[i]? = some task)
    (hw : task.writer.isFinished = true) :
    ({ s with phase := .returned (some i) } : Saver).Safe serialize parse := by
  have hnone : s.handle = none := by
    by_contra hn
    obtain hr | hr := h.alone hn <;> simp [hp] at hr
  refine ⟨h.disk, h.owns, fun j hj => ?_, fun hn => absurd hnone hn, h.handle, h.clean, nofun,
    fun final hr => ?_⟩
  · obtain hk | hj' := h.quiet j hj
    · cases hnone.symm.trans hk
    · obtain rfl := RunPhase.saving.inj (hp.symm.trans hj')
      obtain ⟨task', ht', hfin⟩ := hj
      obtain rfl := Option.some.inj (ht.symm.trans ht')
      cases hw.symm.trans hfin
  · obtain rfl := RunPhase.returned.inj hr
    cases hwr : task.writer with
    | finished ok =>
      cases ok with
      | false => exact .inl ⟨i, task, rfl, ht, hwr⟩
      | true =>
        obtain ⟨-, task', ht', hconfig, hdone⟩ := h.saving i hp
        obtain rfl := Option.some.inj (ht.symm.trans ht')
        exact .inr (hconfig ▸ hdone hwr)
    | _ => simp [hwr, FileWriter.isFinished] at hw

/-- What a step does to the state. -/
inductive Step {P : Type} (serialize : Config → Option (List UInt8)) (s : Saver) :
    Act P → Saver → Prop where
  | turn (docs : DocsView) (sync : SyncView) (env : Env) (event : Event P)
      (hp : s.phase = .running) : Step serialize s (.turn docs sync env event)
        { s with app := (s.app.handle docs sync env event).app }
  | tick (hp : s.phase = .running) : Step serialize s .tick s.flushConfig
  | ctrlC (hp : s.phase = .running) : Step serialize s .ctrlC { s with phase := .settling }
  | work {i : Nat} {task : SaveTask} (ht : s.tasks[i]? = some task)
      (hw : task.writer.isFinished = false) : Step serialize s (.work i)
        (s.progress i task (task.writer.step (serialize task.config) s.disk).1
          (task.writer.step (serialize task.config) s.disk).2)
  | fail {i : Nat} {task : SaveTask} (ht : s.tasks[i]? = some task)
      (hw : task.writer.isFinished = false) :
      Step serialize s (.fail i) (s.progress i task s.disk (.finished false))
  | settle (hp : s.phase = .settling) (hf : s.inFlight = false) :
      Step serialize s .settle s.settle
  | finish {i : Nat} {task : SaveTask} (hp : s.phase = .saving i)
      (ht : s.tasks[i]? = some task) (hw : task.writer.isFinished = true) :
      Step serialize s .finish { s with phase := .returned (some i) }

theorem step_cases {P : Type} {s' : Saver} {a : Act P} (h : step serialize s a = some s') :
    Step serialize s a s' := by
  cases a with
  | turn docs sync env event =>
    obtain ⟨hp, rfl⟩ := by simpa [step] using h
    exact .turn docs sync env event hp
  | tick =>
    obtain ⟨hp, rfl⟩ := by simpa [step] using h
    exact .tick hp
  | ctrlC =>
    obtain ⟨hp, rfl⟩ := by simpa [step] using h
    exact .ctrlC hp
  | work i =>
    simp only [step] at h
    split at h
    · rename_i task ht
      split at h
      · cases h
      · rename_i hw
        cases h
        exact .work ht (by simpa using hw)
    · cases h
  | fail i =>
    simp only [step] at h
    split at h
    · rename_i task ht
      split at h
      · cases h
      · rename_i hw
        cases h
        exact .fail ht (by simpa using hw)
    · cases h
  | settle =>
    obtain ⟨⟨hp, hf⟩, rfl⟩ := by simpa [step] using h
    exact .settle hp hf
  | finish =>
    simp only [step] at h
    split at h
    · rename_i i hp
      split at h
      · rename_i task ht
        split at h
        · rename_i hw
          cases h
          exact .finish hp ht hw
        · cases h
      · cases h
    · cases h

/-- A save that is alone makes progress in the sense of the invariant. -/
theorem Safe.reads (h : s.Safe serialize parse)
    (hround : ∀ config raw, serialize config = some raw → parse raw = some config) {i : Nat}
    {task : SaveTask} (ht : s.tasks[i]? = some task) (hw : task.writer.isFinished = false) :
    ((task.writer.step (serialize task.config) s.disk).1.read = s.disk.read ∧
        (task.writer.step (serialize task.config) s.disk).2 ≠ .finished true) ∨
      (parse (task.writer.step (serialize task.config) s.disk).1.read = some task.config ∧
        (task.writer.step (serialize task.config) s.disk).2 = .finished true) := by
  obtain ⟨-, -, ⟨hread, hfin⟩ | ⟨hread, hfin⟩⟩ := (h.owns i task ht).step h.disk
  · refine .inl ⟨hread, fun hf => ?_⟩
    rw [hfin hf] at hw
    cases hw
  · exact .inr ⟨hround _ _ hread, hfin⟩

theorem Safe.step {P : Type} {s' : Saver} {a : Act P}
    (hround : ∀ config raw, serialize config = some raw → parse raw = some config)
    (h : s.Safe serialize parse) (hs : Step serialize s a s') : s'.Safe serialize parse := by
  cases hs with
  | turn docs sync env event hp => exact h.app hp (s.app.handle_configDirty docs sync env event)
  | tick hp => exact h.flushConfig hp
  | ctrlC hp =>
    refine ⟨h.disk, h.owns, fun i hi => (h.quiet i hi).imp_right fun hp' => ?_,
      fun _ => .inr rfl, h.handle, h.clean, nofun, nofun⟩
    cases hp.symm.trans hp'
  | work ht hw =>
    obtain ⟨hdisk, howns, -⟩ := (h.owns _ _ ht).step h.disk
    exact h.progress ht hw hdisk howns (h.reads hround ht hw)
  | fail ht hw => exact h.progress ht hw h.disk trivial (.inl ⟨rfl, by simp⟩)
  | settle hp hf => exact h.settle hp hf
  | finish hp ht hw => exact h.finish hp ht hw

end Safe

/-- The config was the loop's own at some point of the history. -/
def Past {P : Type} (loaded : Config) (τ : List (Transition Saver (Act P))) (config : Config) :
    Prop :=
  config = loaded ∨ ∃ t ∈ τ, t.pre.app.config = config

/-- The file and all snapshots are configs that were current once. -/
structure Held {P : Type} (parse : List UInt8 → Option Config) (loaded : Config)
    (τ : List (Transition Saver (Act P))) (s : Saver) : Prop where
  tasks : ∀ task ∈ s.tasks, Past loaded τ task.config
  file : ∃ config, parse s.disk.read = some config ∧ Past loaded τ config

section Held

variable {P : Type} {serialize : Config → Option (List UInt8)}
  {parse : List UInt8 → Option Config} {loaded : Config} {s s' : Saver}
  {τ : List (Transition Saver (Act P))} {a : Act P}

theorem Past.append {config : Config} (h : Past loaded τ config)
    (t : Transition Saver (Act P)) : Past loaded (τ ++ [t]) config :=
  h.imp_right fun ⟨u, hu, hc⟩ => ⟨u, List.mem_append_left _ hu, hc⟩

theorem Past.last {t : Transition Saver (Act P)} : Past loaded (τ ++ [t]) t.pre.app.config :=
  .inr ⟨t, by simp, rfl⟩

/-- Nothing is written, and what is started saves the config of this moment. -/
theorem Held.keep (h : Held parse loaded τ s) (hdisk : s'.disk = s.disk)
    (htasks : ∀ task ∈ s'.tasks, task ∈ s.tasks ∨ task.config = s.app.config) :
    Held parse loaded (τ ++ [⟨s, a, s'⟩]) s' where
  tasks task ht := by
    obtain ht | hc := htasks task ht
    · exact (h.tasks task ht).append _
    · exact hc ▸ Past.last (t := ⟨s, a, s'⟩)
  file := by
    obtain ⟨config, hread, hpast⟩ := h.file
    exact ⟨config, hdisk ▸ hread, hpast.append _⟩

theorem Held.progress (h : Held parse loaded τ s) {i : Nat} {task : SaveTask}
    (ht : s.tasks[i]? = some task) {disk : Disk UInt8} {writer : FileWriter UInt8}
    (hread : disk.read = s.disk.read ∨ parse disk.read = some task.config) :
    Held parse loaded (τ ++ [⟨s, a, s.progress i task disk writer⟩])
      (s.progress i task disk writer) where
  tasks task' ht' := by
    obtain ht' | rfl := List.mem_or_eq_of_mem_set ht'
    · exact (h.tasks task' ht').append _
    · exact (h.tasks task (List.mem_of_getElem? ht)).append _
  file := by
    obtain hread | hread := hread
    · obtain ⟨config, hold, hpast⟩ := h.file
      exact ⟨config, (congrArg parse hread).trans hold, hpast.append _⟩
    · exact ⟨_, hread, (h.tasks task (List.mem_of_getElem? ht)).append _⟩

theorem Held.step (h : Held parse loaded τ s) (hsafe : s.Safe serialize parse)
    (hround : ∀ config raw, serialize config = some raw → parse raw = some config)
    (hs : Step serialize s a s') : Held parse loaded (τ ++ [⟨s, a, s'⟩]) s' := by
  cases hs with
  | turn docs sync env event hp => exact h.keep rfl fun task ht => .inl ht
  | tick hp =>
    refine h.keep ?_ ?_ <;> unfold Saver.flushConfig <;> split
    · rfl
    · rename_i hf
      obtain ⟨-, -, -, -, -, hdisk, -⟩ := hsafe.reap (by simpa using hf)
      simp only
      split <;> exact hdisk
    · exact fun task ht => .inl ht
    · rename_i hf
      obtain ⟨-, -, -, hconfig, htasks, -, -⟩ := hsafe.reap (by simpa using hf)
      simp only
      split
      · exact fun task ht => .inl (htasks ▸ ht)
      · intro task ht
        obtain ht | ht := List.mem_append.mp ht
        · exact .inl (htasks ▸ ht)
        · obtain rfl := List.mem_singleton.mp ht
          exact .inr hconfig
  | ctrlC hp => exact h.keep rfl fun task ht => .inl ht
  | work ht hw => exact h.progress ht ((hsafe.reads hround ht hw).imp And.left And.left)
  | fail ht hw => exact h.progress ht (.inl rfl)
  | settle hp hf =>
    obtain ⟨-, -, -, hconfig, htasks, hdisk, -⟩ := hsafe.reap hf
    refine h.keep ?_ ?_ <;> unfold Saver.settle <;> simp only <;> split
    · exact hdisk
    · exact hdisk
    · intro task ht
      obtain ht | ht := List.mem_append.mp ht
      · exact .inl (htasks ▸ ht)
      · obtain rfl := List.mem_singleton.mp ht
        exact .inr hconfig
    · exact fun task ht => .inl (htasks ▸ ht)
  | finish hp ht hw => exact h.keep rfl fun task ht => .inl ht

end Held

section Runs

variable {P : Type} {serialize : Config → Option (List UInt8)}
  {parse : List UInt8 → Option Config} {loaded : Config} {s : Saver}
  {τ : List (Transition Saver (Act P))}

theorem Run.safe (hround : ∀ config raw, serialize config = some raw → parse raw = some config)
    (h : (saving P serialize parse loaded).Run τ s) :
    s.Safe serialize parse ∧ Held parse loaded τ s := by
  refine h.history (I := fun τ s => s.Safe serialize parse ∧ Held parse loaded τ s) ?_ ?_
  · intro s hs
    exact ⟨hs.safe, ⟨by simp [hs.tasks], loaded, hs.file, .inl rfl⟩⟩
  · intro τ s a s' _ hI hs
    have hstep := step_cases hs
    exact ⟨hI.1.step hround hstep, hI.2.step hI.1 hround hstep⟩

/-- No config change is lost or torn: writes exclude each other, the file is always one config
that was current at some time, it is the current one when nothing is dirty or outstanding, and it
is the latest one when the loop has returned, unless the final save failed. -/
theorem config_saved
    (hround : ∀ config raw, serialize config = some raw → parse raw = some config)
    (h : (saving P serialize parse loaded).Run τ s) :
    (∀ i j, s.InProgress i → s.InProgress j → i = j) ∧
    (∃ config, parse s.disk.read = some config ∧ Past loaded τ config) ∧
    (s.app.configDirty = false → s.handle = none → parse s.disk.read = some s.app.config) ∧
    (∀ final, s.phase = .returned final →
      s.SaveFailed final ∨ parse s.disk.read = some s.app.config) := by
  obtain ⟨hsafe, hheld⟩ := Run.safe hround h
  exact ⟨fun i j hi hj => hsafe.unique hi hj, hheld.file, fun hd hn => hsafe.clean hn hd,
    hsafe.returned⟩

/-- A config as a first run writes it. -/
def plainConfig : Config := ⟨"id-2", none, [], [], []⟩

/-- The loop as it starts on its file. -/
def plainStart : Saver where
  app := ⟨⟨"id-2", "host"⟩, false, false, true, ∅, ∅, plainConfig, none, false, {.devices}, []⟩
  disk := ⟨fun _ => plainConfig.toToml.getD [], 0, none, 1⟩
  tasks := []
  handle := none
  phase := .running

theorem plainStart_file : Config.ofToml plainStart.disk.read = some plainConfig :=
  plainConfig.ofToml_toToml _ (by decide +kernel)

/-- A command of the user, with nothing else going on. -/
def commanded {P : Type} (c : AppCommand) : Act P :=
  .turn ⟨[], fun _ => none⟩ ⟨false, fun _ => false, ∅⟩ ⟨0, "", true⟩ (.command c)

/-- A device is blocked; the write fails with the sibling open, and the next tick starts another
one. While that is on its way, a room is joined. -/
def retrying : List (Act Unit) :=
  [commanded (.setDeviceTrusted "d" false), .tick, .work 0, .work 0, .fail 0, .tick, .work 1,
    .work 1, commanded (.joinRoom "attic")]

/-- The write succeeds after ctrl-c, and the room is saved in place. -/
def returning : List (Act Unit) :=
  .ctrlC :: List.replicate 59 (.work 1) ++ .settle :: List.replicate 68 (.work 2) ++ [.finish]

/-- Over a failed write, a change while the next is under way and a final save, there is never
more than one writer, and the last change is in the file in the end. -/
theorem config_saved_retrying : ∃ τ₁ τ₂ s₁ s₂,
    (saving Unit Config.toToml Config.ofToml plainConfig).Run τ₁ s₁ ∧
      (s₁.InProgress 1 ∧ ∀ i, s₁.InProgress i → i = 1) ∧
    (saving Unit Config.toToml Config.ofToml plainConfig).Run (τ₁ ++ τ₂) s₂ ∧
      s₂.phase = .returned (some 2) ∧ s₂.app.config = ⟨"id-2", none, [], ["d"], ["attic"]⟩ ∧
      Config.ofToml s₂.disk.read = some s₂.app.config := by
  have hstart : Starts Config.ofToml plainConfig plainStart :=
    ⟨⟨by decide, nofun⟩, plainStart_file, by decide, by decide, rfl, rfl, rfl⟩
  obtain ⟨s₁, hs₁, hp₁⟩ := System.exists_of_exec
    (show (System.exec (step Config.toToml) plainStart retrying).any
      (fun s => (s.tasks[1]?).any fun task => !task.writer.isFinished) = true by decide +kernel)
  obtain ⟨s₂, hs₂, hp₂⟩ := System.exists_of_exec
    (show (System.exec (step Config.toToml) plainStart (retrying ++ returning)).any (fun s => decide
      (s.phase = .returned (some 2) ∧ s.app.config = ⟨"id-2", none, [], ["d"], ["attic"]⟩ ∧
        (s.tasks[2]?).map (·.writer) = some (.finished true))) = true by decide +kernel)
  obtain ⟨hphase, hconfig, hsaved⟩ := of_decide_eq_true hp₂
  have hworking : s₁.InProgress 1 := by
    obtain ⟨task, ht, hw⟩ := (Option.any_eq_true _ _).mp hp₁
    exact ⟨task, ht, by simpa using hw⟩
  rw [System.exec_append, hs₁, Option.bind_some] at hs₂
  have hinit : (saving Unit Config.toToml Config.ofToml plainConfig).Run [] plainStart :=
    .start hstart
  have hrun₁ := hinit.exec (fun _ _ _ hstep => hstep) hs₁
  have hrun₂ := hrun₁.exec (fun _ _ _ hstep => hstep) hs₂
  obtain ⟨hunique, -⟩ := config_saved Config.ofToml_toToml hrun₁
  obtain ⟨-, -, -, hreturned⟩ := config_saved Config.ofToml_toToml hrun₂
  refine ⟨_, _, s₁, s₂, hrun₁, ⟨hworking, fun i hi => hunique i 1 hi hworking⟩, hrun₂, hphase,
    hconfig, (hreturned _ hphase).resolve_left ?_⟩
  rintro ⟨i, task, hi, htask, hfailed⟩
  obtain rfl := Option.some.inj hi
  simp [htask, hfailed] at hsaved

end Runs

end Saver

end Yoink
