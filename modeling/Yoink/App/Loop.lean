import Yoink.App.Instance
import Yoink.Library.Machine
import Mathlib.Data.List.ReduceOption

/-!
# The app loop and the documents it works on

`Loop` is what of an instance the app loop touches: its own fields and the document of each
scope. Documents also change under it, when the sync tasks integrate what a peer sent. Its
inputs are these changes and the events of its channels; while the calls of a handler are
made, changes may land in between, as the schedule of the event says.
-/

namespace Yoink

variable {D P : Type}

structure Loop (D : Type) where
  app : App
  devices : D
  rooms : String → Option D

/-- A change to the document of a scope that the loop has no part in. -/
structure Change (D : Type) where
  scope : Scope
  edit : D → D

/-- What others can tell of a handler. -/
inductive Output where
  /-- `add_entry` on the document of a scope. -/
  | addEntry (scope : Scope) (entry : ClipEntry)
  /-- `clipboard.set_text`. -/
  | setText (text : String)
  deriving DecidableEq, Repr

/-- What the loop is given. In a schedule, `none` stands for the handler's next call. -/
inductive Input (D P : Type) where
  | change (change : Change D)
  | event (env : Env) (sync : SyncView) (event : Event P) (schedule : List (Option (Change D)))

def Input.event? : Input D P → Option (Event P)
  | .change _ => none
  | .event _ _ e _ => some e

def Reaction.outputs (r : Reaction) : List Output :=
  (match r.command with
    | some (.addEntry scope entry) => [.addEntry scope entry]
    | _ => []) ++ r.setText.toList.map .setText

/-- The scope whose document a call edits. -/
def Call.scope? : Call → Option Scope
  | .addEntry scope _ | .docsGetOrCreate scope | .docsRemove scope => some scope
  | .joinRoom name => some (.room name)
  | _ => none

/-- What a call does to the document of its scope. -/
def Call.onDoc [Yrs D P] : Call → Option D → Option D
  | .addEntry _ entry, doc => doc.map fun d => (Yrs.addEntry d entry).1
  | .docsGetOrCreate _, doc | .joinRoom _, doc => some (doc.getD Yrs.new)
  | .docsRemove _, _ => none
  | _, doc => doc

/-- The calls of a handler that edit documents. -/
def Reaction.docCalls (r : Reaction) : List Call :=
  (r.command.elim [] Command.calls).filter (·.scope?.isSome)

namespace Loop

/-- The documents of a scope, as `DocSet::get` finds it. -/
def get (l : Loop D) : Scope → Option D
  | .devices => some l.devices
  | .room name => l.rooms name

/-- Edit the document of a scope. The devices document always exists. -/
def modify (l : Loop D) (scope : Scope) (f : Option D → Option D) : Loop D :=
  match scope with
  | .devices => { l with devices := (f (some l.devices)).getD l.devices }
  | .room name => { l with rooms := Function.update l.rooms name (f (l.rooms name)) }

def view [Entries D] (l : Loop D) : DocsView where
  devices := Entries.entries l.devices
  room name := (l.rooms name).map Entries.entries

def change (l : Loop D) (c : Change D) : Loop D := l.modify c.scope (Option.map c.edit)

section Calls

variable [Yrs D P]

def perform (l : Loop D) (c : Call) : Loop D :=
  match c.scope? with
  | some scope => l.modify scope c.onDoc
  | none => l

/-- A change lands, or the next call is made. -/
def tick : Loop D × List Call → Option (Change D) → Loop D × List Call
  | (l, cs), some c => (l.change c, cs)
  | (l, c :: cs), none => (l.perform c, cs)
  | (l, []), none => (l, [])

/-- Make the calls along a schedule, and at its end those that are left. -/
def settle (l : Loop D) (schedule : List (Option (Change D))) (cs : List Call) : Loop D :=
  let (l, cs) := schedule.foldl tick (l, cs)
  cs.foldl perform l

variable [Entries D]

def react (l : Loop D) (env : Env) (sync : SyncView) (event : Event P) : Reaction :=
  l.app.handle l.view sync env event

/-- The loop as a machine. -/
def machine (D P : Type) [Yrs D P] [Entries D] : Machine (Loop D) (Input D P) Output where
  next
    | l, .change c => l.change c
    | l, .event env sync event schedule =>
      { l with app := (l.react env sync event).app }.settle schedule
        (l.react env sync event).docCalls
  out
    | _, .change _ => []
    | l, .event env sync event _ => (l.react env sync event).outputs

end Calls

section Get

variable {l l' : Loop D}

theorem ext_get (happ : l.app = l'.app) (h : ∀ scope, l.get scope = l'.get scope) : l = l' := by
  obtain ⟨app, devices, rooms⟩ := l
  obtain ⟨app', devices', rooms'⟩ := l'
  obtain rfl : app = app' := happ
  obtain rfl : devices = devices' := Option.some.inj (h .devices)
  obtain rfl : rooms = rooms' := funext fun name => h (.room name)
  rfl

@[simp] theorem modify_app (l : Loop D) (scope : Scope) (f : Option D → Option D) :
    (l.modify scope f).app = l.app := by
  cases scope <;> rfl

@[simp] theorem perform_app [Yrs D P] (l : Loop D) (c : Call) : (l.perform c).app = l.app := by
  unfold perform
  split
  · exact modify_app l _ _
  · rfl

theorem get_modify_of_ne (l : Loop D) {scope s : Scope} (h : s ≠ scope)
    (f : Option D → Option D) : (l.modify scope f).get s = l.get s := by
  cases scope <;> cases s <;> simp_all [modify, get]

theorem get_modify_congr {s : Scope} (h : l.get s = l'.get s) (f : Option D → Option D) :
    (l.modify s f).get s = (l'.modify s f).get s := by
  cases s <;> simp_all [modify, get]

/-- An edit that leaves a document where there was one. -/
theorem get_modify_self (l : Loop D) {scope : Scope} {f : Option D → Option D}
    (h : scope = .devices → (f (l.get scope)).isSome) :
    (l.modify scope f).get scope = f (l.get scope) := by
  cases scope with
  | room name => simp [modify, get]
  | devices =>
    obtain ⟨d, hd⟩ := Option.isSome_iff_exists.mp (h rfl)
    simp only [get] at hd ⊢
    simp [modify, hd]

theorem modify_congr (l : Loop D) {scope : Scope} {f g : Option D → Option D}
    (h : f (l.get scope) = g (l.get scope)) : l.modify scope f = l.modify scope g := by
  cases scope <;> simp_all [modify, get]

/-- An edit that changes nothing. -/
theorem modify_eq_self (l : Loop D) (scope : Scope) {f : Option D → Option D}
    (h : f (l.get scope) = l.get scope) : l.modify scope f = l := by
  cases scope <;> simp_all [modify, get]

end Get

end Loop

/-- The document of a scope. -/
def Docs.content (docs : Docs D) (scope : Scope) : Option D := (docs.get scope).map docs.heap

/-- What the app loop works on. -/
def Docs.loop (docs : Docs D) (app : App) : Loop D where
  app
  devices := docs.heap docs.set.devices
  rooms name := docs.content (.room name)

namespace Docs

@[simp] theorem loop_get (docs : Docs D) (app : App) (scope : Scope) :
    (docs.loop app).get scope = docs.content scope := by
  cases scope <;> rfl

theorem loop_view [Entries D] (docs : Docs D) (app : App) : (docs.loop app).view = docs.view := by
  simp only [Loop.view, loop, view, content, Option.map_map]
  rfl

theorem content_write (docs : Docs D) (doc : DocId) (d : D) (scope : Scope) :
    (docs.write doc d).content scope =
      if docs.get scope = some doc then some d else docs.content scope := by
  simp only [content, get_write]
  cases hs : docs.get scope with
  | none => simp
  | some doc' => by_cases heq : doc' = doc <;> simp [heq]

theorem content_remove (docs : Docs D) (scope s : Scope) :
    (docs.remove scope).content s =
      if s = scope ∧ s ≠ .devices then none else docs.content s := by
  simp only [content, get_remove]
  split <;> rfl

end Docs

namespace Manager

variable [Yrs D P] {m m' : Manager D P} {σ : DocId → Scope}

theorem Named.content_getOrCreate (h : m.Named σ) (scope s : Scope) :
    (m.docs.getOrCreate scope).1.content s =
      if s = scope then some ((m.docs.content s).getD Yrs.new) else m.docs.content s := by
  have kept {d : DocId} (hd : m.docs.get s = some d) :
      (m.docs.getOrCreate scope).1.heap d = m.docs.heap d :=
    m.docs.getOrCreate_heap scope (h.set s d hd).1
  by_cases hs : s = scope
  · subst hs
    obtain ⟨d, hd, heq⟩ | ⟨hd, hnew, hnext⟩ := m.docs.getOrCreate_cases s
    · simp [Docs.content, heq, hd]
    · have hlt : m.docs.next < (m.docs.getOrCreate s).1.next := by simp [hnext]
      have hheap := Docs.getOrCreate_heap_new le_rfl hlt
      simp [Docs.content, Docs.getOrCreate_get, hd, hnew, hheap]
  · simp only [Docs.content, Docs.getOrCreate_get_ne _ hs, if_neg hs]
    cases hd : m.docs.get s with
    | none => rfl
    | some d => simp [kept hd]

omit [Yrs D P] in
/-- A transaction changes the document of one scope at most. -/
theorem Named.loop_write (h : m.Named σ) {scope : Scope} {doc : DocId}
    (hdoc : m.docs.get scope = some doc) (d : D) (app : App) :
    (m.docs.write doc d).loop app = (m.docs.loop app).modify scope fun _ => some d := by
  refine Loop.ext_get (by simp [Docs.loop]) fun s => ?_
  rw [Docs.loop_get, Docs.content_write]
  by_cases hs : s = scope
  · subst hs
    rw [if_pos hdoc, Loop.get_modify_self _ fun _ => rfl]
  · have hne : m.docs.get s ≠ some doc := fun hget =>
      hs ((h.set s doc hget).2.symm.trans (h.set scope doc hdoc).2)
    rw [if_neg hne, Loop.get_modify_of_ne _ hs, Docs.loop_get]

/-- What a call does to the documents of the loop. -/
theorem Named.perform_loop (h : m.Named σ) {c : Call} (app : App)
    (hj : ∀ name, c = .joinRoom name → (m.docs.get (.room name)).isSome) :
    (m.perform c).1.docs.loop app = (m.docs.loop app).perform c := by
  have created (scope : Scope) : (m.docs.getOrCreate scope).1.loop app =
      (m.docs.loop app).modify scope fun doc => some (doc.getD Yrs.new) := by
    refine Loop.ext_get (by simp [Docs.loop]) fun s => ?_
    rw [Docs.loop_get, h.content_getOrCreate]
    by_cases hs : s = scope
    · subst hs
      rw [if_pos rfl, Loop.get_modify_self _ fun _ => rfl, Docs.loop_get]
    · rw [if_neg hs, Loop.get_modify_of_ne _ hs, Docs.loop_get]
  cases c with
  | addEntry scope entry =>
    cases hg : m.docs.get scope with
    | none =>
      simp only [perform, hg]
      exact (Loop.modify_eq_self _ scope (by simp [Call.onDoc, Docs.content, hg])).symm
    | some doc =>
      simp only [perform, hg, (commit_spec m doc _ _ none).1]
      rw [h.loop_write hg]
      exact Loop.modify_congr _ (by simp [Call.onDoc, Docs.content, hg])
  | docsGetOrCreate scope => exact created scope
  | docsRemove scope =>
    refine Loop.ext_get (Loop.perform_app (m.docs.loop app) _).symm fun s => ?_
    rw [Docs.loop_get]
    cases scope with
    | devices => cases s <;> rfl
    | room name =>
      simp only [perform, Docs.content_remove, Loop.perform, Call.scope?]
      by_cases hs : s = .room name
      · subst hs
        rw [Loop.get_modify_self _ (fun hd => by cases hd)]
        simp [Call.onDoc]
      · rw [Loop.get_modify_of_ne _ hs, Docs.loop_get]
        simp [hs]
  | joinRoom name =>
    obtain heq | ⟨-, -, heq, -⟩ := m.joinRoom_cases name
    · simp only [perform, heq]
      obtain ⟨d, hd⟩ := Option.isSome_iff_exists.mp (hj name rfl)
      refine (Loop.modify_eq_self (m.docs.loop app) (.room name) ?_).symm
      rw [Docs.loop_get]
      simp [Call.onDoc, Docs.content, hd]
    · simp only [perform, heq]
      exact created (.room name)
  | maybeSpawnDialer d s n =>
    obtain h | ⟨-, -, h⟩ := m.maybeSpawnDialer_cases d s n <;> simp only [perform, h] <;> rfl
  | hangup e => simp only [perform, signalHangup_eq]; rfl
  | cancelDialer l => simp only [perform, cancelLoop_eq]; rfl
  | dropFanOut f => simp only [perform, cancelFan_eq]; rfl
  | _ => rfl

/-- The calls the app loop has left, as far as they edit documents. -/
def docCalls (m : Manager D P) : List Call := (m.calls (.caller 0)).filter (·.scope?.isSome)

/-- The app loop's call to join a room finds its document, as the call before it is to
create it. -/
def JoinsWired (m : Manager D P) : Prop :=
  ∀ name, .joinRoom name ∈ m.calls (.caller 0) →
    m.calls (.caller 0) = [.docsGetOrCreate (.room name), .joinRoom name] ∨
      m.calls (.caller 0) = [.joinRoom name] ∧ (m.docs.get (.room name)).isSome

theorem docCalls_effects {cs : List Call} (h : ∀ c ∈ cs, c.isEffect = true) :
    cs.filter (·.scope?.isSome) = [] := by
  rw [List.filter_eq_nil_iff]
  intro c hc
  have he := h c hc
  cases c <;> simp_all [Call.isEffect, Call.scope?]

variable [DecidableEq P]

/-- Nobody but the app loop opens and closes documents. -/
theorem Step.docs_set {a : Action P} (hs : m.Step a m') (ho : m.AppOnly)
    (ha : a ≠ .call (.caller 0)) : m'.docs.set = m.docs.set := by
  have other {t : ThreadId} {c : Call} {cs : List Call} (hc : m.calls t = c :: cs)
      (hact : a = .call t) : c.isEffect = true ∨ ∃ k g, c = .forceClose k g := by
    refine ho t ?_ c (by rw [hc]; exact List.mem_cons_self)
    rintro rfl
    exact ha hact
  cases hs.roomStep with
  | quiet hd => exact hd
  | created hc => obtain h | ⟨_, _, h⟩ := other hc rfl <;> cases h
  | removed hc => obtain h | ⟨_, _, h⟩ := other hc rfl <;> cases h
  | joined hc => obtain h | ⟨_, _, h⟩ := other hc rfl <;> cases h
  | left hc hd => rw [hd]

/-- A step of another thread changes the document of one scope at most. -/
theorem Step.loop_other {a : Action P} (hs : m.Step a m') (ho : m.AppOnly) (h : m.Named σ)
    (ha : a ≠ .call (.caller 0)) (app : App) :
    m'.docs.loop app = m.docs.loop app ∨
      ∃ c : Change D, m'.docs.loop app = (m.docs.loop app).change c := by
  have hset := hs.docs_set ho ha
  have hcommits := hs.commits_eq
  split at hcommits
  · rename_i c _
    rw [hcommits.1]
    by_cases hdoc : ∃ scope, m.docs.get scope = some c.doc
    · obtain ⟨scope, hdoc⟩ := hdoc
      refine .inr ⟨⟨scope, fun _ => c.result⟩, ?_⟩
      rw [h.loop_write hdoc]
      exact Loop.modify_congr _ (by simp [Docs.content, hdoc])
    · -- A document that a task still holds after its room was left.
      refine .inl (Loop.ext_get rfl fun scope => ?_)
      rw [Docs.loop_get, Docs.loop_get, Docs.content_write, if_neg fun hget => hdoc ⟨scope, hget⟩]
  · refine .inl (Loop.ext_get rfl fun scope => ?_)
    have hget : m'.docs.get scope = m.docs.get scope := by rw [Docs.get, hset, Docs.get]
    simp only [Docs.loop_get, Docs.content, hget]
    cases hd : m.docs.get scope with
    | none => rfl
    | some d => simp [hcommits d (h.set scope d hd).1]

/-- The app loop makes its next call. -/
theorem Step.loop_call (hs : m.Step (.call (.caller 0)) m') (h : m.Named σ) (hw : m.JoinsWired)
    (app : App) :
    (m'.docs.loop app, m'.docCalls) = (m.docs.loop app, m.docCalls) ∨
      (m'.docs.loop app, m'.docCalls) = Loop.tick (m.docs.loop app, m.docCalls) none := by
  obtain ⟨c, cs, hc, rfl⟩ := hs.of_call
  have hcalls : ((m.perform c).1.setCalls (.caller 0) ((m.perform c).2 ++ cs)).docCalls =
      cs.filter (·.scope?.isSome) := by
    simp [docCalls, docCalls_effects (m.perform_isEffect c)]
  have hloop : ((m.perform c).1.setCalls (.caller 0) ((m.perform c).2 ++ cs)).docs.loop app =
      (m.docs.loop app).perform c := by
    refine h.perform_loop app fun name hn => ?_
    obtain hw | ⟨-, hw⟩ := hw name (by simp [hc, hn])
    · rw [hc, hn] at hw
      cases hw
    · exact hw
  rw [hcalls, hloop]
  cases hs : c.scope? with
  | none => exact .inl (by simp [docCalls, hc, hs, Loop.perform])
  | some scope => exact .inr (by simp [docCalls, hc, hs, Loop.tick])

/-- What a step other than the start of an operation does to the documents and the calls that
are left. -/
theorem Step.turn {a : Action P} (hs : m.Step a m') (hi : a.isInvoke = false) (ho : m.AppOnly)
    (h : m.Named σ) (hw : m.JoinsWired) (app : App) :
    (m'.docs.loop app, m'.docCalls) = (m.docs.loop app, m.docCalls) ∨
      ∃ o, (m'.docs.loop app, m'.docCalls) = Loop.tick (m.docs.loop app, m.docCalls) o := by
  by_cases ha : a = .call (.caller 0)
  · subst ha
    exact (hs.loop_call h hw app).imp_right fun h => ⟨none, h⟩
  · have hcalls : m'.docCalls = m.docCalls := by rw [docCalls, hs.app_calls hi ha, docCalls]
    rw [hcalls]
    obtain heq | ⟨c, heq⟩ := hs.loop_other ho h ha app
    · exact .inl (by rw [heq])
    · exact .inr ⟨some c, by rw [heq]; rfl⟩

theorem JoinsWired.step {a : Action P} (hw : m.JoinsWired) (hs : m.Step a m')
    (hi : a.isInvoke = false) (ho : m.AppOnly) : m'.JoinsWired := by
  by_cases ha : a = .call (.caller 0)
  · subst ha
    obtain ⟨c, cs, hc, rfl⟩ := hs.of_call
    intro name hmem
    rw [setCalls_calls, Function.update_self] at hmem ⊢
    have hin : .joinRoom name ∈ cs := by
      refine (List.mem_append.mp hmem).resolve_left fun hin => ?_
      cases m.perform_isEffect c _ hin
    obtain heq | ⟨heq, -⟩ := hw name (hc ▸ List.mem_cons_of_mem _ hin)
    · obtain ⟨rfl, rfl⟩ := List.cons.inj (hc.symm.trans heq)
      refine .inr ⟨rfl, ?_⟩
      simp [perform, Docs.getOrCreate_get]
    · obtain ⟨-, rfl⟩ := List.cons.inj (hc.symm.trans heq)
      cases hin
  · intro name
    rw [hs.app_calls hi ha, Docs.get, hs.docs_set ho ha]
    exact hw name

end Manager

namespace Instance

variable {i i' : Instance D P}

/-- The documents as the loop finds them, and the calls it has left. -/
def turn (i : Instance D P) : Loop D × List Call := (i.sync.docs.loop i.app, i.sync.docCalls)

section Turn

variable [Yrs D P] [Entries D]

/-- The events a run has handled. -/
def handled (τ : List (Transition (Instance D P) (Act P))) : List (Event P) :=
  τ.filterMap fun t =>
    match t.act with
    | .handle _ event => some event
    | .sync _ => none

/-- What the handlers of a run did. -/
def outputs (τ : List (Transition (Instance D P) (Act P))) : List Output :=
  τ.flatMap fun t =>
    match t.act with
    | .handle env event => (t.pre.react env event).outputs
    | .sync _ => []

omit [Yrs D P] [Entries D] in
theorem handled_sync (τ : List (Transition (Instance D P) (Act P))) (a : Action P) :
    handled (τ ++ [⟨i, .sync a, i'⟩]) = handled τ := by
  rw [handled, List.filterMap_append]
  exact List.append_nil _

omit [Yrs D P] in
theorem outputs_sync (τ : List (Transition (Instance D P) (Act P))) (a : Action P) :
    outputs (τ ++ [⟨i, .sync a, i'⟩]) = outputs τ := by
  rw [outputs, List.flatMap_append]
  exact List.append_nil _

/-- What the loop makes of `inputs` so far is the instance as it stands: between two events, or
along the schedule of the last one. -/
inductive Follows (first : Loop D) (i : Instance D P) : List (Input D P) → Prop where
  | start (cs : List (Change D))
      (h : i.turn = ((Loop.machine D P).after first (cs.map .change), [])) :
      Follows first i (cs.map .change)
  | event (is : List (Input D P)) (env : Env) (sync : SyncView) (e : Event P)
      (schedule : List (Option (Change D))) {l : Loop D}
      (hl : (Loop.machine D P).after first is = l)
      (h : i.turn = schedule.foldl Loop.tick
        ({ l with app := (l.react env sync e).app }, (l.react env sync e).docCalls)) :
      Follows first i (is ++ [.event env sync e schedule])

theorem Follows.after {first : Loop D} {is : List (Input D P)} (h : Follows first i is)
    (hidle : i.sync.docCalls = []) :
    (Loop.machine D P).after first is = i.sync.docs.loop i.app := by
  cases h with
  | start cs h => exact (congrArg Prod.fst h).symm
  | event is env sync e schedule hl h =>
    rw [Machine.after_append, hl]
    simp only [Machine.after_cons, Machine.after_nil, Loop.machine, Loop.settle, ← h]
    rw [turn, hidle]
    rfl

omit [Yrs D P] [Entries D] in
/-- The handler has run and none of its calls has been made. -/
theorem turn_request (hidle : i.Idle) (r : Reaction) {n : Nat} {ds : Finset DeviceId} :
    turn ⟨r.app, i.sync.request r.command, n, ds⟩ =
      ({ i.sync.docs.loop i.app with app := r.app }, r.docCalls) := by
  refine Prod.ext ?_ ?_
  · cases r.command <;> rfl
  · cases hc : r.command with
    | none =>
      simp only [turn, Manager.docCalls, Manager.request, Reaction.docCalls, hc]
      rw [hidle]
      rfl
    | some command => simp [turn, Manager.docCalls, Manager.request, Reaction.docCalls, hc]

theorem Follows.congr {first : Loop D} {is : List (Input D P)} (h : Follows first i is)
    (heq : i'.turn = i.turn) : Follows first i' is := by
  cases h with
  | start cs h => exact .start cs (heq.trans h)
  | event is env sync e schedule hl h => exact .event is env sync e schedule hl (heq.trans h)

theorem Follows.tick {first : Loop D} {is : List (Input D P)} (h : Follows first i is)
    {o : Option (Change D)} (ho : i'.turn = Loop.tick i.turn o) :
    ∃ is', Follows first i' is' ∧ is'.filterMap Input.event? = is.filterMap Input.event? ∧
      (Loop.machine D P).outputs first is' = (Loop.machine D P).outputs first is := by
  cases h with
  | start cs h =>
    rw [h] at ho
    cases o with
    | none => exact ⟨_, .start cs ho, rfl, rfl⟩
    | some c =>
      have hchange : (cs ++ [c]).map (Input.change (P := P)) = cs.map .change ++ [.change c] :=
        List.map_append
      refine ⟨_, .start (cs ++ [c]) ?_, ?_, ?_⟩
      · rw [hchange, Machine.after_append]
        exact ho
      · rw [hchange, List.filterMap_append]
        exact List.append_nil _
      · rw [hchange, Machine.outputs_append]
        exact List.append_nil _
  | event is env sync e schedule hl h =>
    refine ⟨_, .event is env sync e (schedule ++ [o]) hl ?_, ?_, ?_⟩
    · rw [List.foldl_append, ← h]
      exact ho
    · simp [Input.event?]
    · rw [Machine.outputs_append, Machine.outputs_append]
      rfl

end Turn

section Refinement

variable [Yrs D P] [Entries D] [DecidableEq P] {config : Config} {name : String}
  {settings : EffectiveSettings}

theorem Reachable.joinsWired (h : (system D P config name settings).Reachable i) :
    i.sync.JoinsWired := by
  refine h.invariant (I := fun i => i.sync.JoinsWired) ?_ fun i a i' hr hI hs => ?_
  · rintro i rfl n hn
    rw [start_sync, (Manager.new_bare _ _ _).calls] at hn
    cases hn
  · cases step_cases hs with
    | sync ha hm => exact hI.step (Manager.step_cases hm) ha (Reachable.appOnly hr)
    | @handle env event hidle hdel =>
      have hr : App.Requests event (i.react env event).command :=
        i.app.handle_requests _ _ env event
      generalize (i.react env event).command = command at hr ⊢
      cases hr with
      | nothing => exact hI
      | joined raw =>
        intro n hn
        simp only [Manager.request, Manager.setCalls_calls, Function.update_self,
          Command.calls] at hn ⊢
        cases hraw : sanitizeRoomName raw with
        | none => simp [hraw] at hn
        | some n' =>
          obtain rfl : n = n' := by simpa [hraw] using hn
          exact .inl rfl
      | left raw =>
        intro n hn
        simp only [Manager.request, Manager.setCalls_calls, Function.update_self,
          Command.calls] at hn
        split at hn <;> simp at hn
      | _ =>
        intro n hn
        simp [Manager.request, Command.calls] at hn

theorem Run.follows {τ : List (Transition (Instance D P) (Act P))}
    (h : (system D P config name settings).Run τ i) :
    ∃ inputs : List (Input D P),
      let first := (start config name settings : Instance D P)
      Follows (first.sync.docs.loop first.app) i inputs ∧
      inputs.filterMap Input.event? = handled τ ∧
      (Loop.machine D P).outputs (first.sync.docs.loop first.app) inputs = outputs τ := by
  induction h with
  | start hi =>
    obtain rfl := hi
    refine ⟨_, .start [] ?_, rfl, rfl⟩
    rw [turn, Manager.docCalls, start_sync, (Manager.new_bare _ _ _).calls]
    rfl
  | @next τ i i' a hr hs ih =>
    obtain ⟨inputs, hf, hevents, houts⟩ := ih
    cases step_cases hs with
    | @sync a m ha hm =>
      obtain ⟨σ, hσ⟩ := Manager.Reachable.named (Reachable.sync hr.reachable)
      rw [handled_sync, outputs_sync]
      obtain heq | ⟨o, ho⟩ := (Manager.step_cases hm).turn ha (Reachable.appOnly hr.reachable) hσ
        (Reachable.joinsWired hr.reachable) i.app
      · exact ⟨inputs, hf.congr heq, hevents, houts⟩
      · have ho : turn { i with sync := m } = Loop.tick i.turn o := ho
        obtain ⟨inputs', hf', hevents', houts'⟩ := hf.tick ho
        exact ⟨inputs', hf', hevents'.trans hevents, houts'.trans houts⟩
    | @handle env event hidle hdel =>
      have hloop := hf.after (by rw [Manager.docCalls, hidle]; rfl)
      have hreact : (i.sync.docs.loop i.app).react env i.sync.view event = i.react env event := by
        rw [Loop.react, Docs.loop_view]
        rfl
      refine ⟨_, .event inputs env i.sync.view event [] hloop ?_, ?_, ?_⟩
      · rw [hreact]
        exact turn_request hidle _
      · rw [List.filterMap_append, hevents, handled, handled, List.filterMap_append]
        rfl
      · rw [Machine.outputs_append, houts, hloop, outputs, outputs, List.flatMap_append]
        simp [Loop.machine, hreact]

/-- What an instance does is what its loop makes of the events it handled, with the changes its
tasks made to the documents. -/
theorem Run.loop {τ : List (Transition (Instance D P) (Act P))}
    (h : (system D P config name settings).Run τ i) (hidle : i.Idle) :
    ∃ inputs : List (Input D P),
      let first := (start config name settings : Instance D P)
      inputs.filterMap Input.event? = handled τ ∧
      (Loop.machine D P).outputs (first.sync.docs.loop first.app) inputs = outputs τ ∧
      (Loop.machine D P).after (first.sync.docs.loop first.app) inputs =
        i.sync.docs.loop i.app := by
  obtain ⟨inputs, hf, hevents, houts⟩ := Run.follows h
  exact ⟨inputs, hevents, houts, hf.after (by rw [Manager.docCalls, hidle]; rfl)⟩

end Refinement

end Instance

end Yoink
