import Yoink.App.Loop
import Yoink.Core.GrowSet

/-!
# Rooms and the OS clipboard do not interfere

Two observers watch the loop. One sees what is added to rooms and must learn nothing of the
clipboard and the devices document; the other sees what reaches the clipboard and must
learn nothing of rooms. For each, `Input.purge` drops what is none of his business, and
`Observer.purges` reduces the matter to one reaction of the loop.
-/

namespace Yoink

variable {D P : Type} {β : Type}

/-- A call that edits no document of a scope in `keeps`. -/
def Call.Avoids (keeps : Scope → Bool) (c : Call) : Prop :=
  ∀ scope, c.scope? = some scope → keeps scope = false

/-- What an observer who knows the scopes in `keeps` and none of the events in `erases` has to
know of an input. Of an event that is erased, the changes that landed meanwhile are left. -/
def Input.purge (keeps : Scope → Bool) (erases : Event P → Bool) :
    Input D P → List (Input D P)
  | .change c => if keeps c.scope then [.change c] else []
  | .event env sync e schedule =>
    if erases e then (schedule.reduceOption.filter fun c => keeps c.scope).map .change
    else [.event env sync e (schedule.filter fun o => o.all fun c => keeps c.scope)]

/-- Pending calls that come to the same for the documents of the scopes in `keeps`. -/
def CallsAlike (keeps : Scope → Bool) (cs cs' : List Call) : Prop :=
  cs = cs' ∨ (∀ c ∈ cs, c.Avoids keeps) ∧ ∀ c ∈ cs', c.Avoids keeps

namespace Loop

/-- The documents of the scopes in `keeps` are the same. -/
def DocsAgree (keeps : Scope → Bool) (l l' : Loop D) : Prop :=
  ∀ scope, keeps scope = true → l.get scope = l'.get scope

variable {keeps : Scope → Bool} {l l' : Loop D}

namespace DocsAgree

theorem symm (h : DocsAgree keeps l l') : DocsAgree keeps l' l :=
  fun s hs => (h s hs).symm

/-- The loop's own fields are not compared. -/
theorem set_app (h : DocsAgree keeps l l') (app app' : App) :
    DocsAgree keeps { l with app } { l' with app := app' } := by
  intro s hs
  have hget := h s hs
  cases s <;> exact hget

theorem modify (h : DocsAgree keeps l l') (scope : Scope) (f : Option D → Option D) :
    DocsAgree keeps (l.modify scope f) (l'.modify scope f) := by
  intro s hs
  by_cases hss : s = scope
  · subst hss
    exact get_modify_congr (h s hs) f
  · rw [get_modify_of_ne l hss, get_modify_of_ne l' hss]
    exact h s hs

theorem modify_left (h : DocsAgree keeps l l') {scope : Scope} (hk : keeps scope = false)
    (f : Option D → Option D) : DocsAgree keeps (l.modify scope f) l' := by
  intro s hs
  have hss : s ≠ scope := by
    rintro rfl
    simp [hk] at hs
  rw [get_modify_of_ne l hss]
  exact h s hs

section Calls

variable [Yrs D P]

theorem perform (h : DocsAgree keeps l l') (c : Call) :
    DocsAgree keeps (l.perform c) (l'.perform c) := by
  unfold Loop.perform
  cases c.scope? with
  | some scope => exact h.modify scope c.onDoc
  | none => exact h

theorem perform_left (h : DocsAgree keeps l l') {c : Call} (hc : c.Avoids keeps) :
    DocsAgree keeps (l.perform c) l' := by
  unfold Loop.perform
  cases hs : c.scope? with
  | some scope => exact h.modify_left (hc scope hs) c.onDoc
  | none => exact h

theorem performs_left {cs : List Call} (h : DocsAgree keeps l l')
    (hcs : ∀ c ∈ cs, c.Avoids keeps) : DocsAgree keeps (cs.foldl Loop.perform l) l' := by
  induction cs generalizing l with
  | nil => exact h
  | cons c cs ih =>
    obtain ⟨hc, hcs⟩ := List.forall_mem_cons.mp hcs
    exact ih (h.perform_left hc) hcs

theorem performs {cs cs' : List Call} (h : DocsAgree keeps l l') (hcs : CallsAlike keeps cs cs') :
    DocsAgree keeps (cs.foldl Loop.perform l) (cs'.foldl Loop.perform l') := by
  obtain rfl | ⟨hcs, hcs'⟩ := hcs
  · induction cs generalizing l l' with
    | nil => exact h
    | cons c cs ih => exact ih (h.perform c)
  · exact ((h.performs_left hcs).symm.performs_left hcs').symm

theorem tick_left {cs : List Call} (h : DocsAgree keeps l l') (hcs : ∀ c ∈ cs, c.Avoids keeps) :
    DocsAgree keeps (tick (l, cs) none).1 l' ∧ ∀ c ∈ (tick (l, cs) none).2, c.Avoids keeps := by
  cases cs with
  | nil => exact ⟨h, hcs⟩
  | cons c cs =>
    obtain ⟨hc, hcs⟩ := List.forall_mem_cons.mp hcs
    exact ⟨h.perform_left hc, hcs⟩

/-- Two handlers' calls made along a schedule and along what is left of it. -/
theorem settle {cs cs' : List Call} (h : DocsAgree keeps l l') (hcs : CallsAlike keeps cs cs')
    (schedule : List (Option (Change D))) :
    DocsAgree keeps (l.settle schedule cs)
      (l'.settle (schedule.filter fun o => o.all fun c => keeps c.scope) cs') := by
  induction schedule generalizing l l' cs cs' with
  | nil => exact h.performs hcs
  | cons o schedule ih =>
    cases o with
    | some c =>
      by_cases hk : keeps c.scope = true
      · rw [List.filter_cons_of_pos (by simpa using hk)]
        exact ih (h.modify c.scope _) hcs
      · rw [List.filter_cons_of_neg (by simpa using hk)]
        exact ih (h.modify_left (by simpa using hk) _) hcs
    | none =>
      rw [List.filter_cons_of_pos rfl]
      obtain rfl | ⟨hcs, hcs'⟩ := hcs
      · cases cs with
        | nil => exact ih h (.inl rfl)
        | cons c cs => exact ih (h.perform c) (.inl rfl)
      · -- Neither call reaches the documents that are compared.
        obtain ⟨h, hcs⟩ := h.tick_left hcs
        obtain ⟨h', hcs'⟩ := h.symm.tick_left hcs'
        exact ih h'.symm (.inr ⟨hcs, hcs'⟩)

variable [Entries D]

/-- A handler that reaches none of the documents that are compared. -/
theorem settle_left {cs : List Call} (h : DocsAgree keeps l l') (hcs : ∀ c ∈ cs, c.Avoids keeps)
    (schedule : List (Option (Change D))) :
    DocsAgree keeps (l.settle schedule cs) ((machine D P).after l'
      ((schedule.reduceOption.filter fun c => keeps c.scope).map .change)) := by
  induction schedule generalizing l l' cs with
  | nil => exact h.performs_left hcs
  | cons o schedule ih =>
    cases o with
    | some c =>
      rw [List.reduceOption_cons_of_some]
      by_cases hk : keeps c.scope = true
      · rw [List.filter_cons_of_pos (p := fun c : Change D => keeps c.scope) hk]
        exact ih (h.modify c.scope _) hcs
      · rw [List.filter_cons_of_neg (p := fun c : Change D => keeps c.scope) hk]
        exact ih (h.modify_left (by simpa using hk) _) hcs
    | none =>
      rw [List.reduceOption_cons_of_none]
      obtain ⟨h, hcs⟩ := h.tick_left hcs
      exact ih h hcs

end Calls

end DocsAgree

section Fields

variable [Yrs D P]

theorem tick_app (t : Loop D × List Call) (o : Option (Change D)) :
    (tick t o).1.app = t.1.app := by
  obtain ⟨l, cs⟩ := t
  cases o with
  | some c => exact modify_app l c.scope _
  | none =>
    cases cs with
    | nil => rfl
    | cons c cs =>
      simp only [tick, perform]
      split
      · exact modify_app l _ _
      · rfl

/-- The loop's own fields change with its handlers only. -/
@[simp] theorem settle_app (l : Loop D) (schedule : List (Option (Change D))) (cs : List Call) :
    (l.settle schedule cs).app = l.app := by
  induction schedule generalizing l cs with
  | nil =>
    induction cs generalizing l with
    | nil => rfl
    | cons c cs ih => exact (ih (l.perform c)).trans (tick_app (l, c :: cs) none)
  | cons o schedule ih => exact (ih _ _).trans (tick_app (l, cs) o)

@[simp] theorem after_changes_app [Entries D] (l : Loop D) (cs : List (Change D)) :
    ((machine D P).after l (cs.map .change)).app = l.app := by
  induction cs generalizing l with
  | nil => rfl
  | cons c cs ih => exact (ih (l.change c)).trans (modify_app l c.scope _)

@[simp] theorem outputs_changes [Entries D] (l : Loop D) (cs : List (Change D)) :
    (machine D P).outputs l (cs.map .change) = [] := by
  induction cs generalizing l with
  | nil => rfl
  | cons c cs ih => exact ih (l.change c)

end Fields

end Loop

/-- An observer of the loop. -/
structure Observer (β : Type) where
  /-- The scopes whose documents he knows. -/
  keeps : Scope → Bool
  /-- What he sees of an output. -/
  sees : Output → Option β
  /-- He cannot tell two states of the loop's own fields apart. -/
  same : App → App → Prop

namespace Observer

variable {o : Observer β}

def Agree (o : Observer β) (l l' : Loop D) : Prop :=
  o.same l.app l'.app ∧ l.DocsAgree o.keeps l'

/-- Two handlers look the same to the observer. -/
structure Alike (o : Observer β) (r r' : Reaction) : Prop where
  same : o.same r.app r'.app
  calls : CallsAlike o.keeps r.docCalls r'.docCalls
  outputs : r.outputs.filterMap o.sees = r'.outputs.filterMap o.sees

variable [Yrs D P] [Entries D]

/-- The observer is separated from what the purge takes out, if the handlers of an event he
may know look the same wherever he sees no difference, and the others do nothing he sees. -/
theorem purges {erases : Event P → Bool} {p : Event P → Prop}
    (kept : ∀ {l l' : Loop D} env sync {e : Event P}, p e → erases e = false → o.Agree l l' →
      o.Alike (l.react env sync e) (l'.react env sync e))
    (erased : ∀ (l : Loop D) env sync {e : Event P} {app : App}, erases e = true →
      o.same l.app app → o.Alike (l.react env sync e) { app }) :
    (Loop.machine D P).Purges (Input.purge o.keeps erases) (fun i => ∀ e, i.event? = some e → p e)
      o.sees o.Agree := by
  have key {l l' : Loop D} {i : Input D P} (hp : ∀ e, i.event? = some e → p e)
      (hs : o.Agree l l') :
      o.Agree ((Loop.machine D P).next l i) ((Loop.machine D P).after l' (i.purge o.keeps erases)) ∧
        ((Loop.machine D P).out l i).filterMap o.sees =
          ((Loop.machine D P).outputs l' (i.purge o.keeps erases)).filterMap o.sees := by
    obtain ⟨happ, hdocs⟩ := hs
    cases i with
    | change c =>
      simp only [Input.purge]
      split
      · exact ⟨⟨by simpa [Loop.machine, Loop.change] using happ, hdocs.modify c.scope _⟩, rfl⟩
      · rename_i hk
        exact ⟨⟨by simpa [Loop.machine, Loop.change] using happ,
          hdocs.modify_left (by simpa using hk) _⟩, rfl⟩
    | event env sync e schedule =>
      have happ' (l : Loop D) (schedule : List (Option (Change D))) :
          ((Loop.machine D P).next l (.event env sync e schedule)).app =
            (l.react env sync e).app := Loop.settle_app _ _ _
      simp only [Input.purge]
      split
      · rename_i he
        have h := erased l env sync he happ
        have hcs : ∀ c ∈ (l.react env sync e).docCalls, c.Avoids o.keeps := by
          obtain heq | ⟨hcs, -⟩ := h.calls
          · rw [heq]
            exact fun c hc => by cases hc
          · exact hcs
        refine ⟨⟨?_, ?_⟩, ?_⟩
        · rw [happ', Loop.after_changes_app]
          exact h.same
        · exact Loop.DocsAgree.settle_left (hdocs.set_app _ _) hcs schedule
        · rw [Loop.outputs_changes]
          exact h.outputs
      · rename_i he
        have h := kept env sync (hp e rfl) (by simpa using he) ⟨happ, hdocs⟩
        refine ⟨⟨?_, ?_⟩, ?_⟩
        · rw [Machine.after_cons, Machine.after_nil, happ', happ']
          exact h.same
        · exact Loop.DocsAgree.settle (hdocs.set_app _ _) h.calls schedule
        · rw [Machine.outputs_cons, Machine.outputs_nil, List.append_nil]
          exact h.outputs
  exact ⟨fun hp hs => (key hp hs).1, fun hp hs => (key hp hs).2⟩

end Observer

/-- The handler adds to the document of `scope`, if it adds anything. -/
def Reaction.AddsTo (scope : Scope) (r : Reaction) : Prop :=
  r.command = none ∨ ∃ entry, r.command = some (.addEntry scope entry)

theorem Reaction.AddsTo.avoids {r : Reaction} {scope : Scope} {keeps : Scope → Bool}
    (h : r.AddsTo scope) (hk : keeps scope = false) : ∀ c ∈ r.docCalls, c.Avoids keeps := by
  intro c hc s hs
  obtain h | ⟨entry, h⟩ := h
  · simp [docCalls, h] at hc
  · obtain ⟨rfl, -⟩ : c = .addEntry scope entry ∧ _ := by
      simpa [docCalls, h, Command.calls] using hc
    obtain rfl := Option.some.inj hs
    exact hk

theorem App.addEntry_addsTo (app : App) (docs : DocsView) (sync : SyncView) (env : Env)
    (text : String) (scope : Scope) :
    (app.onCommand docs sync env (.addEntry text scope)).AddsTo scope := by
  simp only [onCommand]
  split
  · exact .inl rfl
  · simp only [Reaction.AddsTo]
    split
    · exact .inr ⟨_, rfl⟩
    · exact .inl rfl

theorem App.addEntry_app (app : App) (docs : DocsView) (sync : SyncView) (env : Env)
    (text : String) (scope : Scope) :
    (app.onCommand docs sync env (.addEntry text scope)).app = app := by
  simp only [onCommand]
  split <;> rfl

/-- An add to a document the observer does not know looks the same, a duplicate or not. -/
theorem Observer.addEntry_alike {o : Observer β} {app app' : App} {text : String} {scope : Scope}
    (docs docs' : DocsView) (sync : SyncView) (env : Env)
    (hsame : o.same app app') (hk : o.keeps scope = false)
    (hseen : ∀ (app : App) docs,
      (app.onCommand docs sync env (.addEntry text scope)).outputs.filterMap o.sees = []) :
    o.Alike (app.onCommand docs sync env (.addEntry text scope))
      (app'.onCommand docs' sync env (.addEntry text scope)) where
  same := by
    rw [App.addEntry_app, App.addEntry_app]
    exact hsame
  calls := .inr ⟨(app.addEntry_addsTo docs sync env text scope).avoids hk,
    (app'.addEntry_addsTo docs' sync env text scope).avoids hk⟩
  outputs := (hseen app docs).trans (hseen app' docs').symm

section Rooms

/-- A local `add_entry` on a room, its scope and text. -/
def Output.roomAdd? : Output → Option (Scope × String)
  | .addEntry (.room name) entry => some (.room name, entry.text)
  | _ => none

/-- Clipboard copies and what the devices document reports. A lagged forwarder may be that
of the devices document. -/
def Event.ofClipboard : Event P → Bool
  | .copied _ | .docLagged => true
  | .docUpdate scope _ => scope.isDevices
  | _ => false

/-- Drop the clipboard copies, and the contents and updates of the devices document. -/
def Input.withoutClipboard : Input D P → List (Input D P) :=
  purge (fun scope => !scope.isDevices) Event.ofClipboard

/-- The app with another entry applied last. -/
def App.applied (app : App) (id : Option String) : App := { app with lastAppliedEntryId := id }

def roomObserver : Observer (Scope × String) where
  keeps scope := !scope.isDevices
  sees := Output.roomAdd?
  same app app' := ∃ id, app = app'.applied id

theorem Observer.Alike.of_applied {r r' : Reaction} {id : Option String}
    (h : r = { r' with app := r'.app.applied id }) : roomObserver.Alike r r' := by
  subst h
  exact ⟨⟨id, rfl⟩, .inl rfl, rfl⟩

section Applied

variable (app : App) (id : Option String)

theorem App.joinRoom_applied (raw : String) : (app.applied id).joinRoom raw =
    { app.joinRoom raw with app := (app.joinRoom raw).app.applied id } := by
  simp only [joinRoom, applied]
  cases sanitizeRoomName raw with
  | none => rfl
  | some name => cases hroom : app.config.hasRoom name <;> simp only [hroom] <;> rfl

theorem App.leaveRoom_applied (raw : String) : (app.applied id).leaveRoom raw =
    { app.leaveRoom raw with app := (app.leaveRoom raw).app.applied id } := by
  simp only [leaveRoom, applied]
  cases sanitizeRoomName raw with
  | none => rfl
  | some name => cases hroom : app.config.hasRoom name <;> simp only [hroom] <;> rfl

theorem App.addEntry_applied {docs docs' : DocsView} (sync : SyncView) (env : Env)
    (text : String) {scope : Scope} (h : docs.get scope = docs'.get scope) :
    (app.applied id).onCommand docs sync env (.addEntry text scope) =
      { app.onCommand docs' sync env (.addEntry text scope) with
        app := (app.onCommand docs' sync env (.addEntry text scope)).app.applied id } := by
  simp only [onCommand, h]
  cases docs'.get scope <;> rfl

end Applied

theorem Reaction.AddsTo.roomAdds {r : Reaction} (h : r.AddsTo .devices) :
    r.outputs.filterMap Output.roomAdd? = [] := by
  have hset : (r.setText.toList.map Output.setText).filterMap Output.roomAdd? = [] := by
    cases r.setText <;> rfl
  obtain h | ⟨entry, h⟩ := h <;> simp [outputs, h, hset, Output.roomAdd?]

/-- Copying out of a document adds nothing. -/
theorem App.copyEntry_alike {app app' : App} (docs docs' : DocsView) (sync : SyncView) (env : Env)
    (entryId : String) (scope : Scope) (h : roomObserver.same app app') :
    roomObserver.Alike (app.onCommand docs sync env (.copyEntry entryId scope))
      (app'.onCommand docs' sync env (.copyEntry entryId scope)) := by
  have cases (app : App) (docs : DocsView) :
      ∃ setText, app.onCommand docs sync env (.copyEntry entryId scope) = { app, setText } := by
    simp only [onCommand]
    split
    · exact ⟨_, rfl⟩
    · split <;> exact ⟨_, rfl⟩
  have silent (app : App) (setText : Option String) :
      ({ app, setText } : Reaction).outputs.filterMap Output.roomAdd? = [] :=
    Reaction.AddsTo.roomAdds (.inl rfl)
  obtain ⟨t, ht⟩ := cases app docs
  obtain ⟨t', ht'⟩ := cases app' docs'
  rw [ht, ht']
  exact ⟨h, .inl rfl, (silent app t).trans (silent app' t').symm⟩

variable [Entries D]

theorem room_kept {l l' : Loop D} (env : Env) (sync : SyncView) {e : Event P}
    (he : e.ofClipboard = false) (h : roomObserver.Agree l l') :
    roomObserver.Alike (l.react env sync e) (l'.react env sync e) := by
  obtain ⟨app, devices, rooms⟩ := l
  obtain ⟨app', devices', rooms'⟩ := l'
  obtain ⟨⟨id, rfl⟩, hdocs⟩ := h
  obtain rfl : rooms = rooms' := funext fun name => hdocs (.room name) rfl
  cases e with
  | copied text => cases he
  | docLagged => cases he
  | docUpdate scope update =>
    cases scope with
    | devices => cases he
    | room name => exact .of_applied rfl
  | found peer => exact .of_applied rfl
  | lost deviceId => exact .of_applied rfl
  | sync event =>
    cases event with
    | peerConnected deviceId deviceName scope => cases scope <;> exact .of_applied rfl
    | peerDisconnected deviceId scope => exact .of_applied rfl
  | command command =>
    cases command with
    | setDeviceTrusted deviceId trusted => exact .of_applied rfl
    | addEntry text scope =>
      cases scope with
      | devices =>
        exact Observer.addEntry_alike (o := roomObserver) _ _ sync env ⟨id, rfl⟩ rfl
          fun app docs => (app.addEntry_addsTo docs sync env text .devices).roomAdds
      | room name => exact .of_applied (app'.addEntry_applied id sync env text rfl)
    | copyEntry entryId scope =>
      exact App.copyEntry_alike _ _ sync env entryId scope ⟨id, rfl⟩
    | joinRoom name => exact .of_applied (app'.joinRoom_applied id name)
    | leaveRoom name => exact .of_applied (app'.leaveRoom_applied id name)

/-- What the clipboard and the devices document bring about stays there. -/
theorem room_erased (l : Loop D) (env : Env) (sync : SyncView) {e : Event P} {app : App}
    (he : e.ofClipboard = true) (h : roomObserver.same l.app app) :
    roomObserver.Alike (l.react env sync e) { app } := by
  obtain ⟨id, hid⟩ := h
  have quiet {r : Reaction} (hadds : r.AddsTo .devices) (hsame : roomObserver.same r.app app) :
      roomObserver.Alike r { app } :=
    ⟨hsame, .inr ⟨hadds.avoids rfl, fun c hc => by cases hc⟩, hadds.roomAdds⟩
  cases e with
  | copied text =>
    simp only [Loop.react, App.handle, App.onClipboard]
    split
    · exact quiet (.inl rfl) ⟨id, hid⟩
    · split
      · exact quiet (.inl rfl) ⟨id, hid⟩
      · exact quiet (.inr ⟨_, rfl⟩) ⟨id, hid⟩
  | docLagged => exact quiet (.inl rfl) ⟨id, hid⟩
  | docUpdate scope update =>
    simp only [Loop.react, App.handle, App.onDocUpdate]
    split
    · split
      · split
        · exact quiet (.inl rfl) ⟨_, by rw [hid]; rfl⟩
        · exact quiet (.inl rfl) ⟨id, hid⟩
      · exact quiet (.inl rfl) ⟨id, hid⟩
    · exact quiet (.inl rfl) ⟨id, hid⟩
  | _ => cases he

end Rooms

section Clipboard

/-- A text given to the OS clipboard. -/
def Output.text? : Output → Option String
  | .setText text => some text
  | .addEntry _ _ => none

theorem Reaction.texts (r : Reaction) :
    r.outputs.filterMap Output.text? = r.setText.toList := by
  have hset : (r.setText.toList.map Output.setText).filterMap Output.text? = r.setText.toList := by
    cases r.setText <;> rfl
  simp only [outputs, List.filterMap_append, hset]
  split <;> rfl

/-- Sharing into a room is not a copy. -/
theorem App.addEntry_texts (app : App) (docs : DocsView) (sync : SyncView) (env : Env)
    (text name : String) :
    (app.onCommand docs sync env (.addEntry text (.room name))).outputs.filterMap Output.text? =
      [] := by
  rw [Reaction.texts]
  simp only [onCommand]
  split <;> rfl

/-- What the room documents report. -/
def Event.ofRooms : Event P → Bool
  | .docLagged => true
  | .docUpdate scope _ => !scope.isDevices
  | _ => false

/-- Drop the contents and updates of the room documents. -/
def Input.withoutRooms : Input D P → List (Input D P) :=
  purge Scope.isDevices Event.ofRooms

/-- A `CopyEntry` that names a room. -/
def Event.CopiesRoom (e : Event P) : Prop :=
  ∃ id name, e = .command (.copyEntry id (.room name))

def clipboardObserver : Observer String where
  keeps := Scope.isDevices
  sees := Output.text?
  same := Eq

variable [Entries D]

theorem clipboard_kept {l l' : Loop D} (env : Env) (sync : SyncView) {e : Event P}
    (hp : ¬ e.CopiesRoom) (he : e.ofRooms = false) (h : clipboardObserver.Agree l l') :
    clipboardObserver.Alike (l.react env sync e) (l'.react env sync e) := by
  obtain ⟨app, devices, rooms⟩ := l
  obtain ⟨app', devices', rooms'⟩ := l'
  obtain ⟨happ, hdocs⟩ := h
  obtain rfl : app = app' := happ
  obtain rfl : devices = devices' := Option.some.inj (hdocs .devices rfl)
  have same {r r' : Reaction} (h : r = r') : clipboardObserver.Alike r r' := by
    subst h
    exact ⟨rfl, .inl rfl, rfl⟩
  cases e with
  | docLagged => cases he
  | docUpdate scope update =>
    cases scope with
    | devices => exact same rfl
    | room name => cases he
  | command command =>
    cases command with
    | addEntry text scope =>
      cases scope with
      | devices => exact same rfl
      | room name =>
        exact Observer.addEntry_alike (o := clipboardObserver) _ _ sync env rfl rfl
          fun app docs => app.addEntry_texts docs sync env text name
    | copyEntry id scope =>
      cases scope with
      | devices => exact same rfl
      | room name => exact absurd ⟨id, name, rfl⟩ hp
    | _ => exact same rfl
  | _ => exact same rfl

/-- A room update never touches the clipboard passively. -/
theorem clipboard_erased (l : Loop D) (env : Env) (sync : SyncView) {e : Event P} {app : App}
    (he : e.ofRooms = true) (h : clipboardObserver.same l.app app) :
    clipboardObserver.Alike (l.react env sync e) { app } := by
  cases e with
  | docLagged => exact ⟨h, .inl rfl, rfl⟩
  | docUpdate scope update =>
    cases scope with
    | devices => cases he
    | room name => exact ⟨h, .inl rfl, rfl⟩
  | _ => cases he

end Clipboard

namespace Loop

variable [Yrs D P] [Entries D]

/-- **Rooms and the clipboard are separate.** Whatever the app's state and share mode: input
sequences that differ only in clipboard copies and in the contents and updates of the devices
document make the same local adds to rooms. Input sequences and initial states that differ only
in the contents and updates of room documents give the clipboard the same texts, as long as no
`CopyEntry` names a room. -/
theorem rooms_clipboard_separate (l₁ l₂ : Loop D) (is₁ is₂ : List (Input D P)) :
    (l₁.app = l₂.app → l₁.rooms = l₂.rooms →
        is₁.flatMap Input.withoutClipboard = is₂.flatMap Input.withoutClipboard →
      ((machine D P).outputs l₁ is₁).filterMap Output.roomAdd? =
        ((machine D P).outputs l₂ is₂).filterMap Output.roomAdd?) ∧
    (l₁.app = l₂.app → l₁.devices = l₂.devices →
        (∀ i ∈ is₁ ++ is₂, ∀ e, i.event? = some e → ¬ e.CopiesRoom) →
        is₁.flatMap Input.withoutRooms = is₂.flatMap Input.withoutRooms →
      ((machine D P).outputs l₁ is₁).filterMap Output.text? =
        ((machine D P).outputs l₂ is₂).filterMap Output.text?) := by
  constructor
  · intro happ hrooms heq
    have hpurges := roomObserver.purges (D := D) (p := fun _ : Event P => True)
      (fun {_ _} env sync {_} _ he h => room_kept env sync he h) room_erased
    have refl (app : App) : roomObserver.same app app := ⟨app.lastAppliedEntryId, rfl⟩
    refine hpurges.indistinguishable (fun l => ⟨refl l.app, fun _ _ => rfl⟩)
      ⟨happ ▸ refl l₁.app, ?_⟩
      (fun _ _ _ _ => trivial) (fun _ _ _ _ => trivial) heq
    intro scope hs
    cases scope with
    | devices => cases hs
    | room name => exact congrFun hrooms name
  · intro happ hdevices hcopies heq
    have hpurges := clipboardObserver.purges (D := D) (fun {_ _} env sync {_} hp he h =>
      clipboard_kept (P := P) env sync hp he h) clipboard_erased
    refine hpurges.indistinguishable (fun l => ⟨rfl, fun _ _ => rfl⟩) ⟨happ, ?_⟩
      (fun i hi => hcopies i (List.mem_append_left _ hi))
      (fun i hi => hcopies i (List.mem_append_right _ hi)) heq
    intro scope hs
    cases scope with
    | devices => exact congrArg some hdevices
    | room name => cases hs

/-- In mirror mode: a copied secret does not show in a room, nor an update of a room on the
clipboard. -/
theorem rooms_clipboard_separate_mirror :
    let app := (Instance.start ⟨"z", none, [], [], ["lab"]⟩ "Z" ⟨false, .mirror, true⟩ :
      Instance EntryLog EntryLog).app
    let entry : ClipEntry := ⟨"e", "b", "B", "secret", 0⟩
    let event (e : Event EntryLog) : Input EntryLog EntryLog :=
      .event ⟨0, "e", true⟩ ⟨false, fun _ => false, ∅⟩ e []
    let add (scope : Scope) := event (.command (.addEntry "hello" scope))
    ((machine EntryLog EntryLog).outputs ⟨app, [], fun _ => some []⟩
          [event (.copied "secret"), add (.room "lab")]).filterMap Output.roomAdd? =
        ((machine EntryLog EntryLog).outputs ⟨app, [entry], fun _ => some []⟩
          [add (.room "lab")]).filterMap Output.roomAdd? ∧
      ((machine EntryLog EntryLog).outputs ⟨app, [], fun _ => some [entry]⟩
          [event (.docUpdate (.room "lab") ⟨[entry], some "b"⟩), add .devices]).filterMap
            Output.text? =
        ((machine EntryLog EntryLog).outputs ⟨app, [], fun _ => some []⟩
          [add .devices]).filterMap Output.text? := by
  refine ⟨(rooms_clipboard_separate _ _ _ _).1 rfl rfl rfl,
    (rooms_clipboard_separate _ _ _ _).2 rfl rfl ?_ rfl⟩
  rintro i hi e he ⟨id, name, rfl⟩
  simp only [List.cons_append, List.nil_append, List.mem_cons, List.not_mem_nil, or_false] at hi
  obtain rfl | rfl | rfl := hi <;> cases he

end Loop

end Yoink
