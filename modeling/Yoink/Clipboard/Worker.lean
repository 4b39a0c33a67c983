import Yoink.Core.Scope
import Yoink.Library.System
import Mathlib.Data.List.Forall2
import Mathlib.Order.Fin.Basic

/-!
# The clipboard worker

One thread owns the OS clipboard. It takes `SetText` commands from a queue and polls between
them; `WatchState` decides which polled text is a copy by the user. The user may write the
clipboard at any time, also between an access of the worker and what it does with the result.

`finish` completes whatever the worker is in the middle of. It leaves the user's writes
alone, so what is shown of a worker that takes each command and each poll in one step
(`Accounted`) holds of this one.
-/

namespace Yoink

/-- Something the worker observed happening to the local OS clipboard. -/
inductive ClipboardEvent where
  | copied (text : String)
  deriving DecidableEq, Repr

/-- `text.trim().is_empty()`. -/
def isBlank (text : String) : Bool := (trimMatches isWhitespace text.toList).isEmpty

structure WatchState where
  /-- Text the handle last wrote that has not been seen coming back from a poll. -/
  lastSet : Option String
  /-- Text last seen in the OS clipboard. -/
  lastObserved : Option String
  deriving DecidableEq, Repr

namespace WatchState

def new : WatchState := ⟨none, none⟩

/-- Record the contents found at startup. -/
def seed (s : WatchState) (text : String) : WatchState := { s with lastObserved := some text }

/-- Record text the handle just wrote. -/
def recordSet (s : WatchState) (text : String) : WatchState := { s with lastSet := some text }

/-- Feed one polled text; returns the event to emit, if any. -/
def observe (s : WatchState) (text : String) : WatchState × Option ClipboardEvent :=
  if s.lastSet = some text then (⟨none, some text⟩, none)
  -- Our last write was overwritten before we ever observed it.
  else if s.lastObserved = some text then ({ s with lastSet := none }, none)
  else (⟨none, some text⟩, if isBlank text then none else some (.copied text))

/-- After an observation there is no write to wait for, and the text is the last one seen. -/
theorem observe_fst (s : WatchState) (text : String) : (s.observe text).1 = ⟨none, some text⟩ := by
  unfold observe
  split
  · rfl
  · split
    · rename_i h
      rw [h]
    · rfl

/-- Text that was written by the handle, or seen before, is no copy. -/
theorem observe_known {s : WatchState} {text : String}
    (h : s.lastSet = some text ∨ s.lastObserved = some text) : (s.observe text).2 = none := by
  unfold observe
  split
  · rfl
  · rw [if_pos (h.resolve_left ‹_›)]

theorem observe_event {s : WatchState} {text : String} {event : ClipboardEvent}
    (h : (s.observe text).2 = some event) :
    event = .copied text ∧ s.lastSet ≠ some text ∧ s.lastObserved ≠ some text := by
  have hk (hk : s.lastSet = some text ∨ s.lastObserved = some text) : False := by
    rw [observe_known hk] at h
    cases h
  refine ⟨?_, fun hs => hk (.inl hs), fun ho => hk (.inr ho)⟩
  unfold observe at h
  rw [if_neg fun hs => hk (.inl hs), if_neg fun ho => hk (.inr ho)] at h
  simp only at h
  split at h
  · cases h
  · exact (Option.some.inj h).symm

end WatchState

/-- Who put the content into the OS clipboard that is there. -/
inductive Writer where
  | startup
  | handle
  /-- The `i`th write of the user after startup. -/
  | user (i : Nat)
  deriving DecidableEq, Repr

namespace Worker

/-- What the worker thread is doing. -/
inductive Phase where
  /-- In `recv_timeout`. -/
  | idle
  /-- `set_text` has succeeded. -/
  | recording (text : String)
  /-- `get_text` has returned what `writer` had put there. -/
  | observing (text : String) (writer : Writer)
  deriving DecidableEq, Repr

end Worker

/-- The worker and the OS clipboard. -/
structure Worker where
  /-- The text in the OS clipboard; `none` if there is nothing, or no text. -/
  os : Option String
  writer : Writer
  /-- The `SetText` commands sent and not received. -/
  commands : List String
  phase : Worker.Phase
  state : WatchState
  /-- What the user wrote since startup, text or not. -/
  writes : List (Option String)
  /-- The events produced; the channel to the app may drop some of them. -/
  events : List ClipboardEvent

namespace Worker

inductive Action where
  /-- The user writes text, or something else. -/
  | userWrite (content : Option String)
  /-- `ClipboardHandle::set_text`. -/
  | setText (text : String)
  /-- The worker takes a command and writes, which may fail. -/
  | recv (ok : Bool)
  | record
  /-- The timeout elapsed: `get_text` finds what is there, or fails. -/
  | poll (ok : Bool)
  | observe
  deriving DecidableEq, Repr

/-- Right after startup: text that was found is recorded silently. -/
def start (os : Option String) : Worker where
  os
  writer := .startup
  commands := []
  phase := .idle
  state := match os with
    | some text => WatchState.new.seed text
    | none => .new
  writes := []
  events := []

/-- Feed what a poll has seen to the watch state. -/
def feed (w : Worker) (text : String) : Worker :=
  { w with
    state := (w.state.observe text).1
    events := w.events ++ (w.state.observe text).2.toList }

def step (w : Worker) : Action → Option Worker
  | .userWrite content =>
    some { w with os := content, writer := .user w.writes.length, writes := w.writes ++ [content] }
  | .setText text => some { w with commands := w.commands ++ [text] }
  | .recv ok =>
    match w.phase, w.commands with
    | .idle, text :: rest =>
      -- A failed write leaves the clipboard unchanged.
      if ok then some { w with
        os := some text, writer := .handle, commands := rest, phase := .recording text }
      else some { w with commands := rest }
    | _, _ => none
  | .record =>
    match w.phase with
    | .recording text => some { w with state := w.state.recordSet text, phase := .idle }
    | _ => none
  | .poll ok =>
    match w.phase with
    | .idle =>
      match ok, w.os with
      | true, some text => some { w with phase := .observing text w.writer }
      | _, _ => some w
    | _ => none
  | .observe =>
    match w.phase with
    | .observing text _ => some { w.feed text with phase := .idle }
    | _ => none

/-- The runs of the worker from startup, whatever was in the clipboard. -/
def watching : System Worker Action where
  init w := ∃ os, w = start os
  step w a w' := w.step a = some w'

/-- Complete what the worker is in the middle of. -/
def finish (w : Worker) : Worker :=
  match w.phase with
  | .idle => w
  | .recording text => { w with state := w.state.recordSet text, phase := .idle }
  | .observing text _ => { w.feed text with phase := .idle }

/-- The user's write with number `i` has the text of the event. -/
def Explains (writes : List (Option String)) (i : Nat) (event : ClipboardEvent) : Prop :=
  ∃ text, event = .copied text ∧ writes[i]? = some (some text)

/-- The events are explained by the user's writes `ids`, and what is in the clipboard is known
to the watch state unless it is a write of the user that was not reported. -/
structure Accounted (w : Worker) (ids : List Nat) : Prop where
  matched : List.Forall₂ (Explains w.writes) ids w.events
  increasing : ids.Pairwise (· < ·)
  bound : ∀ i ∈ ids, i < w.writes.length
  startup : w.writer = .startup → ∀ text, w.os = some text → w.state.lastObserved = some text
  handle : w.writer = .handle → ∀ text, w.os = some text →
    w.state.lastSet = some text ∨ w.state.lastObserved = some text
  user : ∀ i, w.writer = .user i → i + 1 = w.writes.length ∧ w.writes[i]? = some w.os ∧
    (i ∈ ids → ∀ text, w.os = some text → w.state.lastObserved = some text)

section Accounted

variable {w : Worker} {ids : List Nat}

theorem start_accounted (os : Option String) : (start os).Accounted [] where
  matched := .nil
  increasing := .nil
  bound := nofun
  startup _ text hos := by
    obtain rfl : os = some text := hos
    rfl
  handle := nofun
  user := nofun

theorem Accounted.userWrite (h : w.Accounted ids) (content : Option String) :
    ({ w with
        os := content
        writer := .user w.writes.length
        writes := w.writes ++ [content] } : Worker).Accounted ids where
  matched := h.matched.imp fun i event ⟨text, he, hi⟩ => ⟨text, he, by
    rwa [List.getElem?_append_left (List.getElem?_eq_some_iff.mp hi).1]⟩
  increasing := h.increasing
  bound i hi := by
    have := h.bound i hi
    simp only [List.length_append, List.length_singleton]
    omega
  startup := nofun
  handle := nofun
  user i hi := by
    cases hi
    refine ⟨by simp, by simp, fun hmem => ?_⟩
    exact absurd (h.bound _ hmem) (Nat.lt_irrefl _)

theorem Accounted.set (h : w.Accounted ids) (text : String) :
    ({ w with
        os := some text
        writer := .handle
        state := w.state.recordSet text } : Worker).Accounted ids where
  matched := h.matched
  increasing := h.increasing
  bound := h.bound
  startup := nofun
  handle _ _ hos := .inl hos
  user := nofun

/-- A poll reports at most the user's write that is in the clipboard, and that only once. -/
theorem Accounted.feed (h : w.Accounted ids) {text : String} (hos : w.os = some text) :
    ∃ ids', (w.feed text).Accounted ids' := by
  have hobs := w.state.observe_fst text
  cases hev : (w.state.observe text).2 with
  | none =>
    refine ⟨ids, ?_, h.increasing, h.bound, ?_, ?_, fun i hi => ?_⟩
    · simpa [Worker.feed, hev] using h.matched
    · intro _ t ht
      simpa [Worker.feed, hobs, hos] using ht
    · intro _ t ht
      exact .inr (by simpa [Worker.feed, hobs, hos] using ht)
    · refine ⟨(h.user i hi).1, (h.user i hi).2.1, fun _ t ht => ?_⟩
      simpa [Worker.feed, hobs, hos] using ht
  | some event =>
    obtain ⟨rfl, hset, hseen⟩ := WatchState.observe_event hev
    cases hw : w.writer with
    | startup => exact absurd (h.startup hw text hos) hseen
    | handle => exact absurd (h.handle hw text hos) (not_or.mpr ⟨hset, hseen⟩)
    | user i =>
      obtain ⟨hlast, hget, hrep⟩ := h.user i hw
      have hnew : i ∉ ids := fun hmem => hseen (hrep hmem text hos)
      refine ⟨ids ++ [i], ?_, ?_, ?_, ?_, ?_, fun j hj => ?_⟩
      · simp only [Worker.feed, hev, Option.toList_some]
        exact List.rel_append h.matched (.cons ⟨text, rfl, by rw [hget, hos]⟩ .nil)
      · refine List.pairwise_append.mpr ⟨h.increasing, List.pairwise_singleton _ _, ?_⟩
        intro j hj k hk
        obtain rfl := List.mem_singleton.mp hk
        have hlt := h.bound j hj
        have hne : j ≠ k := fun hjk => hnew (hjk ▸ hj)
        omega
      · intro j hj
        obtain hj | hj := List.mem_append.mp hj
        · exact h.bound j hj
        · obtain rfl := List.mem_singleton.mp hj
          simp only [Worker.feed]
          omega
      · intro hst
        cases hw.symm.trans hst
      · intro hst
        cases hw.symm.trans hst
      · refine ⟨(h.user j hj).1, (h.user j hj).2.1, fun _ t ht => ?_⟩
        simpa [Worker.feed, hobs, hos] using ht

/-- Only the watch state and its events depend on what the worker is in the middle of. -/
theorem Accounted.congr {w' : Worker} (h : w.Accounted ids) (hos : w'.os = w.os)
    (hwr : w'.writer = w.writer) (hst : w'.state = w.state) (hws : w'.writes = w.writes)
    (hev : w'.events = w.events) : w'.Accounted ids := by
  obtain ⟨os, writer, commands, phase, state, writes, events⟩ := w'
  subst hos hwr hst hws hev
  exact ⟨h.matched, h.increasing, h.bound, h.startup, h.handle, h.user⟩

/-- The worker's accounts are in order, and a poll that saw what the handle wrote, or what was
there at startup, will report nothing. -/
structure Tracked (w : Worker) : Prop where
  accounted : ∃ ids, w.finish.Accounted ids
  silent : ∀ text writer, w.phase = .observing text writer →
    writer = .startup ∨ writer = .handle → (w.state.observe text).2 = none

/-- What the worker does with what is in the clipboard. -/
theorem Accounted.known (h : w.Accounted ids) {text : String} (hos : w.os = some text)
    (hw : w.writer = .startup ∨ w.writer = .handle) : (w.state.observe text).2 = none := by
  refine WatchState.observe_known ?_
  obtain hw | hw := hw
  · exact .inr (h.startup hw text hos)
  · exact h.handle hw text hos

theorem Tracked.step {w' : Worker} {a : Action} (h : w.Tracked) (hs : w.step a = some w') :
    w'.Tracked := by
  obtain ⟨ids, hacc⟩ := h.accounted
  cases a with
  | userWrite content =>
    cases hs
    have hwrites : w.finish.writes = w.writes := by
      unfold finish
      split <;> rfl
    refine ⟨⟨ids, (hacc.userWrite content).congr ?_ ?_ ?_ ?_ ?_⟩, h.silent⟩ <;>
      simp only [hwrites] <;> unfold finish <;> cases w.phase <;> rfl
  | setText text =>
    cases hs
    refine ⟨⟨ids, hacc.congr ?_ ?_ ?_ ?_ ?_⟩, h.silent⟩ <;>
      unfold finish <;> cases w.phase <;> rfl
  | recv ok =>
    simp only [Worker.step] at hs
    split at hs
    · rename_i hp hc
      have hidle : w.finish = w := by simp [finish, hp]
      rw [hidle] at hacc
      split at hs <;> cases hs
      · exact ⟨⟨ids, (hacc.set _).congr rfl rfl rfl rfl rfl⟩, nofun⟩
      · exact ⟨⟨ids, hacc.congr (by simp [finish, hp]) (by simp [finish, hp]) (by simp [finish, hp])
          (by simp [finish, hp]) (by simp [finish, hp])⟩, h.silent⟩
    · cases hs
  | record =>
    simp only [Worker.step] at hs
    split at hs <;> cases hs
    rename_i text hp
    have hfin : w.finish = { w with state := w.state.recordSet text, phase := .idle } := by
      simp [finish, hp]
    rw [hfin] at hacc
    exact ⟨⟨ids, hacc⟩, nofun⟩
  | poll ok =>
    simp only [Worker.step] at hs
    split at hs
    · rename_i hp
      have hidle : w.finish = w := by simp [finish, hp]
      split at hs <;> cases hs
      · rename_i text hos
        rw [hidle] at hacc
        obtain ⟨ids', hfeed⟩ := hacc.feed hos
        refine ⟨⟨ids', hfeed.congr rfl rfl rfl rfl rfl⟩, fun t wr ht hwr => ?_⟩
        cases ht
        exact hacc.known hos hwr
      · exact h
    · cases hs
  | observe =>
    simp only [Worker.step] at hs
    split at hs <;> cases hs
    rename_i text wr hp
    have hfin : w.finish = { w.feed text with phase := .idle } := by simp [finish, hp]
    rw [hfin] at hacc
    exact ⟨⟨ids, hacc⟩, nofun⟩

end Accounted

section Runs

variable {w : Worker} {τ : List (Transition Worker Action)}

theorem Run.tracked (h : watching.Run τ w) : w.Tracked := by
  refine h.reachable.invariant (I := Tracked) ?_ fun w a w' _ hI hs => hI.step hs
  rintro w ⟨os, rfl⟩
  exact ⟨⟨[], start_accounted os⟩, nofun⟩

/-- The events produced so far are explained by increasing writes of the user. -/
theorem Tracked.explained (h : w.Tracked) :
    ∃ ids, List.Forall₂ (Explains w.writes) ids w.events ∧ ids.Pairwise (· < ·) := by
  obtain ⟨ids, hacc⟩ := h.accounted
  have hwrites : w.finish.writes = w.writes := by
    unfold finish
    split <;> rfl
  have hevents : w.finish.events.take w.events.length = w.events := by
    unfold finish
    split
    · exact List.take_length
    · exact List.take_length
    · exact List.take_left
  refine ⟨ids.take w.events.length, ?_, hacc.increasing.take⟩
  rw [← hwrites]
  have := List.forall₂_take w.events.length hacc.matched
  rwa [hevents] at this

/-- No echo: the events can be matched, in order, with distinct writes of the user after startup
that carry their texts, and a poll that saw text the handle wrote, or what was in the clipboard
at startup, produces none. -/
theorem no_echo (h : watching.Run τ w) :
    (∃ f : Fin w.events.length → Fin w.writes.length, StrictMono f ∧
      ∀ i, ∃ text, w.events.get i = .copied text ∧ w.writes.get (f i) = some text) ∧
    ∀ t ∈ τ, ∀ text writer, t.act = .observe → t.pre.phase = .observing text writer →
      writer = .startup ∨ writer = .handle → t.post.events = t.pre.events := by
  refine ⟨?_, fun t ht text writer ha hp hw => ?_⟩
  · obtain ⟨ids, hm, hinc⟩ := (Run.tracked h).explained
    have hlen : ids.length = w.events.length := hm.length_eq
    have hex (i : Fin w.events.length) :
        Explains w.writes (ids.get (i.cast hlen.symm)) (w.events.get i) :=
      hm.get (i.cast hlen.symm).isLt i.isLt
    refine ⟨fun i => ⟨ids.get (i.cast hlen.symm), ?_⟩, fun i j hij => ?_, fun i => ?_⟩
    · obtain ⟨text, -, hi⟩ := hex i
      exact (List.getElem?_eq_some_iff.mp hi).1
    · exact List.pairwise_iff_get.mp hinc _ _ hij
    · obtain ⟨text, he, hi⟩ := hex i
      exact ⟨text, he, (List.getElem?_eq_some_iff.mp hi).2⟩
  · obtain ⟨τ₁, τ₂, rfl⟩ := List.append_of_mem ht
    obtain ⟨hr, hs⟩ := h.split rfl
    have hnone := (Run.tracked hr).silent text writer hp hw
    rw [ha] at hs
    have hpost : some { t.pre.feed text with phase := .idle } = some t.post := by
      simpa [watching, step, hp] using hs
    rw [← Option.some.inj hpost]
    simp [feed, hnone]

/-- An entry is applied and polled, then the user copies "b". -/
def applying : List Action :=
  [.setText "a", .recv true, .record, .poll true, .observe, .userWrite (some "b"), .poll true,
    .observe]

/-- Of the two texts polled after startup, only the user's is reported. -/
theorem no_echo_applying : ∃ τ w, watching.Run τ w ∧ w.events = [.copied "b"] ∧
    ∃ f : Fin w.events.length → Fin w.writes.length, StrictMono f ∧
      ∀ i, ∃ text, w.events.get i = .copied text ∧ w.writes.get (f i) = some text := by
  obtain ⟨w, hw, hev⟩ := System.exists_of_exec
    (show (System.exec step (start (some "old")) applying).any
      (fun w => decide (w.events = [.copied "b"])) = true by decide +kernel)
  have hstart : watching.Run [] (start (some "old")) := .start ⟨_, rfl⟩
  have hrun := hstart.exec (fun _ _ _ hs => hs) hw
  exact ⟨_, w, hrun, of_decide_eq_true hev, (no_echo hrun).1⟩

end Runs

end Worker

end Yoink
