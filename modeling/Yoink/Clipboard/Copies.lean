import Yoink.Clipboard.Worker

/-!
# Copies behind the handle's own writes

A successful poll ends the wait for the handle's last write, whatever it reads. A poll that
finds no text does not, although it shows as well that the write has been overwritten. So a
copy is missed exactly if it is the very text of the last write and every poll since then has
found no text.
-/

namespace Yoink.Worker

/-- The text of the last successful write of the handle, unless a poll has succeeded since. -/
def pending (τ : List (Transition Worker Action)) : Option String :=
  τ.foldl (fun cur t =>
    match t.act with
    | .recv true => t.pre.commands.head?
    | .observe => none
    | _ => cur) none

/-- The text that the last successful poll read, or the startup read. -/
def lastRead (os : Option String) (τ : List (Transition Worker Action)) : Option String :=
  τ.foldl (fun cur t =>
    match t.act, t.pre.phase with
    | .observe, .observing text _ => some text
    | _, _ => cur) os

def Action.isUserWrite : Action → Bool
  | .userWrite _ => true
  | _ => false

/-- A poll took place between the last successful write of the handle and the user's write with
number `i`. -/
def PolledBefore (acts : List Action) (i : Nat) : Prop :=
  ∃ as bs ok cs, acts = as ++ .recv true :: bs ++ .poll ok :: cs ∧ .recv true ∉ bs ++ cs ∧
    (as ++ .recv true :: bs).countP Action.isUserWrite ≤ i

/-- The poll that ends with the transition `t` has read a new text that the user put there after
a poll behind the handle's last write. -/
structure ReadsCopy (os : Option String) (τ : List (Transition Worker Action))
    (t : Transition Worker Action) (text : String) : Prop where
  observe : t.act = .observe
  reads : ∃ i, t.pre.phase = .observing text (.user i) ∧ PolledBefore (τ.map (·.act)) i
  nonblank : isBlank text = false
  differs : lastRead os τ ≠ some text

/-- A copy that is read is reported. -/
def Reports (os : Option String) (τ : List (Transition Worker Action))
    (t : Transition Worker Action) : Prop :=
  ∀ text, ReadsCopy os τ t text → t.post.events = t.pre.events ++ [.copied text]

/-- What the watch state remembers of the history. -/
structure Remembers (os : Option String) (τ : List (Transition Worker Action)) (w : Worker) :
    Prop where
  observed : w.state.lastObserved = lastRead os τ
  recording : ∀ text, w.phase = .recording text → pending τ = some text
  set : (∀ text, w.phase ≠ .recording text) → w.state.lastSet = pending τ

section Remembers

variable {os : Option String} {τ : List (Transition Worker Action)} {w w' : Worker} {a : Action}

theorem pending_append (t : Transition Worker Action) : pending (τ ++ [t]) =
    match t.act with
    | .recv true => t.pre.commands.head?
    | .observe => none
    | _ => pending τ := by
  simp [pending, List.foldl_append]

theorem lastRead_append (t : Transition Worker Action) : lastRead os (τ ++ [t]) =
    match t.act, t.pre.phase with
    | .observe, .observing text _ => some text
    | _, _ => lastRead os τ := by
  simp [lastRead, List.foldl_append]

theorem Remembers.start (os : Option String) : Remembers os [] (start os) where
  observed := by cases os <;> rfl
  recording text h := by simp [Worker.start] at h
  set _ := by cases os <;> rfl

/-- What changes neither the watch state nor the phase, nor the history it stands for. -/
theorem Remembers.keep (h : Remembers os τ w) {t : Transition Worker Action}
    (hstate : w'.state = w.state) (hphase : w'.phase = w.phase)
    (hp : pending (τ ++ [t]) = pending τ) (hl : lastRead os (τ ++ [t]) = lastRead os τ) :
    Remembers os (τ ++ [t]) w' where
  observed := by rw [hstate, hl, h.observed]
  recording text ht := by rw [hp, h.recording text (hphase ▸ ht)]
  set ht := by rw [hstate, hp, h.set fun text hr => ht text (hphase ▸ hr)]

theorem Remembers.step (h : Remembers os τ w) (hs : w.step a = some w') :
    Remembers os (τ ++ [⟨w, a, w'⟩]) w' := by
  cases a with
  | userWrite content =>
    cases hs
    exact h.keep rfl rfl (pending_append _) (lastRead_append _)
  | setText text =>
    cases hs
    exact h.keep rfl rfl (pending_append _) (lastRead_append _)
  | recv ok =>
    simp only [Worker.step] at hs
    split at hs
    · rename_i text rest hidle hcmds
      split at hs
      · rename_i hok
        cases hs
        subst hok
        refine ⟨?_, fun t ht => ?_, fun ht => absurd rfl (ht text)⟩
        · rw [lastRead_append]
          exact h.observed
        · cases ht
          rw [pending_append]
          simp [hcmds]
      · rename_i hok
        cases hs
        obtain rfl : ok = false := by simpa using hok
        exact h.keep rfl rfl (pending_append _) (lastRead_append _)
    · cases hs
  | record =>
    simp only [Worker.step] at hs
    split at hs <;> cases hs
    rename_i text hrec
    refine ⟨?_, fun t ht => ?_, fun _ => ?_⟩
    · rw [lastRead_append]
      exact h.observed
    · cases ht
    · rw [pending_append, h.recording text hrec]
      rfl
  | poll ok =>
    simp only [Worker.step] at hs
    split at hs
    · rename_i hidle
      have hset := h.set fun text ht => by simp [hidle] at ht
      split at hs <;> cases hs
      · refine ⟨?_, fun t ht => ?_, fun _ => ?_⟩
        · rw [lastRead_append]
          exact h.observed
        · cases ht
        · rw [pending_append]
          exact hset
      · exact h.keep rfl rfl (pending_append _) (lastRead_append _)
    · cases hs
  | observe =>
    simp only [Worker.step] at hs
    split at hs <;> cases hs
    rename_i text writer hobs
    refine ⟨?_, fun t ht => ?_, fun _ => ?_⟩
    · rw [lastRead_append]
      simp [feed, hobs, w.state.observe_fst]
    · cases ht
    · rw [pending_append]
      simp [feed, w.state.observe_fst]

theorem Run.remembers (h : (watching.startingAt (start os)).Run τ w) : Remembers os τ w := by
  refine h.history (I := Remembers os) ?_ fun τ w a w' _ hI hs => hI.step hs
  rintro w rfl
  exact .start os

end Remembers

section Reports

variable {os : Option String} {τ : List (Transition Worker Action)} {w : Worker}

/-- New text that is not blank is reported unless the watch state takes it for the own write. -/
theorem observe_new {s : WatchState} {text : String} (hblank : isBlank text = false)
    (hnew : s.lastObserved ≠ some text) :
    (s.observe text).2 = if s.lastSet = some text then none else some (.copied text) := by
  unfold WatchState.observe
  split
  · rfl
  · simp [hblank]

/-- One poll: a copy is reported unless it is the text of a write that is still pending. -/
theorem reports_iff {t : Transition Worker Action} (h : Remembers os τ t.pre)
    (hs : t.pre.step t.act = some t.post) :
    Reports os τ t ↔ ∀ text, ReadsCopy os τ t text → pending τ ≠ some text := by
  refine forall₂_congr fun text hread => ?_
  obtain ⟨i, hphase, -⟩ := hread.reads
  have hset : t.pre.state.lastSet = pending τ := h.set fun text' ht => by simp [hphase] at ht
  have hpost : t.post.events = t.pre.events ++ (t.pre.state.observe text).2.toList := by
    rw [hread.observe] at hs
    simp only [step, hphase, Option.some.injEq] at hs
    rw [← hs]
    rfl
  rw [hpost, observe_new hread.nonblank (h.observed ▸ hread.differs), hset]
  split <;> simp [*]

/-- In every run, copies behind the handle's own write are reported if and only if none of them
is the text of that write, read while all polls since then had failed. -/
theorem copies_reported_iff (h : (watching.startingAt (start os)).Run τ w) :
    (∀ τ₁ t τ₂, τ = τ₁ ++ t :: τ₂ → Reports os τ₁ t) ↔
      ∀ τ₁ t τ₂, τ = τ₁ ++ t :: τ₂ → ∀ text, ReadsCopy os τ₁ t text → pending τ₁ ≠ some text := by
  refine forall₄_congr fun τ₁ t τ₂ heq => ?_
  obtain ⟨hrun, hs⟩ := h.split heq
  exact reports_iff (Run.remembers hrun) hs

/-- The handle writes "x"; the user copies an image, which a poll finds, and then "x". -/
def overwriting : List Action :=
  [.setText "x", .recv true, .record, .userWrite none, .poll true, .userWrite (some "x"),
    .poll true]

/-- The user's "x" is taken for the echo of a write that was overwritten long ago. -/
theorem copy_missed : ∃ τ w, (watching.startingAt (start (some "a"))).Run τ w ∧
    ¬ ∀ τ₁ t τ₂, τ = τ₁ ++ t :: τ₂ → Reports (some "a") τ₁ t := by
  obtain ⟨w, hw, hread⟩ := System.exists_of_exec
    (show (System.exec step (start (some "a")) overwriting).any (fun w => decide
      (w.phase = .observing "x" (.user 1) ∧ w.events = [] ∧ w.state.lastSet = some "x"))
        = true by decide +kernel)
  obtain ⟨hphase, hevents, hset⟩ := of_decide_eq_true hread
  have hstart : (watching.startingAt (start (some "a"))).Run [] (start (some "a")) := .start rfl
  have hrun := hstart.exec (fun _ _ _ hs => hs) hw
  have hstep : w.step .observe = some { w.feed "x" with phase := .idle } := by
    simp [step, hphase]
  refine ⟨_, _, hrun.next hstep, fun hall => ?_⟩
  have hreports := hall _ _ [] rfl
  have hread : ReadsCopy (some "a") ([] ++ System.trace step (start (some "a")) overwriting)
      ⟨w, .observe, { w.feed "x" with phase := .idle }⟩ "x" := by
    refine ⟨rfl, ⟨1, hphase, ?_⟩, by decide +kernel, by decide +kernel⟩
    exact ⟨[.setText "x"], [.record, .userWrite none], true, [.userWrite (some "x"), .poll true],
      by decide +kernel, by decide, by decide⟩
  have := hreports "x" hread
  simp [feed, WatchState.observe, hset] at this

/-- No poll reads the text of a write that is still pending. -/
def echoless (τ : List (Transition Worker Action)) : Bool :=
  (List.range τ.length).all fun n =>
    match (τ[n]?).map fun t => t.pre.phase with
    | some (Phase.observing text _) => pending (τ.take n) != some text
    | _ => true

theorem pending_ne (h : echoless τ = true) {τ₁ τ₂ : List (Transition Worker Action)}
    {t : Transition Worker Action} (heq : τ = τ₁ ++ t :: τ₂) {text : String}
    (hread : ReadsCopy os τ₁ t text) : pending τ₁ ≠ some text := by
  obtain ⟨i, hphase, -⟩ := hread.reads
  have hn := List.all_eq_true.mp h τ₁.length (by simp [heq])
  simpa [heq, hphase] using hn

/-- The handle writes "x"; the user copies an image, "y" and then "x". -/
def copying : List Action :=
  [.setText "x", .recv true, .record, .userWrite none, .poll true, .userWrite (some "y"),
    .poll true, .observe, .userWrite (some "x"), .poll true]

/-- Once a poll has read "y", the user's "x" is not taken for an echo. -/
theorem copies_reported_copying : ∃ τ w, (watching.startingAt (start (some "a"))).Run τ w ∧
    w.events = [.copied "y", .copied "x"] ∧
      (∃ τ₁ t τ₂, τ = τ₁ ++ t :: τ₂ ∧ ReadsCopy (some "a") τ₁ t "x") ∧
      ∀ τ₁ t τ₂, τ = τ₁ ++ t :: τ₂ → Reports (some "a") τ₁ t := by
  obtain ⟨w, hw, hread⟩ := System.exists_of_exec
    (show (System.exec step (start (some "a")) copying).any (fun w => decide
      (w.phase = .observing "x" (.user 2) ∧ w.events = [.copied "y"] ∧
        w.state = ⟨none, some "y"⟩)) = true by decide +kernel)
  obtain ⟨hphase, hevents, hstate⟩ := of_decide_eq_true hread
  have hstart : (watching.startingAt (start (some "a"))).Run [] (start (some "a")) := .start rfl
  have hrun := hstart.exec (fun _ _ _ hs => hs) hw
  have hstep : w.step .observe = some { w.feed "x" with phase := .idle } := by
    simp [step, hphase]
  have hcopied : (WatchState.observe ⟨none, some "y"⟩ "x").2 = some (.copied "x") := by
    decide +kernel
  refine ⟨_, _, hrun.next hstep, ?_, ⟨_, _, [], rfl, rfl, ⟨2, hphase, ?_⟩, ?_, ?_⟩, ?_⟩
  · simp [feed, hstate, hevents, hcopied]
  · exact ⟨[.setText "x"], [.record, .userWrite none], true, [.userWrite (some "y"), .poll true,
      .observe, .userWrite (some "x"), .poll true], by decide +kernel, by decide, by decide⟩
  · decide +kernel
  · decide +kernel
  · refine (copies_reported_iff (hrun.next hstep)).mpr fun τ₁ t τ₂ heq text hcopy => ?_
    obtain ⟨rfl, -, -⟩ | ⟨τ₃, -, heq⟩ := System.concat_eq_append_cons heq
    · -- The poll that read "y" ended the wait for the write.
      have hnone : pending (System.trace step (start (some "a")) copying) = none := by
        decide +kernel
      simp [hnone]
    · exact pending_ne (by decide +kernel) heq hcopy

end Reports

end Yoink.Worker
