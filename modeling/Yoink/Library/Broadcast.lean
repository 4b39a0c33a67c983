import Mathlib.Data.List.Basic

/-!
# Broadcast channels

Every receiver of a broadcast channel gets every value, but the channel keeps only the newest
values a receiver has not taken. One that falls behind is told so once, and goes on with the
oldest value kept. `Hears` is what that makes of a history: the values in order, but for gaps,
each of them reported where it is.
-/

universe u

/-- What a receiver has in store. -/
structure Receiver (α : Type u) where
  backlog : List α
  /-- Values were dropped since the last receive. -/
  lagged : Bool
  deriving DecidableEq, Repr

/-- What a receive yields. -/
inductive Received (α : Type u) where
  | value (a : α)
  | lagged
  deriving DecidableEq, Repr

namespace Receiver

variable {α : Type u}

/-- A receiver that has just subscribed. -/
def subscribed : Receiver α := ⟨[], false⟩

/-- The channel keeps `capacity` values. -/
def send (capacity : Nat) (r : Receiver α) (a : α) : Receiver α :=
  if r.backlog.length < capacity then { r with backlog := r.backlog ++ [a] }
  else ⟨r.backlog.tail ++ [a], true⟩

/-- The next receive, if it need not wait. -/
def recv (r : Receiver α) : Option (Received α × Receiver α) :=
  if r.lagged then some (.lagged, { r with lagged := false })
  else
    match r.backlog with
    | a :: rest => some (.value a, { r with backlog := rest })
    | [] => none

/-- A receive need not wait. -/
def pending (r : Receiver α) : Bool := r.lagged || !r.backlog.isEmpty

@[simp] theorem pending_subscribed : (subscribed : Receiver α).pending = false := rfl

@[simp] theorem pending_send (capacity : Nat) (r : Receiver α) (a : α) :
    (r.send capacity a).pending = true := by
  unfold send pending
  split <;> simp

/-- Of the values `sent`, in order, these receives have been made. -/
inductive Hears : List α → List (Received α) → Prop where
  | nil : Hears [] []
  | value {sent : List α} {heard : List (Received α)} (a : α) (h : Hears sent heard) :
      Hears (sent ++ [a]) (heard ++ [.value a])
  | gap {sent : List α} {heard : List (Received α)} {lost : List α} (hne : lost ≠ [])
      (h : Hears sent heard) : Hears (sent ++ lost) (heard ++ [.lagged])

/-- What has been sent is what has been heard, then what was dropped since, then the backlog. -/
def Faithful (sent : List α) (heard : List (Received α)) (r : Receiver α) : Prop :=
  ∃ past lost, sent = past ++ lost ++ r.backlog ∧ Hears past heard ∧ (lost ≠ [] ↔ r.lagged = true)

theorem faithful_subscribed : Faithful [] [] (subscribed : Receiver α) :=
  ⟨[], [], rfl, .nil, by simp [subscribed]⟩

theorem Faithful.send {sent : List α} {heard : List (Received α)} {r : Receiver α}
    (h : Faithful sent heard r) {capacity : Nat} (hc : 0 < capacity) (a : α) :
    Faithful (sent ++ [a]) heard (r.send capacity a) := by
  obtain ⟨past, lost, rfl, hears, hlost⟩ := h
  unfold Receiver.send
  split
  · exact ⟨past, lost, by simp, hears, hlost⟩
  · -- A full channel drops its oldest value.
    next hfull =>
    cases hb : r.backlog with
    | nil => simp [hb, hc] at hfull
    | cons b rest => exact ⟨past, lost ++ [b], by simp, hears, by simp⟩

theorem Faithful.recv {sent : List α} {heard : List (Received α)} {r r' : Receiver α}
    {x : Received α} (h : Faithful sent heard r) (hr : r.recv = some (x, r')) :
    Faithful sent (heard ++ [x]) r' := by
  obtain ⟨past, lost, rfl, hears, hlost⟩ := h
  obtain ⟨backlog, lagged⟩ := r
  cases lagged with
  | true =>
    cases hr
    exact ⟨past ++ lost, [], by simp, .gap (hlost.mpr rfl) hears, by simp⟩
  | false =>
    obtain rfl : lost = [] := by
      by_contra hne
      cases hlost.mp hne
    cases backlog with
    | nil => simp [Receiver.recv] at hr
    | cons a rest =>
      cases hr
      exact ⟨past ++ [a], [], by simp, by simpa using hears.value a, by simp⟩

/-- A receiver that was never told of a gap has heard everything up to its backlog. -/
theorem Faithful.lossless {sent : List α} {heard : List (Received α)} {r : Receiver α}
    (h : Faithful sent heard r) (hl : r.lagged = false) (hn : .lagged ∉ heard) :
    sent.map .value = heard ++ r.backlog.map .value := by
  obtain ⟨past, lost, rfl, hears, hlost⟩ := h
  obtain rfl : lost = [] := by
    by_contra hne
    rw [hlost.mp hne] at hl
    cases hl
  have hpast : past.map .value = heard := by
    induction hears with
    | nil => rfl
    | value a _ ih =>
      rw [List.map_append, ih fun hmem => hn (List.mem_append_left _ hmem)]
      rfl
    | gap => exact absurd (by simp) hn
  simp [hpast]

end Receiver
