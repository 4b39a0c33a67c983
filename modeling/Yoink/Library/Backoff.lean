import Mathlib.Algebra.Ring.Nat
import Mathlib.Data.List.Basic
import Mathlib.Data.List.Induction

/-!
# Exponential backoff

A delay that doubles with every failure up to a cap and falls back to its initial value on a
success. `after` is the accumulator as a loop keeps it; `after_eq` gives it in closed form from
the number of failures since the last success.
-/

/-- The two constants; the cap leaves room for the initial delay. -/
structure Backoff where
  initial : Nat
  cap : Nat
  pos : 0 < initial
  le : initial ≤ cap

namespace Backoff

variable (b : Backoff)

/-- One outcome; `true` is a success. -/
def next (delay : Nat) : Bool → Nat
  | true => b.initial
  | false => min (delay * 2) b.cap

/-- The accumulator after some outcomes, the oldest first. -/
def after (outcomes : List Bool) : Nat := outcomes.foldl b.next b.initial

/-- How many failures there were since the last success. -/
def failures (outcomes : List Bool) : Nat :=
  outcomes.foldl (fun n ok => if ok then 0 else n + 1) 0

/-- What is waited once the outcomes so far are `outcomes`: the accumulator as the last failure
found it, or the initial delay after a success. -/
def wait (outcomes : List Bool) : Nat := min (b.initial * 2 ^ (failures outcomes - 1)) b.cap

/-- What a retrying loop does: it sleeps, and it tries. -/
inductive Pace where
  | slept (delay : Nat)
  | tried (ok : Bool)
  deriving DecidableEq, Repr

/-- The outcome of a try. -/
def Pace.outcome : Pace → Option Bool
  | .tried ok => some ok
  | .slept _ => none

/-- How long a pace takes asleep. -/
def Pace.delay : Pace → Nat
  | .slept delay => delay
  | .tried _ => 0

/-- A loop that has seen the outcomes `seen` waits after each of the next ones. -/
def timelineFrom (seen : List Bool) : List Bool → List Pace
  | [] => []
  | ok :: outcomes =>
    .tried ok :: .slept (b.wait (seen ++ [ok])) :: timelineFrom (seen ++ [ok]) outcomes

/-- The whole loop, which sleeps `first` to begin with, if that is not zero. -/
def timeline (first : Nat) (outcomes : List Bool) : List Pace :=
  (if first = 0 then [] else [.slept first]) ++ b.timelineFrom [] outcomes

@[simp] theorem failures_nil : failures [] = 0 := rfl

@[simp] theorem failures_concat (outcomes : List Bool) (ok : Bool) :
    failures (outcomes ++ [ok]) = if ok then 0 else failures outcomes + 1 := by
  simp [failures]

@[simp] theorem after_concat (outcomes : List Bool) (ok : Bool) :
    b.after (outcomes ++ [ok]) = b.next (b.after outcomes) ok := by
  simp [after]

theorem timelineFrom_concat (seen outcomes : List Bool) (ok : Bool) :
    b.timelineFrom seen (outcomes ++ [ok]) = b.timelineFrom seen outcomes ++
      [.tried ok, .slept (b.wait (seen ++ outcomes ++ [ok]))] := by
  induction outcomes generalizing seen with
  | nil => simp [timelineFrom]
  | cons ok' outcomes ih => simp [timelineFrom, ih]

theorem timeline_concat (first : Nat) (outcomes : List Bool) (ok : Bool) :
    b.timeline first (outcomes ++ [ok]) = b.timeline first outcomes ++
      [.tried ok, .slept (b.wait (outcomes ++ [ok]))] := by
  simp [timeline, timelineFrom_concat]

/-- The outcomes can be read off the timeline. -/
@[simp] theorem outcomes_timeline (first : Nat) (outcomes : List Bool) :
    (b.timeline first outcomes).filterMap Pace.outcome = outcomes := by
  induction outcomes using List.reverseRecOn with
  | nil => by_cases h : first = 0 <;> simp [timeline, timelineFrom, h, Pace.outcome]
  | append_singleton outcomes ok ih => simp [timeline_concat, ih, Pace.outcome]

/-- Doubling under the cap is a power of two under the cap. -/
theorem after_eq (outcomes : List Bool) :
    b.after outcomes = min (b.initial * 2 ^ failures outcomes) b.cap := by
  induction outcomes using List.reverseRecOn with
  | nil => simp [after, b.le]
  | append_singleton outcomes ok ih =>
    rw [after_concat, ih, failures_concat]
    cases ok with
    | true => simp [next, b.le]
    | false =>
      have hpow : b.initial * 2 ^ (failures outcomes + 1) =
          b.initial * 2 ^ failures outcomes * 2 := by rw [Nat.pow_succ, Nat.mul_assoc]
      simp only [next, Bool.false_eq_true, if_false, hpow]
      omega

/-- After a failure the wait is what the accumulator was before it. -/
@[simp] theorem wait_failure (outcomes : List Bool) :
    b.wait (outcomes ++ [false]) = b.after outcomes := by
  simp [wait, after_eq]

@[simp] theorem wait_success (outcomes : List Bool) :
    b.wait (outcomes ++ [true]) = b.initial := by
  simp [wait, b.le]

theorem after_pos (outcomes : List Bool) : 0 < b.after outcomes := by
  have hpow : 0 < b.initial * 2 ^ failures outcomes :=
    Nat.mul_pos b.pos (Nat.two_pow_pos _)
  have hcap : 0 < b.cap := Nat.lt_of_lt_of_le b.pos b.le
  rw [after_eq]
  omega

/-- Attempts are at least the initial delay apart. -/
theorem initial_le_wait (outcomes : List Bool) : b.initial ≤ b.wait outcomes := by
  have hpow : b.initial ≤ b.initial * 2 ^ (failures outcomes - 1) :=
    Nat.le_mul_of_pos_right _ (Nat.two_pow_pos _)
  have := b.le
  unfold wait
  omega

/-- The sleeps of a whole timeline. -/
theorem initial_mul_le_timeline (first : Nat) (outcomes : List Bool) :
    b.initial * outcomes.length ≤ ((b.timeline first outcomes).map Pace.delay).sum := by
  induction outcomes using List.reverseRecOn with
  | nil => simp
  | append_singleton outcomes ok ih =>
    have hlast := b.initial_le_wait (outcomes ++ [ok])
    rw [timeline_concat, List.map_append, List.sum_append, List.length_append, Nat.mul_add]
    simp only [List.length_singleton, Nat.mul_one, List.map_cons, List.map_nil, Pace.delay,
      List.sum_cons, List.sum_nil]
    omega

/-- However much of its timeline a loop has been through, its tries were at least the initial
delay apart. -/
theorem tries_le_of_prefix {first : Nat} {outcomes : List Bool} {paces : List Pace}
    (h : paces <+: b.timeline first outcomes) :
    b.initial * (paces.filterMap Pace.outcome).length ≤
      (paces.map Pace.delay).sum + b.initial := by
  induction outcomes using List.reverseRecOn with
  | nil =>
    have hlen : (paces.filterMap Pace.outcome).length ≤ 0 := by
      have hsub := (h.sublist.filterMap Pace.outcome).length_le
      simpa using hsub
    have hzero : (paces.filterMap Pace.outcome).length = 0 := by omega
    rw [hzero]
    omega
  | append_singleton outcomes ok ih =>
    have hsum := b.initial_mul_le_timeline first outcomes
    have hlast := b.initial_le_wait (outcomes ++ [ok])
    have hsplit : b.timeline first (outcomes ++ [ok]) =
        b.timeline first outcomes ++ [.tried ok] ++ [.slept (b.wait (outcomes ++ [ok]))] := by
      rw [timeline_concat, List.append_assoc]
      rfl
    rw [hsplit] at h
    -- The loop slept after this try, or has just made it, or is not there yet.
    rcases List.prefix_concat_iff.mp h with rfl | h
    · simp [List.filterMap_cons, Pace.outcome, Pace.delay, Nat.mul_add]
      omega
    rcases List.prefix_concat_iff.mp h with rfl | h
    · simp [Pace.outcome, Pace.delay, Nat.mul_add]
      omega
    · exact ih h

end Backoff
