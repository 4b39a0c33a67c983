import Mathlib.Data.List.TakeDrop
import Mathlib.Logic.Function.Basic

/-!
# Replacing a file

A file is replaced by writing the new content to a sibling and renaming the sibling over it.
A `Disk` distinguishes names from inodes: who has opened the sibling keeps writing to the inode
it found, wherever the names go. Two writers of one sibling can tear the file in that way.
`FileWriter.Owns` is what a writer that is alone keeps, and `FileWriter.Owns.step` says that the
file then changes in one piece only.
-/

universe u

/-- A file and its sibling, by inode. -/
structure Disk (β : Type u) where
  content : Nat → List β
  file : Nat
  /-- The sibling, if it exists. -/
  tmp : Option Nat
  /-- Inodes from here on are unused. -/
  next : Nat

namespace Disk

variable {β : Type u}

/-- What a reader of the file finds. -/
def read (d : Disk β) : List β := d.content d.file

/-- Open the sibling for writing: create it, or truncate it. -/
def create (d : Disk β) : Disk β × Nat :=
  match d.tmp with
  | some i => ({ d with content := Function.update d.content i [] }, i)
  | none =>
    ({ d with
      content := Function.update d.content d.next []
      tmp := some d.next
      next := d.next + 1 }, d.next)

/-- Write at an offset of an inode; a gap before it is filled up. -/
def writeAt [Inhabited β] (d : Disk β) (i n : Nat) (b : β) : Disk β :=
  { d with
    content := Function.update d.content i
      ((d.content i).takeD n default ++ b :: (d.content i).drop (n + 1)) }

/-- Rename the sibling over the file. -/
def rename (d : Disk β) : Option (Disk β) :=
  d.tmp.map fun i => { d with file := i, tmp := none }

/-- The sibling is another inode than the file. -/
structure Sound (d : Disk β) : Prop where
  file : d.file < d.next
  tmp : ∀ i, d.tmp = some i → i ≠ d.file ∧ i < d.next

end Disk

/-- One replacement of the file. -/
inductive FileWriter (β : Type u) where
  | queued
  /-- The first `n` elements of `raw` have been written. -/
  | writing (raw : List β) (inode n : Nat)
  | finished (ok : Bool)
  deriving DecidableEq

namespace FileWriter

variable {β : Type u}

def isFinished : FileWriter β → Bool
  | .finished _ => true
  | _ => false

/-- The next system call; `content` is what there is to write, if it can be produced at all. -/
def step [Inhabited β] (content : Option (List β)) (d : Disk β) :
    FileWriter β → Disk β × FileWriter β
  | .queued =>
    match content with
    | none => (d, .finished false)
    | some raw => (d.create.1, .writing raw d.create.2 0)
  | .writing raw i n =>
    match raw[n]? with
    | some b => (d.writeAt i n b, .writing raw i (n + 1))
    | none =>
      match d.rename with
      | some d => (d, .finished true)
      | none => (d, .finished false)
  | .finished ok => (d, .finished ok)

/-- A writer that is alone: what it has opened is the sibling, and holds what it has written. -/
def Owns (content : Option (List β)) (d : Disk β) : FileWriter β → Prop
  | .writing raw i n =>
    content = some raw ∧ d.tmp = some i ∧ n ≤ raw.length ∧ d.content i = raw.take n
  | _ => True

section Owns

variable {content : Option (List β)} {d : Disk β} {w : FileWriter β}

theorem create_sound (h : d.Sound) : d.create.1.Sound ∧ d.create.1.read = d.read ∧
    d.create.1.tmp = some d.create.2 ∧ d.create.1.content d.create.2 = [] := by
  cases ht : d.tmp with
  | some i =>
    obtain ⟨hne, -⟩ := h.tmp i ht
    have hcreate : d.create = ({ d with content := Function.update d.content i [] }, i) := by
      rw [Disk.create, ht]
    rw [hcreate]
    refine ⟨⟨h.file, h.tmp⟩, ?_, ht, Function.update_self i [] d.content⟩
    exact Function.update_of_ne hne.symm [] d.content
  | none =>
    have hcreate : d.create = ({ d with
        content := Function.update d.content d.next []
        tmp := some d.next
        next := d.next + 1 }, d.next) := by
      rw [Disk.create, ht]
    have hfile := h.file
    rw [hcreate]
    refine ⟨⟨Nat.lt_succ_of_lt hfile, fun i hi => ?_⟩, ?_, rfl,
      Function.update_self d.next [] d.content⟩
    · obtain rfl := Option.some.inj hi
      exact ⟨Nat.ne_of_gt hfile, Nat.lt_succ_self _⟩
    · exact Function.update_of_ne (Nat.ne_of_lt hfile) [] d.content

/-- A step of the only writer leaves the file alone, or replaces it by the whole content. -/
theorem Owns.step [Inhabited β] (hd : d.Sound) (h : w.Owns content d) :
    (w.step content d).1.Sound ∧ (w.step content d).2.Owns content (w.step content d).1 ∧
      (((w.step content d).1.read = d.read ∧
          ((w.step content d).2 = .finished true → w = .finished true)) ∨
        (content = some (w.step content d).1.read ∧ (w.step content d).2 = .finished true)) := by
  cases w with
  | queued =>
    cases hc : content with
    | none => exact ⟨hd, trivial, .inl ⟨rfl, nofun⟩⟩
    | some raw =>
      obtain ⟨hsound, hread, htmp, hempty⟩ := create_sound hd
      exact ⟨hsound, ⟨rfl, htmp, Nat.zero_le _, hempty⟩, .inl ⟨hread, nofun⟩⟩
  | writing raw i n =>
    obtain ⟨hc, htmp, hn, hwritten⟩ := h
    obtain ⟨hne, hlt⟩ := hd.tmp i htmp
    cases hb : raw[n]? with
    | some b =>
      have hstep : (writing raw i n).step content d =
          (d.writeAt i n b, .writing raw i (n + 1)) := by
        simp only [FileWriter.step, hb]
      obtain ⟨hlen, rfl⟩ := List.getElem?_eq_some_iff.mp hb
      rw [hstep]
      refine ⟨⟨hd.file, hd.tmp⟩, ⟨hc, htmp, hlen, ?_⟩, .inl ⟨?_, nofun⟩⟩
      · have htake : (raw.take n).takeD n default = raw.take n := by
          rw [List.takeD_eq_take _ (by rw [List.length_take]; omega), List.take_take, Nat.min_self]
        have hdrop : (raw.take n).drop (n + 1) = [] :=
          List.drop_eq_nil_of_le (by rw [List.length_take]; omega)
        simp only [Disk.writeAt, Function.update_self, hwritten, htake, hdrop]
        exact List.take_append_getElem hlen
      · exact Function.update_of_ne hne.symm _ d.content
    | none =>
      have hall : raw.length ≤ n := List.getElem?_eq_none_iff.mp hb
      have hstep : (writing raw i n).step content d =
          ({ d with file := i, tmp := none }, .finished true) := by
        simp only [FileWriter.step, hb, Disk.rename, htmp, Option.map_some]
      rw [hstep]
      refine ⟨⟨hlt, nofun⟩, trivial, .inr ⟨?_, rfl⟩⟩
      rw [hc, Disk.read, hwritten, List.take_of_length_le hall]
  | finished ok => exact ⟨hd, trivial, .inl ⟨rfl, id⟩⟩

end Owns

end FileWriter
