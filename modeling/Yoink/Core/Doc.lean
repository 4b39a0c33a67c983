import Yoink.Core.Scope
import Mathlib.Data.Set.Basic

/-!
# Clipboard documents

A `ClipDoc` wraps a yrs document, which is third-party code. `Yrs` lists the operations
the wrapper uses: `D` is the type of documents and `P` the type of lib0 payloads (state
vectors and updates). Nothing about the operations is assumed here; `MergeSets` states
what it means for them to behave as a merge of sets of changes, and only results that need
it take it as an instance.

`Docs` is the shared heap of documents (`Arc<ClipDoc>`) together with the `DocSet` that
names the current one of each scope.
-/

namespace Yoink

/-- A single clipboard item of the shared history. -/
structure ClipEntry where
  id : String
  deviceId : DeviceId
  deviceName : String
  text : String
  createdAtMs : Nat
  deriving DecidableEq, Repr

/-- What `ClipDoc` uses of a yrs document. A `none` from `diff` or `applyUpdate` is a
`DocError`; the second component of `applyUpdate` is the payload of the update event, if the
transaction changed anything. -/
class Yrs (D : Type) (P : outParam Type) where
  new : D
  stateVector : D → P
  diff : D → P → Option P
  applyUpdate : D → P → Option (D × Option P)
  snapshot : D → P
  /-- `add_entry`: push the entry, prune the front, and report the transaction's update. -/
  addEntry : D → ClipEntry → D × P

/-- yrs as a merge of sets of changes: `holds d` is what a document has integrated, `carried u`
what an update contains and `known sv` what a state vector covers. -/
class MergeSets (D : Type) {P : Type} [Yrs D P] (X : outParam Type) where
  holds : D → Set X
  carried : P → Set X
  known : P → Set X
  holds_new : holds (Yrs.new : D) = ∅
  known_stateVector (d : D) : known (Yrs.stateVector d) = holds d
  carried_snapshot (d : D) : carried (Yrs.snapshot d) = holds d
  /-- A diff returns everything the holder of the state vector lacks. -/
  carried_diff {d : D} {sv u : P} : Yrs.diff d sv = some u → carried u = holds d \ known sv
  /-- Applying merges. -/
  holds_apply {d d' : D} {u : P} {ev : Option P} :
    Yrs.applyUpdate d u = some (d', ev) → holds d' = holds d ∪ carried u
  /-- The event fires iff something new was integrated, and carries exactly that. -/
  event_apply {d d' : D} {u : P} {ev : Option P} : Yrs.applyUpdate d u = some (d', ev) →
    (∀ v, ev = some v → carried v = carried u \ holds d) ∧
      (ev = none → carried u ⊆ holds d)
  holds_addEntry (d : D) (e : ClipEntry) :
    holds (Yrs.addEntry d e).1 = holds d ∪ carried (Yrs.addEntry d e).2

/-- The entries of a history as changes: `entries` reads each entry off a change the document
has integrated, and `add_entry` makes no change that could be read as another entry. -/
class ClipEntries (D : Type) {P X : outParam Type} [Yrs D P] [MergeSets D X] where
  entries : D → List ClipEntry
  entryOf : X → Option ClipEntry
  entries_held {d : D} {entry : ClipEntry} : entry ∈ entries d →
    ∃ x ∈ MergeSets.holds P d, entryOf x = some entry
  entry_added {d : D} {entry entry' : ClipEntry} {x : X} :
    x ∈ MergeSets.carried D (Yrs.addEntry d entry).2 → entryOf x = some entry' → entry' = entry

/-- An encoded update together with where it came from. -/
structure DocUpdate (P : Type) where
  update : P
  origin : Option DeviceId
  deriving DecidableEq

/-- The documents of an instance: the heap behind the `Arc`s and the `DocSet`. -/
structure Docs (D : Type) where
  set : DocSet
  heap : DocId → D
  /-- Identity of the next document to be created. -/
  next : DocId

namespace Docs

variable {D P : Type} [Yrs D P]

/-- `DocSet::new`: an empty devices document and no rooms. -/
def new : Docs D where
  set := ⟨0, ∅⟩
  heap _ := Yrs.new
  next := 1

def get (docs : Docs D) (scope : Scope) : Option DocId := docs.set.get scope

/-- `DocSet::get_or_create`, allocating an empty document when the scope has none. -/
def getOrCreate (docs : Docs D) (scope : Scope) : Docs D × DocId :=
  match docs.get scope with
  | some d => (docs, d)
  | none =>
    ({ set := (docs.set.getOrCreate scope docs.next).1
       heap := Function.update docs.heap docs.next Yrs.new
       next := docs.next + 1 }, docs.next)

def remove (docs : Docs D) (scope : Scope) : Docs D :=
  { docs with set := docs.set.remove scope }

/-- Store the result of a transaction. -/
def write (docs : Docs D) (doc : DocId) (d : D) : Docs D :=
  { docs with heap := Function.update docs.heap doc d }

@[simp] theorem get_write (docs : Docs D) (doc : DocId) (d : D) (s : Scope) :
    (docs.write doc d).get s = docs.get s := rfl

@[simp] theorem heap_write (docs : Docs D) (doc doc' : DocId) (d : D) :
    (docs.write doc d).heap doc' = if doc' = doc then d else docs.heap doc' := by
  simp [write, Function.update_apply]

theorem get_remove (docs : Docs D) (scope s : Scope) :
    (docs.remove scope).get s = if s = scope ∧ s ≠ .devices then none else docs.get s :=
  docs.set.get_remove scope s

@[simp] theorem heap_remove (docs : Docs D) (scope : Scope) :
    (docs.remove scope).heap = docs.heap := rfl

theorem getOrCreate_get (docs : Docs D) (scope : Scope) :
    (docs.getOrCreate scope).1.get scope = some (docs.getOrCreate scope).2 := by
  unfold getOrCreate
  cases h : docs.get scope with
  | some d => exact h
  | none =>
    have hg := docs.set.getOrCreate_get scope docs.next
    have h2 : (docs.set.getOrCreate scope docs.next).2 = docs.next := by
      simp [DocSet.getOrCreate, show docs.set.get scope = none from h]
    exact hg.trans (by rw [h2])

theorem getOrCreate_get_ne (docs : Docs D) {scope s : Scope} (hs : s ≠ scope) :
    (docs.getOrCreate scope).1.get s = docs.get s := by
  unfold getOrCreate
  cases docs.get scope with
  | some d => rfl
  | none => exact docs.set.getOrCreate_get_ne docs.next hs

theorem getOrCreate_of_some {docs : Docs D} {scope : Scope} {d : DocId}
    (h : docs.get scope = some d) : docs.getOrCreate scope = (docs, d) := by
  simp [getOrCreate, h]

/-- A document that is named stays the one of its scope. -/
theorem getOrCreate_get_of_some {docs : Docs D} {s : Scope} {d : DocId} (scope : Scope)
    (h : docs.get s = some d) : (docs.getOrCreate scope).1.get s = some d := by
  by_cases hs : s = scope
  · subst hs
    rwa [getOrCreate_of_some h]
  · rwa [getOrCreate_get_ne docs hs]

theorem getOrCreate_of_none {docs : Docs D} {scope : Scope} (h : docs.get scope = none) :
    (docs.getOrCreate scope).2 = docs.next := by
  simp [getOrCreate, h]

/-- `get_or_create` finds the document, or allocates the next one. -/
theorem getOrCreate_cases (docs : Docs D) (scope : Scope) :
    (∃ d, docs.get scope = some d ∧ docs.getOrCreate scope = (docs, d)) ∨
      (docs.get scope = none ∧ (docs.getOrCreate scope).2 = docs.next ∧
        (docs.getOrCreate scope).1.next = docs.next + 1) := by
  cases h : docs.get scope with
  | some d => exact .inl ⟨d, rfl, getOrCreate_of_some h⟩
  | none => exact .inr ⟨rfl, getOrCreate_of_none h, by simp [getOrCreate, h]⟩

/-- A document that exists keeps its contents. -/
theorem getOrCreate_heap (docs : Docs D) (scope : Scope) {d : DocId} (hd : d < docs.next) :
    (docs.getOrCreate scope).1.heap d = docs.heap d := by
  unfold getOrCreate
  cases docs.get scope with
  | some _ => rfl
  | none => simp [Nat.ne_of_lt hd]

/-- A document that `get_or_create` allocates is empty. -/
theorem getOrCreate_heap_new {docs : Docs D} {scope : Scope} {d : DocId} (hd : docs.next ≤ d)
    (hd' : d < (docs.getOrCreate scope).1.next) : (docs.getOrCreate scope).1.heap d = Yrs.new := by
  obtain ⟨d₀, -, heq⟩ | ⟨hg, -, hn⟩ := docs.getOrCreate_cases scope
  · rw [heq] at hd'
    exact absurd hd' (Nat.not_lt.mpr hd)
  · rw [hn] at hd'
    obtain rfl : d = docs.next := Nat.le_antisymm (Nat.lt_succ_iff.mp hd') hd
    simp [getOrCreate, hg]

end Docs

end Yoink
