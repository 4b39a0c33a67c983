import Yoink.Library.FinMap
import Mathlib.Algebra.Ring.Nat
import Mathlib.Data.String.Basic

/-!
# Scopes, room names and the document set

`Scope` selects the shared space a document, connection or command belongs to. Room
names are canonicalised by `sanitizeRoomName`, a single pass over the trimmed input
with an early stop at the length limit. A `DocSet` maps every scope to the identity of
its document: the devices document sits in a field of its own and is never dropped, room
documents come and go with the room.
-/

namespace Yoink

/-- Device ids are UUID strings; `str` comparison orders them. -/
abbrev DeviceId := String

/-- Longest accepted room name. -/
def maxRoomNameLen : Nat := 48

inductive Scope where
  | devices
  | room (name : String)
  deriving DecidableEq, Repr

def Scope.isDevices : Scope → Bool
  | .devices => true
  | .room _ => false

/-- Identity a peer announces over the wire. -/
structure DeviceInfo where
  id : DeviceId
  name : String
  deriving DecidableEq, Repr

/-- Unicode `White_Space`, which `str::trim` strips. -/
def isWhitespace (c : Char) : Bool :=
  let n := c.toNat
  (9 ≤ n && n ≤ 13) || n == 32 || n == 0x85 || n == 0xA0 || n == 0x1680 ||
    (0x2000 ≤ n && n ≤ 0x200A) || n == 0x2028 || n == 0x2029 || n == 0x202F ||
    n == 0x205F || n == 0x3000

/-- Drop the characters satisfying `p` from both ends. -/
def trimMatches (p : Char → Bool) (cs : List Char) : List Char :=
  ((cs.dropWhile p).reverse.dropWhile p).reverse

/-- One character of the loop: the name so far and whether it may not take a hyphen now. -/
def sanitizeChar (name : List Char) (lastHyphen : Bool) (c : Char) : List Char × Bool :=
  if c.isAlphanum then (name ++ [c.toLower], false)
  else if !lastHyphen then (name ++ ['-'], true)
  else (name, lastHyphen)

/-- `String::len`: the bytes of the UTF-8 form. -/
def byteLen (cs : List Char) : Nat := (cs.map Char.utf8Size).sum

/-- The loop over the trimmed input; `break` once the name has reached the limit. -/
def sanitizeLoop : List Char → List Char → Bool → List Char
  | [], name, _ => name
  | c :: cs, name, lastHyphen =>
    let next := sanitizeChar name lastHyphen c
    if maxRoomNameLen ≤ byteLen next.1 then next.1 else sanitizeLoop cs next.1 next.2

/-- Reduce arbitrary user input to a canonical room name, or `none` when nothing usable
remains. -/
def sanitizeRoomName (input : String) : Option String :=
  let name := trimMatches (· == '-')
    (sanitizeLoop (trimMatches isWhitespace input.toList) [] true)
  if name.isEmpty then none else some (String.ofList name)

/-- Names a `Scope` may carry over the wire: fixed points of `sanitizeRoomName`. -/
def Canonical (name : String) : Prop := sanitizeRoomName name = some name

instance (name : String) : Decidable (Canonical name) := inferInstanceAs (Decidable (_ = _))

/-- Identity of a document behind an `Arc`. -/
abbrev DocId := Nat

/-- All in-memory documents an instance holds, one per scope. -/
structure DocSet where
  devices : DocId
  rooms : FinMap Scope DocId

namespace DocSet

/-- The document for `scope`, if one exists; `devices` always resolves. -/
def get (docs : DocSet) (scope : Scope) : Option DocId :=
  if scope.isDevices then some docs.devices else docs.rooms.lookup scope

/-- The document for `scope`, with `fresh` entered as a new room document if it is absent. -/
def getOrCreate (docs : DocSet) (scope : Scope) (fresh : DocId) : DocSet × DocId :=
  match docs.get scope with
  | some d => (docs, d)
  | none => ({ docs with rooms := docs.rooms.insert scope fresh }, fresh)

/-- Drop a room document; the devices document is never removed. -/
def remove (docs : DocSet) (scope : Scope) : DocSet :=
  if scope.isDevices then docs else { docs with rooms := docs.rooms.erase scope }

theorem get_devices (docs : DocSet) : docs.get .devices = some docs.devices := rfl

theorem get_room (docs : DocSet) (name : String) :
    docs.get (.room name) = docs.rooms.lookup (.room name) := rfl

theorem get_remove (docs : DocSet) (scope s : Scope) :
    (docs.remove scope).get s = if s = scope ∧ s ≠ .devices then none else docs.get s := by
  cases scope with
  | devices => cases s <;> simp [remove, Scope.isDevices]
  | room name =>
    cases s with
    | devices => simp [remove, get, Scope.isDevices]
    | room n => simp [remove, get, Scope.isDevices, FinMap.lookup_erase_ite]

theorem getOrCreate_get (docs : DocSet) (scope : Scope) (fresh : DocId) :
    (docs.getOrCreate scope fresh).1.get scope = some (docs.getOrCreate scope fresh).2 := by
  unfold getOrCreate
  cases h : docs.get scope with
  | some d => simpa using h
  | none =>
    cases scope with
    | devices => simp [get_devices] at h
    | room n => simp [get_room]

theorem getOrCreate_get_ne (docs : DocSet) {scope s : Scope} (fresh : DocId) (hs : s ≠ scope) :
    (docs.getOrCreate scope fresh).1.get s = docs.get s := by
  unfold getOrCreate
  cases h : docs.get scope with
  | some d => rfl
  | none =>
    cases s with
    | devices => rfl
    | room n => simp [get_room, hs]

/-- A document that exists is kept. -/
theorem getOrCreate_of_some {docs : DocSet} {scope : Scope} {d : DocId} (fresh : DocId)
    (h : docs.get scope = some d) : docs.getOrCreate scope fresh = (docs, d) := by
  simp [getOrCreate, h]

end DocSet

example : sanitizeRoomName "My Room!" = some "my-room" := by decide

end Yoink
