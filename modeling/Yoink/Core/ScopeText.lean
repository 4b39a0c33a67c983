import Yoink.Core.RoomName

/-!
# Scopes as strings

A scope is printed for the wire and parsed again. Printing takes any room name as it is, so it
is the parser that keeps odd names out: it accepts canonical names only. Printing and parsing are
inverse to each other on the scopes that carry such a name.
-/

namespace Yoink

/-- A string failed to parse as a `Scope`; carries the offending input. -/
structure InvalidScope where
  input : String
  deriving DecidableEq, Repr

namespace Scope

/-- The form a scope has on the wire. -/
def toString : Scope → String
  | .devices => "devices"
  | .room name => "room:" ++ name

/-- The room name, or `none` for `devices`. -/
def roomName : Scope → Option String
  | .devices => none
  | .room name => some name

/-- `s.strip_prefix("room:")`. -/
def stripRoom (s : String) : Option String :=
  (s.toList.dropPrefix? "room:".toList).map String.ofList

/-- `FromStr`: only names that are already sanitized parse. -/
def parse (s : String) : Except InvalidScope Scope :=
  if s = "devices" then .ok .devices
  else
    match stripRoom s with
    | some name => if sanitizeRoomName name = some name then .ok (.room name) else .error ⟨s⟩
    | none => .error ⟨s⟩

/-- A room scope with a canonical name, or `devices`. -/
def WellNamed : Scope → Prop
  | .devices => True
  | .room name => Canonical name

theorem stripRoom_eq_some {s name : String} : stripRoom s = some name ↔ s = "room:" ++ name := by
  simp only [stripRoom, Option.map_eq_some_iff, List.dropPrefix?_eq_some_iff, beq_iff_eq]
  constructor
  · rintro ⟨cs, ⟨pre, hs, rfl⟩, rfl⟩
    exact String.toList_inj.mp (by simp [hs])
  · rintro rfl
    exact ⟨name.toList, ⟨_, String.toList_append, rfl⟩, String.ofList_toList⟩

theorem room_ne_devices (name : String) : "room:" ++ name ≠ "devices" := fun h =>
  absurd (stripRoom_eq_some.mpr h.symm) (by simp [show stripRoom "devices" = none by decide])

theorem parse_room (name : String) : parse ("room:" ++ name) =
    if Canonical name then .ok (.room name) else .error ⟨"room:" ++ name⟩ := by
  rw [parse, if_neg (room_ne_devices name), stripRoom_eq_some.mpr rfl]
  rfl

/-- What parses: `devices`, and a canonical name behind `room:`. -/
theorem parse_eq_ok {s : String} {scope : Scope} : parse s = .ok scope ↔
    (s = "devices" ∧ scope = .devices) ∨
      ∃ name, Canonical name ∧ s = "room:" ++ name ∧ scope = .room name := by
  constructor
  · intro h
    by_cases hdev : s = "devices"
    · subst hdev
      cases h
      exact .inl ⟨rfl, rfl⟩
    · cases hroom : stripRoom s with
      | none =>
        rw [parse, if_neg hdev, hroom] at h
        cases h
      | some name =>
        obtain rfl := stripRoom_eq_some.mp hroom
        rw [parse_room] at h
        split at h <;> cases h
        exact .inr ⟨name, ‹_›, rfl, rfl⟩
  · rintro (⟨rfl, rfl⟩ | ⟨name, hname, rfl, rfl⟩)
    · rfl
    · rw [parse_room, if_pos hname]

/-- Printing a parsed scope gives back the input. -/
theorem toString_of_parse {s : String} {scope : Scope} (h : parse s = .ok scope) :
    scope.toString = s := by
  obtain ⟨rfl, rfl⟩ | ⟨name, -, rfl, rfl⟩ := parse_eq_ok.mp h <;> rfl

/-- A parsed scope is well named: nobody can smuggle another name in. -/
theorem wellNamed_of_parse {s : String} {scope : Scope} (h : parse s = .ok scope) :
    scope.WellNamed := by
  obtain ⟨-, rfl⟩ | ⟨name, hname, -, rfl⟩ := parse_eq_ok.mp h
  · trivial
  · exact hname

/-- Parsing a printed scope gives back the scope. -/
theorem parse_toString {scope : Scope} (h : scope.WellNamed) : parse scope.toString = .ok scope := by
  cases scope with
  | devices => rfl
  | room name => exact (parse_room name).trans (if_pos h)

end Scope

end Yoink
