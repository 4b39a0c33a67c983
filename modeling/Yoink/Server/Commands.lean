import Yoink.App.Handlers
import Yoink.Core.ScopeText
import Yoink.Library.Record

/-!
# Commands as JSON

`AppCommand` is an internally tagged enum: an object with a `cmd` and the fields of its variant, or
an array that starts with the tag. `deserialize_eq_ok` says which values are which command: in an
object every known key once, in any order and among any others; in an array the fields in order.
A missing scope is the devices scope.
-/

namespace Yoink

open Results

namespace AppCommand

/-- What the fields of a command may be rejected for. -/
inductive FieldError where
  | invalidType
  | unknownVariant (name : String)
  | invalidScope (e : InvalidScope)
  deriving DecidableEq, Repr

/-- The variants. -/
inductive Tag where
  | setDeviceTrusted
  | addEntry
  | copyEntry
  | joinRoom
  | leaveRoom
  deriving DecidableEq, Repr

namespace Tag

/-- The spelling on the wire. -/
def name : Tag → String
  | .setDeviceTrusted => "set_device_trusted"
  | .addEntry => "add_entry"
  | .copyEntry => "copy_entry"
  | .joinRoom => "join_room"
  | .leaveRoom => "leave_room"

def all : List Tag := [.setDeviceTrusted, .addEntry, .copyEntry, .joinRoom, .leaveRoom]

end Tag

def readString : Json → Except FieldError String
  | .string s => .ok s
  | _ => .error .invalidType

def readBool : Json → Except FieldError Bool
  | .bool b => .ok b
  | _ => .error .invalidType

/-- `Deserialize for Scope`. -/
def readScope (value : Json) : Except FieldError Scope := do
  let s ← readString value
  (Scope.parse s).mapError .invalidScope

def readTag (value : Json) : Except FieldError Tag := do
  let s ← readString value
  match Tag.all.find? fun tag => tag.name = s with
  | some tag => .ok tag
  | none => .error (.unknownVariant s)

def tagField : RecordField FieldError Tag := ⟨"cmd", readTag, none⟩
def deviceIdField : RecordField FieldError String := ⟨"device_id", readString, none⟩
def trustedField : RecordField FieldError Bool := ⟨"trusted", readBool, none⟩
def textField : RecordField FieldError String := ⟨"text", readString, none⟩
def idField : RecordField FieldError String := ⟨"id", readString, none⟩
def nameField : RecordField FieldError String := ⟨"name", readString, none⟩
/-- With `Scope::default_devices`. -/
def scopeField : RecordField FieldError Scope := ⟨"scope", readScope, some .devices⟩

/-- The fields of a variant, from the other entries of the object. -/
def readObject (entries : List (String × Json)) : Tag → Except (RecordError FieldError) AppCommand
  | .setDeviceTrusted => do
    let (deviceId, trusted) ← RecordField.readPairObject deviceIdField trustedField entries
    return .setDeviceTrusted deviceId trusted
  | .addEntry => do
    let (text, scope) ← RecordField.readPairObject textField scopeField entries
    return .addEntry text scope
  | .copyEntry => do
    let (id, scope) ← RecordField.readPairObject idField scopeField entries
    return .copyEntry id scope
  | .joinRoom => do return .joinRoom (← nameField.readObject entries)
  | .leaveRoom => do return .leaveRoom (← nameField.readObject entries)

/-- The same from the elements of an array. -/
def readArray (values : List Json) : Tag → Except (RecordError FieldError) AppCommand
  | .setDeviceTrusted => do
    let (deviceId, trusted) ← RecordField.readPairArray deviceIdField trustedField values
    return .setDeviceTrusted deviceId trusted
  | .addEntry => do
    let (text, scope) ← RecordField.readPairArray textField scopeField values
    return .addEntry text scope
  | .copyEntry => do
    let (id, scope) ← RecordField.readPairArray idField scopeField values
    return .copyEntry id scope
  | .joinRoom => do return .joinRoom (← nameField.readArray values)
  | .leaveRoom => do return .leaveRoom (← nameField.readArray values)

/-- `derive(Deserialize)` with `tag = "cmd"`. -/
def deserialize : Json → Except (RecordError FieldError) AppCommand
  | .object entries => do
    let tag ← tagField.readObject entries
    readObject (entries.filter fun e => e.1 ≠ "cmd") tag
  | .array [] => .error (.missingField "cmd")
  | .array values => do
    let (tag, values) ← tagField.next values
    readArray values tag
  | _ => .error (.invalid .invalidType)

def tag : AppCommand → Tag
  | .setDeviceTrusted _ _ => .setDeviceTrusted
  | .addEntry _ _ => .addEntry
  | .copyEntry _ _ => .copyEntry
  | .joinRoom _ => .joinRoom
  | .leaveRoom _ => .leaveRoom

/-- The fields of a command, in order. -/
def fields : AppCommand → List (String × Json)
  | .setDeviceTrusted deviceId trusted =>
    [("device_id", .string deviceId), ("trusted", .bool trusted)]
  | .addEntry text scope => [("text", .string text), ("scope", .string scope.toString)]
  | .copyEntry id scope => [("id", .string id), ("scope", .string scope.toString)]
  | .joinRoom name | .leaveRoom name => [("name", .string name)]

/-- `derive(Serialize)`. -/
def serialize (command : AppCommand) : Json :=
  .object (("cmd", .string command.tag.name) :: command.fields)

/-- The object says this scope, if only by leaving it out. -/
def SaysScope (entries : List (String × Json)) (scope : Scope) : Prop :=
  (Json.values "scope" entries = [.string scope.toString] ∧ scope.WellNamed) ∨
    (Json.values "scope" entries = [] ∧ scope = .devices)

/-- The object says these fields. -/
def Says (entries : List (String × Json)) : AppCommand → Prop
  | .setDeviceTrusted deviceId trusted =>
    Json.values "device_id" entries = [.string deviceId] ∧
      Json.values "trusted" entries = [.bool trusted]
  | .addEntry text scope => Json.values "text" entries = [.string text] ∧ SaysScope entries scope
  | .copyEntry id scope => Json.values "id" entries = [.string id] ∧ SaysScope entries scope
  | .joinRoom name | .leaveRoom name => Json.values "name" entries = [.string name]

/-- The array ends with this scope, if only by ending before it. -/
def EndsWith (values : List Json) (scope : Scope) : Prop :=
  (values = [.string scope.toString] ∧ scope.WellNamed) ∨ (values = [] ∧ scope = .devices)

/-- The array lists these fields. -/
def Lists (values : List Json) : AppCommand → Prop
  | .setDeviceTrusted deviceId trusted => values = [.string deviceId, .bool trusted]
  | .addEntry text scope => ∃ rest, values = .string text :: rest ∧ EndsWith rest scope
  | .copyEntry id scope => ∃ rest, values = .string id :: rest ∧ EndsWith rest scope
  | .joinRoom name | .leaveRoom name => values = [.string name]

/-- The values that mean a command. -/
def Means (command : AppCommand) : Json → Prop
  | .object entries =>
    Json.values "cmd" entries = [.string command.tag.name] ∧ command.Says entries
  | .array values =>
    ∃ rest, values = .string command.tag.name :: rest ∧ command.Lists rest
  | _ => False

/-- The scope of a command, if any, has a name that parses. -/
def WellScoped : AppCommand → Prop
  | .addEntry _ scope | .copyEntry _ scope => scope.WellNamed
  | _ => True

section Reading

theorem readString_eq_ok {value : Json} {s : String} :
    readString value = .ok s ↔ value = .string s := by
  cases value <;> simp [readString]

theorem readBool_eq_ok {value : Json} {b : Bool} : readBool value = .ok b ↔ value = .bool b := by
  cases value <;> simp [readBool]

theorem readScope_eq_ok {value : Json} {scope : Scope} :
    readScope value = .ok scope ↔ value = .string scope.toString ∧ scope.WellNamed := by
  simp only [readScope, bind_eq_ok, readString_eq_ok, mapError_eq_ok]
  constructor
  · rintro ⟨s, rfl, h⟩
    exact ⟨by rw [Scope.toString_of_parse h], Scope.wellNamed_of_parse h⟩
  · rintro ⟨rfl, h⟩
    exact ⟨_, rfl, Scope.parse_toString h⟩

theorem Tag.find?_name {s : String} {tag : Tag} :
    (Tag.all.find? fun tag => tag.name = s) = some tag ↔ tag.name = s := by
  constructor
  · intro h
    simpa using List.find?_some h
  · rintro rfl
    cases tag <;> decide

theorem readTag_eq_ok {value : Json} {tag : Tag} :
    readTag value = .ok tag ↔ value = .string tag.name := by
  simp only [readTag, bind_eq_ok, readString_eq_ok]
  constructor
  · rintro ⟨s, rfl, h⟩
    split at h
    · next found hfound =>
      cases h
      rw [Tag.find?_name.mp hfound]
    · cases h
  · rintro rfl
    refine ⟨_, rfl, ?_⟩
    rw [Tag.find?_name.mpr rfl]

variable {entries : List (String × Json)}

theorem tagField_writes : tagField.Writes fun tag => .string tag.name := ⟨readTag_eq_ok, rfl⟩

theorem deviceIdField_writes : deviceIdField.Writes .string := ⟨readString_eq_ok, rfl⟩

theorem trustedField_writes : trustedField.Writes .bool := ⟨readBool_eq_ok, rfl⟩

theorem textField_writes : textField.Writes .string := ⟨readString_eq_ok, rfl⟩

theorem idField_writes : idField.Writes .string := ⟨readString_eq_ok, rfl⟩

theorem nameField_writes : nameField.Writes .string := ⟨readString_eq_ok, rfl⟩

theorem scopeField_gives {scope : Scope} :
    scopeField.Gives entries scope ↔ SaysScope entries scope := by
  simp only [RecordField.Gives, SaysScope, scopeField, readScope_eq_ok, Option.some.injEq,
    eq_comm (a := Scope.devices)]
  constructor
  · rintro (⟨v, hv, rfl, hname⟩ | h)
    · exact .inl ⟨hv, hname⟩
    · exact .inr h
  · rintro (⟨hv, hname⟩ | h)
    · exact .inl ⟨_, hv, rfl, hname⟩
    · exact .inr h

theorem scopeField_next {values : List Json} {scope : Scope} :
    scopeField.Next values [] scope ↔ EndsWith values scope := by
  simp only [RecordField.Next, EndsWith, scopeField, readScope_eq_ok, Option.some.injEq,
    true_and, eq_comm (a := Scope.devices)]
  constructor
  · rintro (⟨v, hv, rfl, hname⟩ | h)
    · exact .inl ⟨hv, hname⟩
    · exact .inr h
  · rintro (⟨hv, hname⟩ | h)
    · exact .inl ⟨_, hv, rfl, hname⟩
    · exact .inr h

/-- A variant that is made of what has been read. -/
theorem do_eq_ok {α : Type} {read : Except (RecordError FieldError) α} {make : α → AppCommand}
    {command : AppCommand} : (do return make (← read)) = Except.ok (ε := RecordError FieldError)
      command ↔ ∃ a, read = .ok a ∧ make a = command := by
  simp only [bind_eq_ok, pure, Except.pure, Except.ok.injEq]

/-- The same for two fields. -/
theorem do_pair_eq_ok {α β : Type} {read : Except (RecordError FieldError) (α × β)}
    {make : α → β → AppCommand} {command : AppCommand} :
    (do let (a, b) ← read
        return make a b) = Except.ok (ε := RecordError FieldError) command ↔
      ∃ a b, read = .ok (a, b) ∧ make a b = command := by
  simp only [bind_eq_ok, Prod.exists, pure, Except.pure, Except.ok.injEq]

/-- The fields of a variant are read from exactly the objects that say its commands. -/
theorem readObject_eq_ok {command : AppCommand} {tag : Tag} :
    readObject entries tag = .ok command ↔ command.tag = tag ∧ command.Says entries := by
  cases tag with
  | setDeviceTrusted =>
    rw [readObject, do_pair_eq_ok]
    simp only [RecordField.readPairObject_eq_ok (show deviceIdField.name ≠ trustedField.name by
      decide), deviceIdField_writes.gives, trustedField_writes.gives]
    cases command <;> simp [tag, Says, deviceIdField, trustedField]
  | addEntry =>
    rw [readObject, do_pair_eq_ok]
    simp only [RecordField.readPairObject_eq_ok (show textField.name ≠ scopeField.name by decide),
      textField_writes.gives, scopeField_gives]
    cases command <;> simp [tag, Says, textField]
  | copyEntry =>
    rw [readObject, do_pair_eq_ok]
    simp only [RecordField.readPairObject_eq_ok (show idField.name ≠ scopeField.name by decide),
      idField_writes.gives, scopeField_gives]
    cases command <;> simp [tag, Says, idField]
  | joinRoom | leaveRoom =>
    rw [readObject, do_eq_ok]
    simp only [RecordField.readObject_eq_ok, nameField_writes.gives]
    cases command <;> simp [tag, Says, nameField]

/-- The fields of a variant are read from exactly the arrays that list them. -/
theorem readArray_eq_ok {values : List Json} {command : AppCommand} {tag : Tag} :
    readArray values tag = .ok command ↔ command.tag = tag ∧ command.Lists values := by
  cases tag with
  | setDeviceTrusted =>
    rw [readArray, do_pair_eq_ok]
    simp only [RecordField.readPairArray_eq_ok, deviceIdField_writes.next, trustedField_writes.next]
    cases command <;> simp [tag, Lists]
  | addEntry =>
    rw [readArray, do_pair_eq_ok]
    simp only [RecordField.readPairArray_eq_ok, textField_writes.next, scopeField_next]
    cases command <;> simp [tag, Lists]
  | copyEntry =>
    rw [readArray, do_pair_eq_ok]
    simp only [RecordField.readPairArray_eq_ok, idField_writes.next, scopeField_next]
    cases command <;> simp [tag, Lists]
  | joinRoom | leaveRoom =>
    rw [readArray, do_eq_ok]
    simp only [RecordField.readArray_eq_ok, nameField_writes.next]
    cases command <;> simp [tag, Lists]

theorem says_filter_tag {command : AppCommand} :
    command.Says (entries.filter fun e => e.1 ≠ "cmd") ↔ command.Says entries := by
  cases command <;>
    simp (disch := decide) only [Says, SaysScope, Json.values_filter_ne]

end Reading

/-- Exactly the values that mean a command are read as that command. -/
theorem deserialize_eq_ok {command : AppCommand} {value : Json} :
    deserialize value = .ok command ↔ command.Means value := by
  cases value with
  | object entries =>
    simp only [deserialize, bind_eq_ok, RecordField.readObject_eq_ok, tagField_writes.gives,
      readObject_eq_ok, says_filter_tag, Means]
    constructor
    · rintro ⟨tag, htag, rfl, hsays⟩
      exact ⟨htag, hsays⟩
    · rintro ⟨htag, hsays⟩
      exact ⟨_, htag, rfl, hsays⟩
  | array values =>
    cases values with
    | nil => simp [deserialize, Means]
    | cons v values =>
      simp only [deserialize, bind_eq_ok, Prod.exists, RecordField.next_eq_ok,
        tagField_writes.next, readArray_eq_ok, Means]
      constructor
      · rintro ⟨tag, rest, hcons, rfl, hlists⟩
        exact ⟨rest, hcons, hlists⟩
      · rintro ⟨rest, hcons, hlists⟩
        exact ⟨_, rest, hcons, rfl, hlists⟩
  | _ => simp [deserialize, Means]

section Commands

variable {entries entries' : List (String × Json)} {command : AppCommand}

/-- The keys of a command's object. -/
def keys (command : AppCommand) : List String := "cmd" :: command.fields.map (·.1)

/-- What an object means rests on what it has for the keys of the command. -/
theorem means_congr (h : ∀ key ∈ command.keys, ∀ v, Json.values key entries = [v] ↔
      Json.values key entries' = [v])
    (hnil : ∀ key ∈ command.keys, Json.values key entries = [] ↔ Json.values key entries' = []) :
    command.Means (.object entries) ↔ command.Means (.object entries') := by
  simp only [Means, h "cmd" (by simp [keys])]
  cases command <;> simp only [keys, fields, List.map_cons, List.map_nil, List.forall_mem_cons,
    List.not_mem_nil, false_implies, implies_true, and_true] at h hnil <;>
    simp only [Says, SaysScope, h, hnil]

/-- A command is read back as it was written, unless its scope has no name that parses. -/
theorem means_serialize : command.Means command.serialize ↔ command.WellScoped := by
  cases command <;>
    simp [Means, serialize, fields, Says, SaysScope, Json.values, WellScoped, tag, eq_comm]

/-- Exactly the values that mean a command are read as it: its own serialization, if its scope has a
name that parses, and, of the objects, neither the order of the entries nor an entry with a key
that is not the command's changes anything. -/
theorem commands_exact (command : AppCommand) :
    (∀ value, deserialize value = .ok command ↔ command.Means value) ∧
      (deserialize command.serialize = .ok command ↔ command.WellScoped) ∧
      (∀ entries entries', entries.Perm entries' →
        (deserialize (.object entries) = .ok command ↔
          deserialize (.object entries') = .ok command)) ∧
      ∀ entries extra : List (String × Json), (∀ e ∈ extra, e.1 ∉ command.keys) →
        (deserialize (.object (entries ++ extra)) = .ok command ↔
          deserialize (.object entries) = .ok command) := by
  refine ⟨fun value => deserialize_eq_ok, ?_, fun entries entries' h => ?_,
    fun entries extra h => ?_⟩
  · rw [deserialize_eq_ok, means_serialize]
  · rw [deserialize_eq_ok, deserialize_eq_ok]
    refine means_congr (fun key _ v => ?_) fun key _ => ?_
    · have hperm := Json.values_perm h key
      constructor
      · intro hv
        exact (List.singleton_perm.mp (hv ▸ hperm)).symm
      · intro hv
        exact List.perm_singleton.mp (hv ▸ hperm)
    · have hperm := Json.values_perm h key
      constructor
      · intro hv
        exact (List.nil_perm.mp (hv ▸ hperm))
      · intro hv
        exact List.perm_nil.mp (hv ▸ hperm)
  · have hsame (key : String) (hkey : key ∈ command.keys) :
        Json.values key (entries ++ extra) = Json.values key entries := by
      have hnone : extra.filter (fun e => e.1 = key) = [] := by
        rw [List.filter_eq_nil_iff]
        intro e he hek
        obtain rfl : e.1 = key := by simpa using hek
        exact h e he hkey
      rw [Json.values, List.filter_append, hnone, List.append_nil, Json.values]
    rw [deserialize_eq_ok, deserialize_eq_ok]
    exact means_congr (fun key hkey v => by rw [hsame key hkey]) fun key hkey => by
      rw [hsame key hkey]

/-- A command that comes last and with a note. -/
theorem commands_exact_noted : deserialize (.object ([("name", .string "attic"),
    ("cmd", .string "join_room")] ++ [("note", .null)])) = .ok (.joinRoom "attic") := by
  obtain ⟨-, hinverse, hperm, hextra⟩ := commands_exact (.joinRoom "attic")
  refine (hextra _ _ (by simp [keys, fields])).mpr ((hperm _ _ ?_).mp (hinverse.mpr trivial))
  exact List.Perm.swap _ _ _

end Commands

end AppCommand

end Yoink
