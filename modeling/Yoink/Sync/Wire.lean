import Yoink.Core.ScopeText
import Yoink.Library.Json
import Yoink.Library.Results
import Yoink.Sync.Frames

/-!
# Frames as bytes

A frame is a tag and its payload; the payload of a HELLO is JSON. `SerdeJson` stands for the JSON
library, and `Hello.deserialize` is what `derive` makes of the struct. The scope of a HELLO is a
string that has to parse, so a HELLO that decodes carries a canonical room name.
-/

namespace Yoink

open Results

abbrev Bytes := List UInt8

/-- What the codec uses of serde_json. -/
structure SerdeJson where
  /-- `to_vec`; `none` is an error. -/
  toVec : Json → Option Bytes
  /-- The value a text stands for, if `from_slice` accepts it. -/
  fromSlice : Bytes → Option Json

/-- A string, or an integer of 64 bits. -/
def IsPlain : Json → Prop
  | .string _ => True
  | .uint n => n < 2 ^ 64
  | _ => False

/-- Strings and integers in an object round-trip. -/
def SerdeJson.RoundTrips (json : SerdeJson) : Prop :=
  ∀ entries : List (String × Json), (∀ e ∈ entries, IsPlain e.2) →
    ∃ bytes, json.toVec (.object entries) = some bytes ∧
      json.fromSlice bytes = some (.object entries)

/-- The compact text of an object of strings and integers, in UTF-8. -/
def compactJson : SerdeJson where
  toVec
    | .object entries =>
      if entries.all (·.2.isScalar) then
        some (String.ofList (Json.write entries)).toByteArray.data.toList
      else none
    | _ => none
  fromSlice bytes :=
    ((ByteArray.mk bytes.toArray).utf8Decode?.bind fun cs => Json.read cs.toList).map .object

theorem compactJson_roundTrips : compactJson.RoundTrips := by
  intro entries h
  have hscalar : ∀ e ∈ entries, e.2.isScalar = true := fun e he => by
    have hplain := h e he
    cases hv : e.2 <;> first | rfl | (rw [hv] at hplain; cases hplain)
  refine ⟨_, if_pos (List.all_eq_true.mpr hscalar), ?_⟩
  have hdecode : (String.ofList (Json.write entries)).toByteArray.utf8Decode? =
      some (Json.write entries).toArray := by
    rw [String.toByteArray_ofList, List.utf8Decode?_utf8Encode]
  simp only [compactJson, Array.toArray_toList, hdecode, Option.bind_some,
    Json.read_write hscalar, Option.map_some]

/-- Why a HELLO payload is rejected. -/
inductive HelloError where
  | syntaxError
  | missingField (name : String)
  | duplicateField (name : String)
  | invalidType (name : String)
  | invalidLength
  | invalidScope (e : InvalidScope)
  deriving DecidableEq, Repr

namespace Hello

/-- `derive(Serialize)`. -/
def serialize (hello : Hello) : Json :=
  .object [("device_id", .string hello.deviceId), ("device_name", .string hello.deviceName),
    ("proto", .uint hello.proto), ("scope", .string hello.scope.toString)]

def readString (name : String) : Json → Except HelloError String
  | .string s => .ok s
  | _ => .error (.invalidType name)

/-- A `u32`. -/
def readU32 (name : String) : Json → Except HelloError Nat
  | .uint n => if n < 2 ^ 32 then .ok n else .error (.invalidType name)
  | _ => .error (.invalidType name)

/-- `Deserialize for Scope`. -/
def readScope (name : String) (value : Json) : Except HelloError Scope := do
  let s ← readString name value
  (Scope.parse s).mapError .invalidScope

/-- The default of the `scope` field. -/
def scopeDevices : Scope := .devices

/-- The fields that have been seen. -/
structure Fields where
  deviceId : Option String
  deviceName : Option String
  proto : Option Nat
  scope : Option Scope

def Fields.empty : Fields := ⟨none, none, none, none⟩

/-- Fill a field that has not been seen. -/
def once {α : Type} (name : String) (field : Option α) (value : Except HelloError α) :
    Except HelloError (Option α) :=
  if field.isSome then .error (.duplicateField name) else value.map some

/-- One entry of the object; unknown ones are ignored. -/
def Fields.visit (fields : Fields) (entry : String × Json) : Except HelloError Fields :=
  let (name, value) := entry
  if name = "device_id" then do
    return { fields with deviceId := ← once name fields.deviceId (readString name value) }
  else if name = "device_name" then do
    return { fields with deviceName := ← once name fields.deviceName (readString name value) }
  else if name = "proto" then do
    return { fields with proto := ← once name fields.proto (readU32 name value) }
  else if name = "scope" then do
    return { fields with scope := ← once name fields.scope (readScope name value) }
  else .ok fields

def required {α : Type} (name : String) : Option α → Except HelloError α
  | some value => .ok value
  | none => .error (.missingField name)

/-- All of the entries have been visited. -/
def Fields.finish (fields : Fields) : Except HelloError Hello := do
  let deviceId ← required "device_id" fields.deviceId
  let deviceName ← required "device_name" fields.deviceName
  let proto ← required "proto" fields.proto
  return ⟨deviceId, deviceName, proto, fields.scope.getD scopeDevices⟩

/-- The next element of an array, read as a field, and the elements behind it. -/
def nextElement {α : Type} (read : Json → Except HelloError α) :
    List Json → Except HelloError (α × List Json)
  | [] => .error .invalidLength
  | value :: values => do return (← read value, values)

/-- The last field of an array, which may be left out. -/
def lastScope : List Json → Except HelloError Scope
  | [] => .ok scopeDevices
  | [value] => readScope "scope" value
  | value :: _ => do
    let _ ← readScope "scope" value
    .error .syntaxError

/-- `derive(Deserialize)`: from an object, or from the fields in order. -/
def deserialize : Json → Except HelloError Hello
  | .object entries => do (← entries.foldlM Fields.visit .empty).finish
  | .array values => do
    let (deviceId, values) ← nextElement (readString "device_id") values
    let (deviceName, values) ← nextElement (readString "device_name") values
    let (proto, values) ← nextElement (readU32 "proto") values
    return ⟨deviceId, deviceName, proto, ← lastScope values⟩
  | _ => .error (.invalidType "Hello")

/-- What the type of a HELLO and the parser of its scope promise. -/
structure Sound (hello : Hello) : Prop where
  proto : hello.proto < 2 ^ 32
  scope : hello.scope.WellNamed

/-- A HELLO with a canonical scope is read back. -/
theorem deserialize_serialize {hello : Hello} (h : hello.Sound) :
    deserialize hello.serialize = .ok hello := by
  obtain ⟨deviceId, deviceName, proto, scope⟩ := hello
  have hproto : proto < 2 ^ 32 := h.proto
  have hscope : Scope.parse scope.toString = .ok scope := Scope.parse_toString h.scope
  have hread : readU32 "proto" (.uint proto) = .ok proto := if_pos hproto
  have hparse : readScope "scope" (.string scope.toString) = .ok scope := by
    change (Scope.parse scope.toString).mapError _ = _
    rw [hscope]
    rfl
  simp only [deserialize, serialize, List.foldlM_cons, List.foldlM_nil, Fields.visit, hread, hparse]
  rfl

theorem readU32_lt {name : String} {value : Json} {n : Nat} (h : readU32 name value = .ok n) :
    n < 2 ^ 32 := by
  unfold readU32 at h
  split at h
  · split at h <;> cases h
    assumption
  · cases h

theorem readScope_wellNamed {name : String} {value : Json} {scope : Scope}
    (h : readScope name value = .ok scope) : scope.WellNamed := by
  obtain ⟨s, -, h⟩ := bind_eq_ok.mp h
  exact Scope.wellNamed_of_parse (mapError_eq_ok.mp h)

theorem read_of_nextElement {α : Type} {read : Json → Except HelloError α} {a : α}
    {values rest : List Json} (h : nextElement read values = .ok (a, rest)) :
    ∃ value, read value = .ok a := by
  cases values with
  | nil => cases h
  | cons value values =>
    obtain ⟨b, hb, h⟩ := bind_eq_ok.mp h
    cases h
    exact ⟨value, hb⟩

theorem lastScope_wellNamed {values : List Json} {scope : Scope}
    (h : lastScope values = .ok scope) : scope.WellNamed := by
  unfold lastScope at h
  split at h
  · cases h
    trivial
  · exact readScope_wellNamed h
  · obtain ⟨_, -, h⟩ := bind_eq_ok.mp h
    cases h

/-- The same of the fields that have been seen. -/
structure Fields.Sound (fields : Fields) : Prop where
  proto : ∀ n, fields.proto = some n → n < 2 ^ 32
  scope : ∀ s, fields.scope = some s → s.WellNamed

theorem once_eq_ok {α : Type} {name : String} {field r : Option α} {value : Except HelloError α}
    (h : once name field value = .ok r) : ∃ a, value = .ok a ∧ r = some a := by
  unfold once at h
  split at h
  · cases h
  · cases value <;> cases h
    exact ⟨_, rfl, rfl⟩

theorem Fields.Sound.empty : Fields.empty.Sound :=
  ⟨fun _ h => (by cases h), fun _ h => (by cases h)⟩

theorem Fields.Sound.visit {fields fields' : Fields} {entry : String × Json} (hf : fields.Sound)
    (h : fields.visit entry = .ok fields') : fields'.Sound := by
  unfold Fields.visit at h
  simp only at h
  split at h
  · obtain ⟨r, -, h⟩ := bind_eq_ok.mp h
    cases h
    exact ⟨hf.proto, hf.scope⟩
  split at h
  · obtain ⟨r, -, h⟩ := bind_eq_ok.mp h
    cases h
    exact ⟨hf.proto, hf.scope⟩
  split at h
  · obtain ⟨r, hr, h⟩ := bind_eq_ok.mp h
    cases h
    obtain ⟨n, hn, rfl⟩ := once_eq_ok hr
    exact ⟨fun m hm => Option.some.inj hm ▸ readU32_lt hn, hf.scope⟩
  split at h
  · obtain ⟨r, hr, h⟩ := bind_eq_ok.mp h
    cases h
    obtain ⟨s, hs, rfl⟩ := once_eq_ok hr
    exact ⟨hf.proto, fun t ht => Option.some.inj ht ▸ readScope_wellNamed hs⟩
  · cases h
    exact hf

theorem required_eq_ok {α : Type} {name : String} {field : Option α} {a : α}
    (h : required name field = .ok a) : field = some a := by
  cases field <;> cases h
  rfl

/-- Whatever JSON decodes as a HELLO, its scope is well named. -/
theorem deserialize_sound {value : Json} {hello : Hello} (h : deserialize value = .ok hello) :
    hello.Sound := by
  unfold deserialize at h
  split at h
  · obtain ⟨fields, hfold, h⟩ := bind_eq_ok.mp h
    have hfields : fields.Sound :=
      foldlM_ok (fun _ _ _ hf hv => hf.visit hv) .empty hfold
    obtain ⟨deviceId, -, h⟩ := bind_eq_ok.mp h
    obtain ⟨deviceName, -, h⟩ := bind_eq_ok.mp h
    obtain ⟨proto, hproto, h⟩ := bind_eq_ok.mp h
    cases h
    refine ⟨hfields.proto _ (required_eq_ok hproto), ?_⟩
    cases hs : fields.scope with
    | none => trivial
    | some s => exact hfields.scope s hs
  · obtain ⟨⟨deviceId, values₁⟩, -, h⟩ := bind_eq_ok.mp h
    obtain ⟨⟨deviceName, values₂⟩, -, h⟩ := bind_eq_ok.mp h
    obtain ⟨⟨proto, values₃⟩, hproto, h⟩ := bind_eq_ok.mp h
    obtain ⟨scope, hscope, h⟩ := bind_eq_ok.mp h
    cases h
    obtain ⟨value, hproto⟩ := read_of_nextElement hproto
    exact ⟨readU32_lt hproto, lastScope_wellNamed hscope⟩
  · cases h

end Hello

/-- Why a binary message is rejected. -/
inductive FrameError where
  | empty
  | unknownTag (tag : UInt8)
  | badHello (e : HelloError)
  deriving DecidableEq, Repr

namespace Frame

def tagHello : UInt8 := 0x01
def tagSyncStep1 : UInt8 := 0x02
def tagSyncStep2 : UInt8 := 0x03
def tagUpdate : UInt8 := 0x04

def tagged (tag : UInt8) (payload : Bytes) : Bytes := tag :: payload

variable (json : SerdeJson)

def encode : Frame Bytes → Bytes
  | .hello peer => tagged tagHello ((json.toVec peer.serialize).getD [])
  | .syncStep1 payload => tagged tagSyncStep1 payload
  | .syncStep2 payload => tagged tagSyncStep2 payload
  | .update payload => tagged tagUpdate payload

/-- `serde_json::from_slice` at the type of a HELLO. -/
def helloFromSlice (payload : Bytes) : Except HelloError Hello :=
  match json.fromSlice payload with
  | some value => Hello.deserialize value
  | none => .error .syntaxError

def decode : Bytes → Except FrameError (Frame Bytes)
  | [] => .error .empty
  | tag :: payload =>
    if tag = tagHello then do return .hello (← (helloFromSlice json payload).mapError .badHello)
    else if tag = tagSyncStep1 then .ok (.syncStep1 payload)
    else if tag = tagSyncStep2 then .ok (.syncStep2 payload)
    else if tag = tagUpdate then .ok (.update payload)
    else .error (.unknownTag tag)

/-- A frame whose HELLO, if it is one, has a canonical scope. -/
def Sound (f : Frame Bytes) : Prop := ∀ peer, f = .hello peer → peer.Sound

variable {json}

theorem helloFromSlice_toVec (hjson : json.RoundTrips) {peer : Hello} (h : peer.Sound) :
    helloFromSlice json ((json.toVec peer.serialize).getD []) = .ok peer := by
  obtain ⟨bytes, hto, hfrom⟩ := hjson
    [("device_id", .string peer.deviceId), ("device_name", .string peer.deviceName),
      ("proto", .uint peer.proto), ("scope", .string peer.scope.toString)] (by
    simp only [List.forall_mem_cons]
    exact ⟨trivial, trivial, h.proto.trans (by decide), trivial, nofun⟩)
  rw [Hello.serialize, hto, Option.getD_some, helloFromSlice, hfrom]
  exact Hello.deserialize_serialize h

theorem helloFromSlice_sound {payload : Bytes} {peer : Hello}
    (h : helloFromSlice json payload = .ok peer) : peer.Sound := by
  unfold helloFromSlice at h
  split at h
  · exact Hello.deserialize_sound h
  · cases h

/-- What is sent is what is received. -/
theorem decode_encode (hjson : json.RoundTrips) {f : Frame Bytes} (h : f.Sound) :
    decode json (encode json f) = .ok f := by
  cases f with
  | hello peer =>
    simp only [encode, tagged, decode, if_true, helloFromSlice_toVec hjson (h peer rfl)]
    rfl
  | _ => rfl

/-- Only a HELLO has more than one encoding. -/
theorem encode_of_decode {bytes : Bytes} {f : Frame Bytes} (h : decode json bytes = .ok f)
    (hf : f.isHello = false) : encode json f = bytes := by
  cases bytes with
  | nil => cases h
  | cons tag payload =>
    simp only [decode] at h
    split at h
    · obtain ⟨peer, -, h⟩ := bind_eq_ok.mp h
      cases h
      cases hf
    split at h
    · cases h
      subst tag
      rfl
    split at h
    · cases h
      subst tag
      rfl
    split at h
    · cases h
      subst tag
      rfl
    · cases h

/-- A HELLO that decodes has a canonical scope. -/
theorem sound_of_decode {bytes : Bytes} {f : Frame Bytes} (h : decode json bytes = .ok f) :
    f.Sound := by
  rintro peer rfl
  cases bytes with
  | nil => cases h
  | cons tag payload =>
    simp only [decode] at h
    split at h
    · obtain ⟨peer', hdecode, h⟩ := bind_eq_ok.mp h
      cases h
      exact helloFromSlice_sound (mapError_eq_ok.mp hdecode)
    · repeat' split at h
      all_goals cases h

end Frame

end Yoink
