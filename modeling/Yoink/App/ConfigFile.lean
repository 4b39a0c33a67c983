import Yoink.App.Config
import Yoink.Library.Toml

/-!
# The text of the config file

What `toml::to_string_pretty` and `toml::from_str` do with a `Config`, for configs whose strings
need no escapes. The results about saving and starting leave the TOML library open; this is the
part of it that a config meets in practice.
-/

namespace Yoink.Config

/-- The fields of the struct in their order, without a name that is not set. -/
def toDoc (config : Config) : List (String × Toml.Value) :=
  ("device_id", .str config.deviceId) :: (config.name.map fun name => ("name", .str name)).toList ++
    [("allowed", .array config.allowed), ("blocked", .array config.blocked),
      ("rooms", .array config.rooms)]

/-- A field that holds a string, if it is there. -/
def strField (doc : List (String × Toml.Value)) (key : String) : Option (Option String) :=
  match doc.lookup key with
  | none => some none
  | some (.str s) => some (some s)
  | some (.array _) => none

/-- A field that holds an array, which may be left out. -/
def arrayField (doc : List (String × Toml.Value)) (key : String) : Option (List String) :=
  match doc.lookup key with
  | none => some []
  | some (.array items) => some items
  | some (.str _) => none

/-- `Deserialize`: only the device id has no default, and no key may stand twice. -/
def ofDoc (doc : List (String × Toml.Value)) : Option Config := do
  guard (doc.map Prod.fst).Nodup
  let deviceId ← (← strField doc "device_id")
  let name ← strField doc "name"
  let allowed ← arrayField doc "allowed"
  let blocked ← arrayField doc "blocked"
  let rooms ← arrayField doc "rooms"
  some ⟨deviceId, name, allowed, blocked, rooms⟩

theorem ofDoc_toDoc (config : Config) : ofDoc config.toDoc = some config := by
  obtain ⟨deviceId, name, allowed, blocked, rooms⟩ := config
  cases name <;> simp [ofDoc, toDoc, strField, arrayField, List.lookup_cons]

/-- `toml::to_string_pretty`; a config that needs escapes is left out. -/
def toToml (config : Config) : Option (List UInt8) :=
  if Toml.plain config.toDoc then some (Toml.toBytes (Toml.print config.toDoc)) else none

/-- `toml::from_str`. -/
def ofToml (raw : List UInt8) : Option Config := (Toml.parse (Toml.ofBytes raw)).bind ofDoc

/-- A config that is written is read back. -/
theorem ofToml_toToml (config : Config) (raw : List UInt8) (h : config.toToml = some raw) :
    ofToml raw = some config := by
  unfold toToml at h
  split at h
  · rename_i hplain
    obtain rfl := Option.some.inj h
    rw [ofToml, Toml.parse_toBytes hplain, Option.bind_some, ofDoc_toDoc]
  · cases h

end Yoink.Config
