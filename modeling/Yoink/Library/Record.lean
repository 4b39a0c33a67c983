import Mathlib.Data.List.Induction
import Yoink.Library.Json
import Yoink.Library.Results

/-!
# Records read from JSON values

What a derived reader makes of a struct of one or two fields. An object lists the fields in any
order among keys nobody knows, each of them once; an array lists them in order. A field may have a
default. `readPairObject_eq_ok` says which objects are accepted, without the loop that reads them.
-/

open Results

/-- Why a record is rejected; `ε` is what the readers of the fields say. -/
inductive RecordError (ε : Type) where
  | missingField (name : String)
  | duplicateField (name : String)
  | invalidLength
  | invalid (e : ε)
  deriving DecidableEq, Repr

/-- The values an object has for a key. -/
def Json.values (name : String) (entries : List (String × Json)) : List Json :=
  (entries.filter fun e => e.1 = name).map Prod.snd

structure RecordField (ε : Type) (α : Type) where
  name : String
  read : Json → Except ε α
  default : Option α

namespace RecordField

variable {ε α β : Type} (f : RecordField ε α) (g : RecordField ε β)

/-- Fill the field, which must not have been seen. -/
def see (seen : Option α) (value : Json) : Except (RecordError ε) (Option α) :=
  if seen.isSome then .error (.duplicateField f.name)
  else
    match f.read value with
    | .ok a => .ok (some a)
    | .error e => .error (.invalid e)

/-- All entries have been visited. -/
def finish : Option α → Except (RecordError ε) α
  | some a => .ok a
  | none =>
    match f.default with
    | some a => .ok a
    | none => .error (.missingField f.name)

/-- One entry of an object; other keys are ignored. -/
def visit (seen : Option α) (entry : String × Json) : Except (RecordError ε) (Option α) :=
  if entry.1 = f.name then f.see seen entry.2 else .ok seen

def visitPair (seen : Option α × Option β) (entry : String × Json) :
    Except (RecordError ε) (Option α × Option β) :=
  if entry.1 = f.name then do return (← f.see seen.1 entry.2, seen.2)
  else if entry.1 = g.name then do return (seen.1, ← g.see seen.2 entry.2)
  else .ok seen

/-- A struct of one field, from an object. -/
def readObject (entries : List (String × Json)) : Except (RecordError ε) α := do
  f.finish (← entries.foldlM f.visit none)

/-- A struct of two fields, from an object. -/
def readPairObject (entries : List (String × Json)) : Except (RecordError ε) (α × β) := do
  let seen ← entries.foldlM (visitPair f g) (none, none)
  return (← f.finish seen.1, ← g.finish seen.2)

/-- The next element of an array, and the elements behind it. -/
def next : List Json → Except (RecordError ε) (α × List Json)
  | [] =>
    match f.default with
    | some a => .ok (a, [])
    | none => .error .invalidLength
  | value :: values =>
    match f.read value with
    | .ok a => .ok (a, values)
    | .error e => .error (.invalid e)

def readArray (values : List Json) : Except (RecordError ε) α := do
  let (a, rest) ← f.next values
  if rest.isEmpty then return a else .error .invalidLength

def readPairArray (values : List Json) : Except (RecordError ε) (α × β) := do
  let (a, values) ← f.next values
  let (b, rest) ← g.next values
  if rest.isEmpty then return (a, b) else .error .invalidLength

/-- What has been seen of the field in some entries. -/
def Seen (entries : List (String × Json)) : Option α → Prop
  | none => Json.values f.name entries = []
  | some a => ∃ v, Json.values f.name entries = [v] ∧ f.read v = .ok a

/-- The object gives the field this value, if only by leaving it out. -/
def Gives (entries : List (String × Json)) (a : α) : Prop :=
  (∃ v, Json.values f.name entries = [v] ∧ f.read v = .ok a) ∨
    (Json.values f.name entries = [] ∧ f.default = some a)

/-- A field that must be there and reads exactly what `write` writes. -/
structure Writes (write : α → Json) : Prop where
  read : ∀ {value a}, f.read value = .ok a ↔ value = write a
  required : f.default = none

/-- The rest of an array gives the field this value, if only by ending before it. -/
def Next (values rest : List Json) (a : α) : Prop :=
  (∃ v, values = v :: rest ∧ f.read v = .ok a) ∨
    (values = [] ∧ rest = [] ∧ f.default = some a)

end RecordField

namespace Json

theorem values_concat_self (entries : List (String × Json)) (name : String) (v : Json) :
    values name (entries ++ [(name, v)]) = values name entries ++ [v] := by
  simp [values]

theorem values_concat_of_ne {entries : List (String × Json)} {name : String}
    {entry : String × Json} (h : entry.1 ≠ name) :
    values name (entries ++ [entry]) = values name entries := by
  simp [values, h]

theorem values_perm {entries entries' : List (String × Json)} (h : entries.Perm entries')
    (name : String) : (values name entries).Perm (values name entries') :=
  (h.filter _).map _

/-- Keys other than the one that is dropped keep their values. -/
theorem values_filter_ne {entries : List (String × Json)} {name dropped : String}
    (h : name ≠ dropped) :
    values name (entries.filter fun e => e.1 ≠ dropped) = values name entries := by
  rw [values, values, List.filter_filter]
  refine congrArg (List.map Prod.snd) (List.filter_congr fun e _ => ?_)
  by_cases he : e.1 = name
  · simp [he, h]
  · simp [he]

end Json

namespace RecordField

variable {ε α β : Type} {f : RecordField ε α} {g : RecordField ε β}
  {entries : List (String × Json)}

theorem see_eq_ok {seen seen' : Option α} {v : Json} : f.see seen v = .ok seen' ↔
    seen = none ∧ ∃ a, f.read v = .ok a ∧ seen' = some a := by
  unfold see
  cases seen with
  | some a => simp
  | none =>
    cases hv : f.read v with
    | ok a => simp [eq_comm]
    | error e => simp

/-- One more entry of the field. -/
theorem seen_concat_self {seen' : Option α} {v : Json} :
    f.Seen (entries ++ [(f.name, v)]) seen' ↔
      ∃ seen, f.Seen entries seen ∧ f.see seen v = .ok seen' := by
  constructor
  · intro h
    cases seen' with
    | none => simp [Seen, Json.values_concat_self] at h
    | some a =>
      obtain ⟨w, hw, hread⟩ := h
      rw [Json.values_concat_self] at hw
      have hnil : Json.values f.name entries = [] := by
        have hlen := congrArg List.length hw
        rw [List.length_append, List.length_singleton, List.length_singleton] at hlen
        exact List.length_eq_zero_iff.mp (by omega)
      rw [hnil] at hw
      obtain rfl : v = w := by simpa using hw
      exact ⟨none, hnil, see_eq_ok.mpr ⟨rfl, a, hread, rfl⟩⟩
  · rintro ⟨seen, hseen, hsee⟩
    obtain ⟨rfl, a, hread, rfl⟩ := see_eq_ok.mp hsee
    have hnil : Json.values f.name entries = [] := hseen
    exact ⟨v, by rw [Json.values_concat_self, hnil, List.nil_append], hread⟩

theorem seen_concat_of_ne {seen : Option α} {entry : String × Json} (h : entry.1 ≠ f.name) :
    f.Seen (entries ++ [entry]) seen ↔ f.Seen entries seen := by
  cases seen <;> simp [Seen, Json.values_concat_of_ne h]

/-- What the loop over an object has seen at its end. -/
theorem foldlM_visit {seen : Option α} :
    entries.foldlM f.visit none = .ok seen ↔ f.Seen entries seen := by
  induction entries using List.reverseRecOn generalizing seen with
  | nil => cases seen <;> simp [Seen, Json.values, pure, Except.pure]
  | append_singleton entries entry ih =>
    rw [List.foldlM_append, bind_eq_ok]
    simp only [ih, List.foldlM_cons, List.foldlM_nil, bind_pure, visit]
    by_cases he : entry.1 = f.name
    · obtain ⟨name, v⟩ := entry
      obtain rfl : name = f.name := he
      simp only [if_true]
      exact seen_concat_self.symm
    · simp only [if_neg he, Except.ok.injEq, exists_eq_right]
      exact (seen_concat_of_ne he).symm

theorem foldlM_visitPair (hne : f.name ≠ g.name) {seen : Option α × Option β} :
    entries.foldlM (visitPair f g) (none, none) = .ok seen ↔
      f.Seen entries seen.1 ∧ g.Seen entries seen.2 := by
  induction entries using List.reverseRecOn generalizing seen with
  | nil =>
    obtain ⟨s, t⟩ := seen
    cases s <;> cases t <;> simp [Seen, Json.values, pure, Except.pure]
  | append_singleton entries entry ih =>
    rw [List.foldlM_append, bind_eq_ok]
    simp only [ih, List.foldlM_cons, List.foldlM_nil, bind_pure, visitPair]
    obtain ⟨name, v⟩ := entry
    obtain ⟨s', t'⟩ := seen
    by_cases hf : name = f.name
    · subst hf
      rw [seen_concat_self, seen_concat_of_ne hne]
      simp only [if_true, bind_eq_ok]
      constructor
      · rintro ⟨⟨s, t⟩, ⟨hs, ht⟩, s₁, hsee, h⟩
        cases h
        exact ⟨⟨s, hs, hsee⟩, ht⟩
      · rintro ⟨⟨s, hs, hsee⟩, ht⟩
        exact ⟨(s, t'), ⟨hs, ht⟩, s', hsee, rfl⟩
    by_cases hg : name = g.name
    · subst hg
      rw [seen_concat_self, seen_concat_of_ne hf]
      simp only [if_neg hf, if_true, bind_eq_ok]
      constructor
      · rintro ⟨⟨s, t⟩, ⟨hs, ht⟩, t₁, hsee, h⟩
        cases h
        exact ⟨hs, t, ht, hsee⟩
      · rintro ⟨hs, t, ht, hsee⟩
        exact ⟨(s', t), ⟨hs, ht⟩, t', hsee, rfl⟩
    · simp only [if_neg hf, if_neg hg, Except.ok.injEq]
      rw [seen_concat_of_ne hf, seen_concat_of_ne hg]
      constructor
      · rintro ⟨_, h, rfl⟩
        exact h
      · intro h
        exact ⟨(s', t'), h, rfl⟩

theorem finish_eq_ok {seen : Option α} {a : α} :
    f.finish seen = .ok a ↔ seen = some a ∨ (seen = none ∧ f.default = some a) := by
  cases seen with
  | some b => simp [finish]
  | none => cases hd : f.default <;> simp [finish, hd]

theorem exists_seen_finish {a : α} :
    (∃ seen, f.Seen entries seen ∧ f.finish seen = .ok a) ↔ f.Gives entries a := by
  simp only [finish_eq_ok]
  constructor
  · rintro ⟨seen, hseen, rfl | ⟨rfl, hd⟩⟩
    · exact .inl hseen
    · exact .inr ⟨hseen, hd⟩
  · rintro (h | ⟨h, hd⟩)
    · exact ⟨some a, h, .inl rfl⟩
    · exact ⟨none, h, .inr ⟨rfl, hd⟩⟩

/-- An object is read exactly if it gives the field. -/
theorem readObject_eq_ok {a : α} : f.readObject entries = .ok a ↔ f.Gives entries a := by
  rw [readObject, bind_eq_ok]
  simp only [foldlM_visit]
  exact exists_seen_finish

/-- An object is read exactly if it gives both fields. -/
theorem readPairObject_eq_ok (hne : f.name ≠ g.name) {a : α} {b : β} :
    readPairObject f g entries = .ok (a, b) ↔ f.Gives entries a ∧ g.Gives entries b := by
  rw [readPairObject, bind_eq_ok]
  simp only [foldlM_visitPair hne, bind_eq_ok, ← exists_seen_finish]
  constructor
  · rintro ⟨⟨s, t⟩, ⟨hs, ht⟩, a', ha, b', hb, h⟩
    cases h
    exact ⟨⟨s, hs, ha⟩, ⟨t, ht, hb⟩⟩
  · rintro ⟨⟨s, hs, ha⟩, ⟨t, ht, hb⟩⟩
    exact ⟨(s, t), ⟨hs, ht⟩, a, ha, b, hb, rfl⟩

theorem next_eq_ok {values rest : List Json} {a : α} :
    f.next values = .ok (a, rest) ↔ f.Next values rest a := by
  cases values with
  | nil =>
    cases hd : f.default with
    | none => simp [next, Next, hd]
    | some b => simp [next, Next, hd, and_comm, eq_comm]
  | cons v values =>
    cases hv : f.read v with
    | ok b => simp [next, Next, hv, and_comm]
    | error e => simp [next, Next, hv]

/-- An array is read exactly if it ends with the field. -/
theorem readArray_eq_ok {values : List Json} {a : α} :
    f.readArray values = .ok a ↔ f.Next values [] a := by
  simp only [readArray, bind_eq_ok, Prod.exists, next_eq_ok]
  constructor
  · rintro ⟨b, rest, h, hend⟩
    split at hend
    · next hnil =>
      obtain rfl := List.isEmpty_iff.mp hnil
      cases hend
      exact h
    · cases hend
  · intro h
    exact ⟨a, [], h, rfl⟩

/-- An array is read exactly if it is the two fields, as far as they have no default. -/
theorem readPairArray_eq_ok {values : List Json} {a : α} {b : β} :
    readPairArray f g values = .ok (a, b) ↔ ∃ rest, f.Next values rest a ∧ g.Next rest [] b := by
  simp only [readPairArray, bind_eq_ok, Prod.exists, next_eq_ok]
  constructor
  · rintro ⟨a', rest, hf, b', rest', hg, hend⟩
    split at hend
    · next hnil =>
      obtain rfl := List.isEmpty_iff.mp hnil
      cases hend
      exact ⟨rest, hf, hg⟩
    · cases hend
  · rintro ⟨rest, hf, hg⟩
    exact ⟨a, rest, hf, b, [], hg, rfl⟩

theorem Writes.gives {write : α → Json} (h : f.Writes write) {a : α} :
    f.Gives entries a ↔ Json.values f.name entries = [write a] := by
  simp [Gives, h.read, h.required]

theorem Writes.next {write : α → Json} (h : f.Writes write) {values rest : List Json} {a : α} :
    f.Next values rest a ↔ values = write a :: rest := by
  simp [Next, h.read, h.required]

end RecordField
