import Mathlib.Data.List.TakeDrop

/-!
# JSON values and flat objects as text

`Json` is what a parser finds in a text and a serializer writes. An object of strings and
non-negative integers has a compact text: no white space, escapes only where a string literal
needs one. `read` finds such an object in its text again.
-/

/-- A JSON value. -/
inductive Json where
  | null
  | bool (b : Bool)
  /-- A non-negative integer. -/
  | uint (n : Nat)
  /-- Any other number, as it is written. -/
  | number (text : String)
  | string (s : String)
  | array (values : List Json)
  | object (entries : List (String × Json))

namespace Json

/-- A string or a non-negative integer. -/
def isScalar : Json → Bool
  | .uint _ | .string _ => true
  | _ => false

/-- The escapes of one letter, and the characters they stand for. -/
def letters : List (Char × Char) :=
  [('"', '"'), ('\\', '\\'), ('b', '\x08'), ('f', '\x0c'), ('n', '\n'), ('r', '\r'), ('t', '\t')]

/-- A character in a string literal; control characters are escaped by their code. -/
def escape (c : Char) : List Char :=
  match letters.find? (·.2 == c) with
  | some (letter, _) => ['\\', letter]
  | none =>
    if c.toNat < 0x20 then
      ['\\', 'u', '0', '0', Nat.digitChar (c.toNat / 16), Nat.digitChar (c.toNat % 16)]
    else [c]

/-- The rest of a string literal, from behind its opening quote on. -/
def writeString (cs : List Char) : List Char := cs.flatMap escape ++ ['"']

def writeValue : Json → List Char
  | .uint n => Nat.toDigits 10 n
  | .string s => '"' :: writeString s.toList
  | _ => []

def writeEntry (entry : String × Json) : List Char :=
  '"' :: writeString entry.1.toList ++ ':' :: writeValue entry.2

/-- The rest of an object, from its first entry on. -/
def writeEntries : String × Json → List (String × Json) → List Char
  | entry, [] => writeEntry entry ++ ['}']
  | entry, next :: entries => writeEntry entry ++ ',' :: writeEntries next entries

/-- The compact text of an object. -/
def write : List (String × Json) → List Char
  | [] => ['{', '}']
  | entry :: entries => '{' :: writeEntries entry entries

def hexDigit (c : Char) : Option Nat :=
  if '0' ≤ c ∧ c ≤ '9' then some (c.toNat - 48)
  else if 'a' ≤ c ∧ c ≤ 'f' then some (c.toNat - 87)
  else none

/-- A string literal from behind its opening quote on, and what follows it. -/
def readString : List Char → Option (List Char × List Char)
  | [] => none
  | '"' :: cs => some ([], cs)
  | '\\' :: 'u' :: '0' :: '0' :: a :: b :: cs =>
    match hexDigit a, hexDigit b with
    | some a, some b => (readString cs).map fun s => (.ofNat (16 * a + b) :: s.1, s.2)
    | _, _ => none
  | '\\' :: letter :: cs =>
    match letters.find? (·.1 == letter) with
    | some (_, c) => (readString cs).map fun s => (c :: s.1, s.2)
    | none => none
  | c :: cs => (readString cs).map fun s => (c :: s.1, s.2)

def readValue : List Char → Option (Json × List Char)
  | '"' :: cs => (readString cs).map fun s => (.string (.ofList s.1), s.2)
  | cs =>
    let digits := cs.takeWhile Char.isDigit
    if digits.isEmpty then none
    else some (.uint (Nat.ofDigitChars 10 digits 0), cs.dropWhile Char.isDigit)

def readEntry : List Char → Option ((String × Json) × List Char)
  | '"' :: cs =>
    match readString cs with
    | some (key, ':' :: cs) => (readValue cs).map fun v => ((.ofList key, v.1), v.2)
    | _ => none
  | _ => none

/-- The rest of an object, from its first entry on; `fuel` bounds the number of entries. -/
def readEntries : Nat → List Char → Option (List (String × Json))
  | 0, _ => none
  | fuel + 1, cs =>
    match readEntry cs with
    | some (entry, ['}']) => some [entry]
    | some (entry, ',' :: cs) => (readEntries fuel cs).map (entry :: ·)
    | _ => none

/-- The object with this compact text. -/
def read : List Char → Option (List (String × Json))
  | ['{', '}'] => some []
  | '{' :: cs => readEntries cs.length cs
  | _ => none

/-- An escaped character is read as itself. -/
theorem readString_escape (c : Char) (cs : List Char) :
    readString (escape c ++ cs) = (readString cs).map fun s => (c :: s.1, s.2) := by
  unfold escape
  split
  · rename_i letter d hfind
    obtain rfl : d = c := by simpa using List.find?_some hfind
    have hread : ∀ e ∈ letters, readString ('\\' :: e.1 :: cs) =
        (readString cs).map fun s => (e.2 :: s.1, s.2) := by
      simp only [letters, List.forall_mem_cons]
      exact ⟨rfl, rfl, rfl, rfl, rfl, rfl, rfl, nofun⟩
    exact hread _ (List.mem_of_find?_eq_some hfind)
  · rename_i hfind
    split
    · rename_i hctrl
      have hhex : ∀ n < 0x20, hexDigit (Nat.digitChar (n / 16)) = some (n / 16) ∧
          hexDigit (Nat.digitChar (n % 16)) = some (n % 16) := by decide
      obtain ⟨h1, h2⟩ := hhex c.toNat hctrl
      simp only [List.cons_append, List.nil_append, readString, h1, h2]
      rw [Nat.div_add_mod, Char.ofNat_toNat]
    · have hletters := List.find?_eq_none.mp hfind
      have hquote : c ≠ '"' := by
        rintro rfl
        exact hletters ('"', '"') (by decide) rfl
      have hslash : c ≠ '\\' := by
        rintro rfl
        exact hletters ('\\', '\\') (by decide) rfl
      simp [readString, hslash]

theorem readString_write (cs rest : List Char) :
    readString (writeString cs ++ rest) = some (cs, rest) := by
  unfold writeString
  induction cs with
  | nil => simp [readString]
  | cons c cs ih =>
    rw [List.flatMap_cons, List.append_assoc, List.append_assoc, readString_escape,
      ← List.append_assoc, ih]
    rfl

section Digits

variable {ds rest : List Char} (hds : ∀ c ∈ ds, c.isDigit = true)
  (hrest : ∀ c ∈ rest.head?, c.isDigit = false)

include hds hrest

theorem takeWhile_digits : (ds ++ rest).takeWhile Char.isDigit = ds := by
  rw [List.takeWhile_append_of_pos hds]
  cases rest with
  | nil => simp
  | cons c rest => simp [hrest c rfl]

theorem dropWhile_digits : (ds ++ rest).dropWhile Char.isDigit = rest := by
  rw [List.dropWhile_append_of_pos hds]
  cases rest with
  | nil => rfl
  | cons c rest => simp [hrest c rfl]

end Digits

theorem toDigits_ne_quote (n : Nat) (rest cs : List Char) :
    Nat.toDigits 10 n ++ rest ≠ '"' :: cs := by
  intro h
  cases hds : Nat.toDigits 10 n with
  | nil => simp at hds
  | cons d ds =>
    rw [hds] at h
    have hd : d.isDigit = true :=
      Nat.isDigit_of_mem_toDigits (by decide) (by decide) (hds ▸ List.mem_cons_self)
    rw [(List.cons.inj h).1] at hd
    exact absurd hd (by decide)

theorem readValue_write {v : Json} (hv : v.isScalar = true) {rest : List Char}
    (hrest : ∀ c ∈ rest.head?, c.isDigit = false) :
    readValue (writeValue v ++ rest) = some (v, rest) := by
  cases v with
  | string s => simp [writeValue, readValue, readString_write]
  | uint n =>
    have hdigits : ∀ c ∈ Nat.toDigits 10 n, c.isDigit = true := fun c hc =>
      Nat.isDigit_of_mem_toDigits (by decide) (by decide) hc
    have hne : (Nat.toDigits 10 n).isEmpty = false := by simp
    rw [writeValue, readValue.eq_2 _ (toDigits_ne_quote n rest)]
    simp only [takeWhile_digits hdigits hrest, dropWhile_digits hdigits hrest, hne,
      Nat.ofDigitChars_ten_toDigits]
    rfl
  | _ => cases hv

theorem readEntry_write {entry : String × Json} (hv : entry.2.isScalar = true) {rest : List Char}
    (hrest : ∀ c ∈ rest.head?, c.isDigit = false) :
    readEntry (writeEntry entry ++ rest) = some (entry, rest) := by
  simp [writeEntry, readEntry, readString_write, readValue_write hv hrest]

theorem readEntries_write {entry : String × Json} {entries : List (String × Json)}
    (h : ∀ e ∈ entry :: entries, e.2.isScalar = true) {fuel : Nat}
    (hfuel : entries.length < fuel) :
    readEntries fuel (writeEntries entry entries) = some (entry :: entries) := by
  induction entries generalizing entry fuel with
  | nil =>
    obtain ⟨fuel, rfl⟩ := Nat.exists_eq_add_one_of_ne_zero (Nat.ne_zero_of_lt hfuel)
    rw [writeEntries, readEntries, readEntry_write (h entry List.mem_cons_self) (by simp)]
    rfl
  | cons next entries ih =>
    obtain ⟨fuel, rfl⟩ := Nat.exists_eq_add_one_of_ne_zero (Nat.ne_zero_of_lt hfuel)
    rw [writeEntries, readEntries, readEntry_write (h entry List.mem_cons_self) (by simp)]
    simp [ih (fun e he => h e (List.mem_cons_of_mem _ he)) (Nat.lt_of_succ_lt_succ hfuel)]

theorem length_writeEntries (entry : String × Json) (entries : List (String × Json)) :
    entries.length < (writeEntries entry entries).length := by
  induction entries generalizing entry with
  | nil => simp [writeEntries]
  | cons next entries ih =>
    have := ih next
    simp only [writeEntries, List.length_append, List.length_cons]
    omega

/-- An object of strings and non-negative integers is read from its text. -/
theorem read_write {entries : List (String × Json)} (h : ∀ e ∈ entries, e.2.isScalar = true) :
    read (write entries) = some entries := by
  cases entries with
  | nil => rfl
  | cons entry entries =>
    have hread := readEntries_write h (length_writeEntries entry entries)
    have hquote : ∃ cs, writeEntries entry entries = '"' :: cs := by
      cases entries <;> exact ⟨_, rfl⟩
    obtain ⟨cs, hcs⟩ := hquote
    rw [hcs] at hread
    simpa [write, hcs, read] using hread

end Json
