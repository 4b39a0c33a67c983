import Mathlib.Data.List.DropRight

/-!
# Strings of UTF-16 code units

The form a string of characters has where strings are lists of 16-bit units. A character of the
basic plane is one unit, any other a lead and a trail surrogate. Walking such a string by code
points finds the characters again. A test of single units that no surrogate passes is a test of
characters (`onChar`), so trimming by units is trimming by characters.
-/

namespace Utf16

/-- The code units of a character. -/
def ofChar (c : Char) : List UInt16 :=
  if c.toNat < 0x10000 then [.ofNat c.toNat]
  else [.ofNat (0xD800 + (c.toNat - 0x10000) / 0x400),
    .ofNat (0xDC00 + (c.toNat - 0x10000) % 0x400)]

def encode (cs : List Char) : List UInt16 := cs.flatMap ofChar

def isLead (u : UInt16) : Bool := 0xD800 ≤ u.toNat && u.toNat < 0xDC00

def isTrail (u : UInt16) : Bool := 0xDC00 ≤ u.toNat && u.toNat < 0xE000

/-- The code points of a string, each by its units; a surrogate without its other half stands
for itself. -/
def codePoints : List UInt16 → List (List UInt16)
  | [] => []
  | [u] => [[u]]
  | u :: v :: us =>
    if isLead u && isTrail v then [u, v] :: codePoints us else [u] :: codePoints (v :: us)

/-- A test of single units, as a test of characters. -/
def onChar (p : UInt16 → Bool) (c : Char) : Bool :=
  match ofChar c with
  | [u] => p u
  | _ => false

/-- One unit that is no surrogate, or a lead and a trail surrogate. -/
theorem ofChar_cases (c : Char) :
    (∃ u, ofChar c = [u] ∧ u.toNat = c.toNat ∧ isLead u = false) ∨
    ∃ u v, ofChar c = [u, v] ∧ 0x10000 ≤ c.toNat ∧ isLead u = true ∧ isTrail v = true := by
  have hvalid : c.toNat < 0xD800 ∨ 0xDFFF < c.toNat ∧ c.toNat < 0x110000 := c.valid
  have unit {n : Nat} (h : n < 0x10000) : (UInt16.ofNat n).toNat = n :=
    UInt16.toNat_ofNat_of_lt' h
  unfold ofChar
  split
  · rename_i h
    refine .inl ⟨_, rfl, unit h, ?_⟩
    simp only [isLead, unit h, Bool.and_eq_false_iff, decide_eq_false_iff_not]
    omega
  · refine .inr ⟨_, _, rfl, by omega, ?_, ?_⟩
    · simp only [isLead, unit (show 0xD800 + (c.toNat - 0x10000) / 0x400 < 0x10000 by omega),
        Bool.and_eq_true, decide_eq_true_eq]
      omega
    · simp only [isTrail, unit (show 0xDC00 + (c.toNat - 0x10000) % 0x400 < 0x10000 by omega),
        Bool.and_eq_true, decide_eq_true_eq]
      omega

@[simp] theorem encode_nil : encode [] = [] := rfl

@[simp] theorem encode_cons (c : Char) (cs : List Char) :
    encode (c :: cs) = ofChar c ++ encode cs := rfl

@[simp] theorem encode_append (cs ds : List Char) : encode (cs ++ ds) = encode cs ++ encode ds :=
  List.flatMap_append

theorem encode_isEmpty (cs : List Char) : (encode cs).isEmpty = cs.isEmpty := by
  cases cs with
  | nil => rfl
  | cons c cs =>
    obtain ⟨u, hu, -⟩ | ⟨u, v, huv, -⟩ := ofChar_cases c
    · simp [hu]
    · simp [huv]

/-- Walking a string finds its characters. -/
theorem codePoints_encode (cs : List Char) : codePoints (encode cs) = cs.map ofChar := by
  induction cs with
  | nil => rfl
  | cons c cs ih =>
    rw [encode_cons, List.map_cons, ← ih]
    obtain ⟨u, hu, -, hlead⟩ | ⟨u, v, huv, -, hlead, htrail⟩ := ofChar_cases c
    · rw [hu]
      cases encode cs with
      | nil => rfl
      | cons v us => simp [codePoints, hlead]
    · rw [huv]
      simp [codePoints, hlead, htrail]

section Trim

variable {p : UInt16 → Bool} (hp : ∀ u, (isLead u || isTrail u) = true → p u = false)

include hp

theorem dropWhile_encode (cs : List Char) :
    (encode cs).dropWhile p = encode (cs.dropWhile (onChar p)) := by
  induction cs with
  | nil => rfl
  | cons c cs ih =>
    obtain ⟨u, hu, -, -⟩ | ⟨u, v, huv, -, hlead, -⟩ := ofChar_cases c
    · have hc : onChar p c = p u := by simp [onChar, hu]
      cases h : p u <;> simp [hu, hc, h, ih]
    · have hc : onChar p c = false := by simp [onChar, huv]
      simp [huv, hc, hp u (by simp [hlead])]

theorem rdropWhile_encode (cs : List Char) :
    (encode cs).rdropWhile p = encode (cs.rdropWhile (onChar p)) := by
  induction cs using List.reverseRecOn with
  | nil => rfl
  | append_singleton cs c ih =>
    obtain ⟨u, hu, -, -⟩ | ⟨u, v, huv, -, -, htrail⟩ := ofChar_cases c
    · have hc : onChar p c = p u := by simp [onChar, hu]
      cases h : p u <;> simp [hu, hc, h, ih]
    · have hc : onChar p c = false := by simp [onChar, huv]
      have hv : p v = false := hp v (by simp [htrail])
      have hsplit : encode (cs ++ [c]) = (encode cs ++ [u]) ++ [v] := by simp [huv]
      rw [List.rdropWhile_concat_neg _ _ _ (by simp [hc]), hsplit,
        List.rdropWhile_concat_neg _ _ _ (by simp [hv])]

end Trim

end Utf16
