import Yoink.Core.Scope
import Mathlib.Data.List.DropRight
import Mathlib.Data.List.Chain

/-!
# Canonical room names

`sanitizeRoomName` yields exactly the names of lower-case letters, digits and single inner
hyphens up to the length limit, and leaves each of them as it is. So a name that one layer has
sanitized passes the check of the next one.
-/

namespace Yoink

/-- The characters the loop may append besides the hyphen. -/
def IsNameChar (c : Char) : Prop := c.isAlphanum = true ∧ c.toLower = c

/-- What holds of the name while the loop builds it. -/
structure NamePart (cs : List Char) : Prop where
  chars : ∀ c ∈ cs, c = '-' ∨ IsNameChar c
  single : cs.IsChain fun a b => a = '-' → b ≠ '-'
  head : cs.head? ≠ some '-'

/-- The canonical names. -/
structure RoomName (cs : List Char) : Prop extends NamePart cs where
  nonempty : cs ≠ []
  last : cs.getLast? ≠ some '-'
  length : cs.length ≤ maxRoomNameLen

section Chars

theorem isAlphanum_iff (c : Char) : c.isAlphanum = true ↔
    ((65 ≤ c.toNat ∧ c.toNat ≤ 90) ∨ (97 ≤ c.toNat ∧ c.toNat ≤ 122)) ∨
      (48 ≤ c.toNat ∧ c.toNat ≤ 57) := by
  have hranges : c.isAlphanum =
      ((decide (65 ≤ c.val ∧ c.val ≤ 90) || decide (97 ≤ c.val) && decide (c.val ≤ 122)) ||
          decide (48 ≤ c.val) && decide (c.val ≤ 57)) := rfl
  simp only [hranges, Bool.or_eq_true, Bool.and_eq_true, decide_eq_true_eq,
    UInt32.le_iff_toNat_le]
  rfl

/-- A property of the ASCII characters can be checked on code points. -/
theorem ascii_cases {p : Char → Prop} (c : Char) (hc : c.toNat < 128)
    (h : ∀ n < 128, p (Char.ofNat n)) : p c := by
  rw [← Char.ofNat_toNat c]
  exact h c.toNat hc

theorem alphanum_cases {p : Char → Prop} [DecidablePred p] (c : Char) (hc : c.isAlphanum = true)
    (h : ∀ n < 128, (Char.ofNat n).isAlphanum = true → p (Char.ofNat n)) : p c := by
  have hlt : c.toNat < 128 := by
    rw [isAlphanum_iff] at hc
    omega
  exact ascii_cases (p := fun c => c.isAlphanum = true → p c) c hlt h hc

theorem isNameChar_toLower {c : Char} (hc : c.isAlphanum = true) : IsNameChar c.toLower :=
  alphanum_cases (p := fun c => c.toLower.isAlphanum = true ∧ c.toLower.toLower = c.toLower) c hc
    (by decide)

theorem IsNameChar.ne_hyphen {c : Char} (h : IsNameChar c) : c ≠ '-' :=
  alphanum_cases (p := (· ≠ '-')) c h.1 (by decide)

theorem not_whitespace_of_alphanum {c : Char} (hc : c.isAlphanum = true) :
    isWhitespace c = false :=
  alphanum_cases (p := fun c => isWhitespace c = false) c hc (by decide)

/-- What the loop appends is a lower-case letter or a digit. -/
theorem isNameChar_iff {c : Char} :
    IsNameChar c ↔ ('a' ≤ c ∧ c ≤ 'z') ∨ ('0' ≤ c ∧ c ≤ '9') := by
  constructor
  · rintro ⟨halpha, hlower⟩
    exact alphanum_cases
      (p := fun c => c.toLower = c → ('a' ≤ c ∧ c ≤ 'z') ∨ ('0' ≤ c ∧ c ≤ '9')) c halpha (by decide)
      hlower
  · intro h
    have hlt : c.toNat < 128 := by
      obtain ⟨-, hle⟩ | ⟨-, hle⟩ := h
      · exact (UInt32.le_iff_toNat_le.mp (Char.le_def.mp hle)).trans_lt (by decide)
      · exact (UInt32.le_iff_toNat_le.mp (Char.le_def.mp hle)).trans_lt (by decide)
    exact ascii_cases (p := fun c => ('a' ≤ c ∧ c ≤ 'z') ∨ ('0' ≤ c ∧ c ≤ '9') →
      c.isAlphanum = true ∧ c.toLower = c) c hlt (by decide) h

theorem IsNameChar.utf8Size {c : Char} (h : IsNameChar c) : c.utf8Size = 1 :=
  alphanum_cases (p := fun c => c.utf8Size = 1) c h.1 (by decide)

end Chars

section Loop

theorem NamePart.nil : NamePart [] where
  chars := by simp
  single := by simp
  head := by simp

theorem NamePart.of_append {cs rest : List Char} (h : NamePart (cs ++ rest)) : NamePart cs where
  chars c hc := h.chars c (List.mem_append_left rest hc)
  single := (List.isChain_append.mp h.single).1
  head hh := h.head (by rw [List.head?_append, hh]; rfl)

/-- A name is ASCII, so it is as many bytes long as characters. -/
theorem NamePart.byteLen {cs : List Char} (h : NamePart cs) : byteLen cs = cs.length := by
  have hone : ∀ c ∈ cs, c.utf8Size = 1 := fun c hc => by
    obtain rfl | hc := h.chars c hc
    · rfl
    · exact hc.utf8Size
  rw [Yoink.byteLen, List.map_congr_left hone]
  simp

/-- Whether the loop's flag is up: nothing was appended yet, or a hyphen was last. -/
def endsHyphen (cs : List Char) : Bool := cs.getLast?.all (· == '-')

theorem NamePart.append {cs : List Char} {c : Char} (h : NamePart cs)
    (hc : c = '-' ∨ IsNameChar c) (hn : c = '-' → endsHyphen cs = false) :
    NamePart (cs ++ [c]) where
  chars d hd := by
    obtain hd | hd := List.mem_append.mp hd
    · exact h.chars d hd
    · exact List.mem_singleton.mp hd ▸ hc
  single := by
    refine List.isChain_append.mpr ⟨h.single, by simp, fun a ha b hb hah hbh => ?_⟩
    obtain rfl : c = b := by simpa using hb
    have := hn hbh
    rw [endsHyphen, Option.mem_def.mp ha] at this
    simp [hah] at this
  head := by
    cases cs with
    | nil =>
      intro hh
      obtain rfl : c = '-' := by simpa using hh
      simpa [endsHyphen] using hn rfl
    | cons d ds => simpa using h.head

/-- One character keeps the name well formed and the flag true to it. -/
theorem NamePart.sanitizeChar {cs : List Char} (h : NamePart cs) (c : Char) :
    NamePart (sanitizeChar cs (endsHyphen cs) c).1 ∧
      (Yoink.sanitizeChar cs (endsHyphen cs) c).2 =
        endsHyphen (Yoink.sanitizeChar cs (endsHyphen cs) c).1 ∧
      (Yoink.sanitizeChar cs (endsHyphen cs) c).1.length ≤ cs.length + 1 := by
  unfold Yoink.sanitizeChar
  split
  · rename_i hc
    have hc := isNameChar_toLower hc
    exact ⟨h.append (.inr hc) fun he => absurd he hc.ne_hyphen,
      by simp [endsHyphen, hc.ne_hyphen], by simp⟩
  · split
    · rename_i hflag
      exact ⟨h.append (.inl rfl) fun _ => by simpa using hflag, by simp [endsHyphen], by simp⟩
    · exact ⟨h, rfl, Nat.le_succ _⟩

theorem NamePart.sanitizeLoop {cs : List Char} (h : NamePart cs)
    (hlen : cs.length < maxRoomNameLen) (input : List Char) :
    NamePart (sanitizeLoop input cs (endsHyphen cs)) ∧
      (Yoink.sanitizeLoop input cs (endsHyphen cs)).length ≤ maxRoomNameLen := by
  induction input generalizing cs with
  | nil => exact ⟨h, hlen.le⟩
  | cons c input ih =>
    obtain ⟨hpart, hflag, hle⟩ := h.sanitizeChar c
    rw [Yoink.sanitizeLoop]
    simp only [hflag, hpart.byteLen]
    split
    · exact ⟨hpart, by omega⟩
    · exact ih hpart (by omega)

/-- A character of a canonical name is appended as it is. -/
theorem sanitizeChar_eq {cs : List Char} {c : Char} {input : List Char}
    (h : NamePart (cs ++ c :: input)) :
    sanitizeChar cs (endsHyphen cs) c = (cs ++ [c], endsHyphen (cs ++ [c])) := by
  obtain rfl | hc := h.chars c (by simp)
  · have hflag : endsHyphen cs = false := by
      cases hlast : cs.getLast? with
      | none =>
        obtain rfl := List.getLast?_eq_none_iff.mp hlast
        exact absurd rfl h.head
      | some a =>
        have := (List.isChain_append.mp h.single).2.2 a hlast '-' rfl
        simpa [endsHyphen, hlast] using fun ha => this ha rfl
    rw [sanitizeChar, hflag]
    simp [endsHyphen]
  · simp [sanitizeChar, hc.1, hc.2, endsHyphen, hc.ne_hyphen]

/-- What is already canonical goes through the loop unchanged. -/
theorem sanitizeLoop_eq {cs input : List Char} (h : NamePart (cs ++ input))
    (hlen : (cs ++ input).length ≤ maxRoomNameLen) :
    sanitizeLoop input cs (endsHyphen cs) = cs ++ input := by
  induction input generalizing cs with
  | nil => exact (List.append_nil cs).symm
  | cons c input ih =>
    rw [sanitizeLoop, sanitizeChar_eq h]
    have happ : cs ++ c :: input = cs ++ [c] ++ input := by simp
    rw [happ] at h hlen ⊢
    simp only [h.of_append.byteLen]
    split
    · -- The limit is reached, so nothing is left of the input.
      rename_i hlim
      rw [show (cs ++ [c] ++ input).length = (cs ++ [c]).length + input.length from
        List.length_append] at hlen
      obtain rfl : input = [] := List.eq_nil_of_length_eq_zero (by omega)
      exact (List.append_nil _).symm
    · exact ih h hlen

theorem trimMatches_eq_self {p : Char → Bool} {cs : List Char}
    (hh : ∀ c ∈ cs.head?, p c = false) (hl : ∀ c ∈ cs.getLast?, p c = false) :
    trimMatches p cs = cs := by
  have hdrop : cs.dropWhile p = cs := by
    cases cs with
    | nil => rfl
    | cons c cs => simp [hh c rfl]
  have hrdrop : cs.rdropWhile p = cs :=
    List.rdropWhile_eq_self_iff.mpr fun hne => by
      simp [hl _ (List.getLast?_eq_getLast_of_ne_nil hne)]
  rw [trimMatches, hdrop]
  exact hrdrop

end Loop

section Sanitize

/-- Trimming takes at most a last hyphen off what the loop built. -/
theorem NamePart.trimMatches {cs : List Char} (h : NamePart cs)
    (hlen : cs.length ≤ maxRoomNameLen) (hne : trimMatches (· == '-') cs ≠ []) :
    RoomName (Yoink.trimMatches (· == '-') cs) := by
  have htrim : Yoink.trimMatches (· == '-') cs = cs.rdropWhile (· == '-') := by
    have hdrop : cs.dropWhile (· == '-') = cs := by
      cases cs with
      | nil => rfl
      | cons c cs => simpa using h.head
    rw [Yoink.trimMatches, hdrop]
    rfl
  rw [htrim] at hne ⊢
  have hpre := cs.rdropWhile_prefix (· == '-')
  refine ⟨?_, hne, fun hlast => ?_, hpre.length_le.trans hlen⟩
  · obtain ⟨rest, hrest⟩ := hpre
    exact (hrest ▸ h).of_append
  · refine List.rdropWhile_last_not _ _ hne ?_
    rw [List.getLast?_eq_getLast_of_ne_nil hne] at hlast
    simpa using hlast

/-- A sanitized name is canonical in form. -/
theorem roomName_of_sanitize {input name : String} (h : sanitizeRoomName input = some name) :
    RoomName name.toList := by
  obtain ⟨hpart, hlen⟩ := NamePart.nil.sanitizeLoop (by decide)
    (Yoink.trimMatches isWhitespace input.toList)
  simp only [sanitizeRoomName] at h
  split at h
  · cases h
  · rename_i hne
    obtain rfl := Option.some.inj h
    rw [String.toList_ofList]
    exact hpart.trimMatches hlen fun hnil => hne (List.isEmpty_iff.mpr hnil)

/-- A name canonical in form is a fixed point. -/
theorem RoomName.canonical {name : String} (h : RoomName name.toList) : Canonical name := by
  have ends (c : Char) (hc : c ∈ name.toList.head? ∨ c ∈ name.toList.getLast?) :
      IsNameChar c := by
    have hmem : c ∈ name.toList := hc.elim List.mem_of_head? List.mem_of_getLast?
    refine (h.chars c hmem).resolve_left ?_
    rintro rfl
    exact hc.elim h.head h.last
  have htrim : trimMatches isWhitespace name.toList = name.toList :=
    trimMatches_eq_self (fun c hc => not_whitespace_of_alphanum (ends c (.inl hc)).1)
      fun c hc => not_whitespace_of_alphanum (ends c (.inr hc)).1
  have hhyphen : trimMatches (· == '-') name.toList = name.toList :=
    trimMatches_eq_self (fun c hc => by simpa using (ends c (.inl hc)).ne_hyphen)
      fun c hc => by simpa using (ends c (.inr hc)).ne_hyphen
  have hloop : sanitizeLoop name.toList [] true = name.toList :=
    sanitizeLoop_eq (show NamePart ([] ++ name.toList) from h.toNamePart) h.length
  simp [Canonical, sanitizeRoomName, htrim, hloop, hhyphen, h.nonempty]

theorem single_iff_no_double {cs : List Char} :
    (cs.IsChain fun a b => a = '-' → b ≠ '-') ↔ ¬ ['-', '-'] <:+: cs := by
  constructor
  · intro h hinfix
    simpa using h.infix hinfix
  · intro h
    refine List.isChain_iff_forall_rel_of_append_cons_cons.mpr ?_
    rintro a b l₁ l₂ rfl rfl rfl
    exact h ⟨l₁, l₂, by simp⟩

/-- The canonical names in other words. -/
theorem roomName_iff {name : String} : RoomName name.toList ↔
    name ≠ "" ∧ name.length ≤ maxRoomNameLen ∧
      (∀ c ∈ name.toList, ('a' ≤ c ∧ c ≤ 'z') ∨ ('0' ≤ c ∧ c ≤ '9') ∨ c = '-') ∧
      name.toList.head? ≠ some '-' ∧ name.toList.getLast? ≠ some '-' ∧
      ¬ ['-', '-'] <:+: name.toList := by
  constructor
  · intro h
    refine ⟨?_, String.length_toList ▸ h.length, fun c hc => ?_, h.head, h.last,
      single_iff_no_double.mp h.single⟩
    · rintro rfl
      exact h.nonempty rfl
    · obtain rfl | hchar := h.chars c hc
      · exact .inr (.inr rfl)
      · exact (isNameChar_iff.mp hchar).imp_right .inl
  · rintro ⟨hne, hlen, hchars, hhead, hlast, hdouble⟩
    have hname (c : Char) (hc : c ∈ name.toList) : c = '-' ∨ IsNameChar c := by
      obtain hlower | hdigit | hhyphen := hchars c hc
      · exact .inr (isNameChar_iff.mpr (.inl hlower))
      · exact .inr (isNameChar_iff.mpr (.inr hdigit))
      · exact .inl hhyphen
    exact ⟨⟨hname, single_iff_no_double.mpr hdouble, hhead⟩,
      fun hnil => hne (String.toList_eq_nil_iff.mp hnil), hlast, String.length_toList ▸ hlen⟩

theorem mem_of_mem_trimMatches {p : Char → Bool} {cs : List Char} {c : Char}
    (h : c ∈ trimMatches p cs) : c ∈ cs := by
  rw [trimMatches, List.mem_reverse] at h
  have h := (List.dropWhile_sublist p).subset h
  exact (List.dropWhile_sublist p).subset (List.mem_reverse.mp h)

/-- Trimming keeps what it does not match. -/
theorem mem_trimMatches {p : Char → Bool} {cs : List Char} {c : Char} (hc : c ∈ cs)
    (hp : p c = false) : c ∈ trimMatches p cs := by
  have keep (l : List Char) (hl : c ∈ l) : c ∈ l.dropWhile p := by
    rw [← List.takeWhile_append_dropWhile (p := p) (l := l), List.mem_append] at hl
    refine hl.resolve_left fun htake => ?_
    rw [List.mem_takeWhile_imp htake] at hp
    cases hp
  rw [trimMatches, List.mem_reverse]
  exact keep _ (List.mem_reverse.mpr (keep cs hc))

theorem sanitizeLoop_ne_nil {name : List Char} (hname : name ≠ []) (flag : Bool)
    (cs : List Char) : sanitizeLoop cs name flag ≠ [] := by
  induction cs generalizing name flag with
  | nil => exact hname
  | cons c cs ih =>
    have hnext : (sanitizeChar name flag c).1 ≠ [] := by
      unfold sanitizeChar
      split
      · simp
      · split
        · simp
        · exact hname
    rw [sanitizeLoop]
    split
    · exact hnext
    · exact ih hnext _

/-- The loop starts the name at the first alphanumeric character. -/
theorem sanitizeLoop_eq_nil (cs : List Char) :
    sanitizeLoop cs [] true = [] ↔ ∀ c ∈ cs, c.isAlphanum = false := by
  induction cs with
  | nil => simp [sanitizeLoop]
  | cons c cs ih =>
    rw [List.forall_mem_cons, ← ih, sanitizeLoop]
    cases hc : c.isAlphanum with
    | true =>
      have hnext : sanitizeChar [] true c = ([c.toLower], false) := by simp [sanitizeChar, hc]
      have hsize := Char.utf8Size_le_four c.toLower
      rw [hnext, if_neg (by simp [byteLen, maxRoomNameLen]; omega)]
      simpa using sanitizeLoop_ne_nil (List.cons_ne_nil _ _) false cs
    | false =>
      have hnext : sanitizeChar [] true c = ([], true) := by simp [sanitizeChar, hc]
      rw [hnext, if_neg (by decide)]
      simp

/-- Nothing usable remains exactly if there is no ASCII alphanumeric character. -/
theorem sanitizeRoomName_eq_none {input : String} :
    sanitizeRoomName input = none ↔ ∀ c ∈ input.toList, c.isAlphanum = false := by
  have htrim : (∀ c ∈ trimMatches isWhitespace input.toList, c.isAlphanum = false) ↔
      ∀ c ∈ input.toList, c.isAlphanum = false := by
    refine ⟨fun h c hc => ?_, fun h c hc => h c (mem_of_mem_trimMatches hc)⟩
    by_contra halnum
    have halnum : c.isAlphanum = true := by simpa using halnum
    rw [h c (mem_trimMatches hc (not_whitespace_of_alphanum halnum))] at halnum
    cases halnum
  rw [← htrim, ← sanitizeLoop_eq_nil]
  obtain ⟨hpart, -⟩ := NamePart.nil.sanitizeLoop (by decide)
    (trimMatches isWhitespace input.toList)
  replace hpart : NamePart (sanitizeLoop (trimMatches isWhitespace input.toList) [] true) := hpart
  simp only [sanitizeRoomName]
  generalize sanitizeLoop (trimMatches isWhitespace input.toList) [] true = name at hpart ⊢
  cases name with
  | nil => simp [trimMatches]
  | cons c cs =>
    -- The first character is no hyphen, so it survives the trimming.
    have hc : (c == '-') = false := by simpa using hpart.head
    have hmem := mem_trimMatches (p := (· == '-')) (List.mem_cons_self (a := c) (l := cs)) hc
    rw [if_neg fun hnil => by simp [List.isEmpty_iff.mp hnil] at hmem]
    simp

theorem canonical_of_sanitize {input name : String} (h : sanitizeRoomName input = some name) :
    Canonical name :=
  (roomName_of_sanitize h).canonical

end Sanitize

end Yoink
