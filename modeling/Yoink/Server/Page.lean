import Yoink.Core.RoomName
import Yoink.Library.Utf16

/-!
# The page's own sanitizer

The page previews the name of a new room with a function of its own, on strings of UTF-16 code
units. It trims other white space than the server, counts the length in other units and
strips the hyphens with a regular expression. None of that shows: what either side trims off would
add one hyphen at most, at an end, and the name itself is ASCII.
-/

namespace Yoink

namespace Page

/-- A string of the page. -/
abbrev JsString := List UInt16

/-- `WhiteSpace` and `LineTerminator` of the language, which `trim` strips. -/
def isWhiteSpace (u : UInt16) : Bool :=
  let n := u.toNat
  (9 ≤ n && n ≤ 13) || n == 32 || n == 0xA0 || n == 0x1680 || (0x2000 ≤ n && n ≤ 0x200A) ||
    n == 0x2028 || n == 0x2029 || n == 0x202F || n == 0x205F || n == 0x3000 || n == 0xFEFF

/-- `String.prototype.trim`. -/
def trim (s : JsString) : JsString := (s.dropWhile isWhiteSpace).rdropWhile isWhiteSpace

/-- `"-"`. -/
def hyphen : UInt16 := 45

/-- `/^[a-zA-Z0-9]$/`. -/
def isAlphanum : JsString → Bool
  | [u] =>
    let n := u.toNat
    (97 ≤ n && n ≤ 122) || (65 ≤ n && n ≤ 90) || (48 ≤ n && n ≤ 57)
  | _ => false

/-- `toLowerCase` of an ASCII string. -/
def toLowerCase (s : JsString) : JsString :=
  s.map fun u => if 65 ≤ u.toNat ∧ u.toNat ≤ 90 then u + 32 else u

/-- The `replace` of the leading and trailing hyphens: `/^-+|-+$/g`. -/
def stripHyphens (s : JsString) : JsString := (s.dropWhile (· == hyphen)).rdropWhile (· == hyphen)

/-- One code point of the loop. -/
def sanitizeChar (out : JsString) (lastHyphen : Bool) (c : JsString) : JsString × Bool :=
  if isAlphanum c then (out ++ toLowerCase c, false)
  else if !lastHyphen then (out ++ [hyphen], true)
  else (out, lastHyphen)

def sanitizeLoop : List JsString → JsString → Bool → JsString
  | [], out, _ => out
  | c :: cs, out, lastHyphen =>
    let next := sanitizeChar out lastHyphen c
    if 48 ≤ next.1.length then next.1 else sanitizeLoop cs next.1 next.2

/-- Mirror of the server's `sanitizeRoomName`, for the preview of a new room. -/
def sanitizeRoom (input : JsString) : Option JsString :=
  let out := stripHyphens (sanitizeLoop (Utf16.codePoints (trim input)) [] true)
  if out.isEmpty then none else some out

end Page

open Utf16

section Trim

variable {p : Char → Bool}

/-- The loop passes over leading characters that are not alphanumeric. -/
theorem sanitizeLoop_dropWhile (hp : ∀ c, p c = true → c.isAlphanum = false) (cs : List Char) :
    sanitizeLoop (cs.dropWhile p) [] true = sanitizeLoop cs [] true := by
  induction cs with
  | nil => rfl
  | cons c cs ih =>
    cases h : p c with
    | false => simp [h]
    | true =>
      have hnext : sanitizeChar [] true c = ([], true) := by simp [sanitizeChar, hp c h]
      rw [List.dropWhile_cons_of_pos h, ih, sanitizeLoop, hnext, if_neg (by decide)]

/-- While the flag is up, characters that are not alphanumeric add nothing. -/
theorem sanitizeLoop_up {ws : List Char} (hws : ∀ c ∈ ws, c.isAlphanum = false)
    (name : List Char) : sanitizeLoop ws name true = name := by
  induction ws with
  | nil => rfl
  | cons c ws ih =>
    have hnext : sanitizeChar name true c = (name, true) := by
      simp [sanitizeChar, hws c List.mem_cons_self]
    rw [sanitizeLoop, hnext, ih fun d hd => hws d (List.mem_cons_of_mem _ hd), ite_self]

/-- Otherwise they add one hyphen. -/
theorem sanitizeLoop_plain {ws : List Char} (hws : ∀ c ∈ ws, c.isAlphanum = false)
    (name : List Char) (lastHyphen : Bool) :
    sanitizeLoop ws name lastHyphen = name ∨
      sanitizeLoop ws name lastHyphen = name ++ ['-'] := by
  cases lastHyphen with
  | true => exact .inl (sanitizeLoop_up hws name)
  | false =>
    cases ws with
    | nil => exact .inl rfl
    | cons c ws =>
      have hnext : sanitizeChar name false c = (name ++ ['-'], true) := by
        simp [sanitizeChar, hws c List.mem_cons_self]
      rw [sanitizeLoop, hnext, sanitizeLoop_up (fun d hd => hws d (List.mem_cons_of_mem _ hd)),
        ite_self]
      exact .inr rfl

/-- The same at the end of an input. -/
theorem sanitizeLoop_append {ws : List Char} (hws : ∀ c ∈ ws, c.isAlphanum = false)
    (cs name : List Char) (lastHyphen : Bool) :
    sanitizeLoop (cs ++ ws) name lastHyphen = sanitizeLoop cs name lastHyphen ∨
      sanitizeLoop (cs ++ ws) name lastHyphen = sanitizeLoop cs name lastHyphen ++ ['-'] := by
  induction cs generalizing name lastHyphen with
  | nil => exact sanitizeLoop_plain hws name lastHyphen
  | cons c cs ih =>
    rw [List.cons_append, sanitizeLoop, sanitizeLoop]
    split
    · exact .inl rfl
    · exact ih _ _

theorem trimMatches_concat {cs : List Char} {c : Char} (hc : p c = true) :
    trimMatches p (cs ++ [c]) = trimMatches p cs := by
  change ((cs ++ [c]).dropWhile p).rdropWhile p = (cs.dropWhile p).rdropWhile p
  rw [List.dropWhile_append]
  split
  · rename_i hnil
    simp [List.isEmpty_iff.mp hnil, hc]
  · exact List.rdropWhile_concat_pos _ _ _ hc

/-- What is trimmed off before the loop never shows in the name. -/
theorem trimMatches_sanitizeLoop (hp : ∀ c, p c = true → c.isAlphanum = false)
    (cs : List Char) :
    trimMatches (· == '-') (sanitizeLoop (trimMatches p cs) [] true) =
      trimMatches (· == '-') (sanitizeLoop cs [] true) := by
  have htail : ∀ c ∈ (cs.dropWhile p).rtakeWhile p, c.isAlphanum = false :=
    fun c hc => hp c (List.mem_rtakeWhile_imp hc)
  have hloop := sanitizeLoop_append htail (trimMatches p cs) [] true
  rw [show trimMatches p cs = (cs.dropWhile p).rdropWhile p from rfl,
    List.rdropWhile_append_rtakeWhile, sanitizeLoop_dropWhile hp] at hloop
  obtain hloop | hloop := hloop
  · rw [hloop]
    rfl
  · rw [hloop, trimMatches_concat rfl]
    rfl

end Trim

section Encode

/-- The name is ASCII, so it has as many code units as bytes. -/
theorem NamePart.encode_length {name : List Char} (h : NamePart name) :
    (encode name).length = Yoink.byteLen name := by
  have hone : ∀ c ∈ name, (ofChar c).length = 1 := fun c hc => by
    obtain rfl | hc := h.chars c hc
    · rfl
    · exact alphanum_cases (p := fun c => (ofChar c).length = 1) c hc.1 (by decide)
  rw [h.byteLen, encode, List.length_flatMap, List.map_congr_left hone]
  simp

theorem isAlphanum_ofChar (c : Char) : Page.isAlphanum (ofChar c) = c.isAlphanum := by
  rw [Bool.eq_iff_iff, isAlphanum_iff]
  obtain ⟨u, hu, heq, -⟩ | ⟨u, v, huv, hlarge, -⟩ := ofChar_cases c
  · simp only [hu, Page.isAlphanum, heq, Bool.or_eq_true, Bool.and_eq_true, decide_eq_true_eq]
    omega
  · rw [huv]
    refine ⟨nofun, fun h => ?_⟩
    omega

theorem toLowerCase_ofChar {c : Char} (hc : c.isAlphanum = true) :
    Page.toLowerCase (ofChar c) = ofChar c.toLower :=
  alphanum_cases (p := fun c => Page.toLowerCase (ofChar c) = ofChar c.toLower) c hc (by decide)

theorem sanitizeChar_encode (name : List Char) (lastHyphen : Bool) (c : Char) :
    Page.sanitizeChar (encode name) lastHyphen (ofChar c) =
      (encode (sanitizeChar name lastHyphen c).1, (sanitizeChar name lastHyphen c).2) := by
  unfold Page.sanitizeChar sanitizeChar
  rw [isAlphanum_ofChar]
  split
  · rename_i hc
    simp [toLowerCase_ofChar hc]
  · split
    · rw [encode_append]
      rfl
    · rfl

/-- The two loops do the same. -/
theorem NamePart.sanitizeLoop_encode {name : List Char} (h : NamePart name) (cs : List Char) :
    Page.sanitizeLoop (cs.map ofChar) (encode name) (endsHyphen name) =
      encode (Yoink.sanitizeLoop cs name (endsHyphen name)) := by
  induction cs generalizing name with
  | nil => rfl
  | cons c cs ih =>
    obtain ⟨hpart, hflag, -⟩ := h.sanitizeChar c
    rw [List.map_cons, Page.sanitizeLoop, Yoink.sanitizeLoop, sanitizeChar_encode]
    simp only [hflag, hpart.encode_length]
    by_cases hlim : maxRoomNameLen ≤ Yoink.byteLen (Yoink.sanitizeChar name (endsHyphen name) c).1
    · rw [if_pos hlim]
      exact if_pos hlim
    · rw [if_neg hlim, ← ih hpart]
      exact if_neg hlim

/-- A test that no surrogate passes trims a string of the page as it trims its characters. -/
theorem trim_encode {p : UInt16 → Bool}
    (hp : ∀ u, (isLead u || isTrail u) = true → p u = false) (cs : List Char) :
    ((encode cs).dropWhile p).rdropWhile p = encode (trimMatches (onChar p) cs) := by
  rw [dropWhile_encode hp, rdropWhile_encode hp]
  rfl

theorem isWhiteSpace_surrogate {u : UInt16} (hu : (isLead u || isTrail u) = true) :
    Page.isWhiteSpace u = false := by
  simp only [isLead, isTrail, Bool.or_eq_true, Bool.and_eq_true, decide_eq_true_eq] at hu
  simp only [Page.isWhiteSpace, Bool.or_eq_false_iff, Bool.and_eq_false_iff,
    decide_eq_false_iff_not, beq_eq_false_iff_ne]
  omega

theorem hyphen_surrogate {u : UInt16} (hu : (isLead u || isTrail u) = true) :
    (u == Page.hyphen) = false := by
  rw [beq_eq_false_iff_ne]
  rintro rfl
  exact absurd hu (by decide)

/-- What either language calls white space is not alphanumeric. -/
theorem alphanum_of_isWhitespace {c : Char} (h : isWhitespace c = true) :
    c.isAlphanum = false := by
  by_contra hc
  rw [not_whitespace_of_alphanum (Bool.eq_true_of_not_eq_false hc)] at h
  cases h

theorem alphanum_of_onChar_isWhiteSpace {c : Char} (h : onChar Page.isWhiteSpace c = true) :
    c.isAlphanum = false := by
  by_contra hc
  rw [alphanum_cases (p := fun c => onChar Page.isWhiteSpace c = false) c
    (Bool.eq_true_of_not_eq_false hc) (by decide)] at h
  cases h

theorem onChar_hyphen (c : Char) : onChar (· == Page.hyphen) c = (c == '-') := by
  unfold onChar
  obtain ⟨u, hu, heq, -⟩ | ⟨u, v, huv, hlarge, -⟩ := ofChar_cases c
  · rw [hu, Bool.eq_iff_iff]
    simp only [beq_iff_eq, ← UInt16.toNat_inj, heq, ← Char.toNat_inj]
    rfl
  · rw [huv]
    symm
    simp only [beq_eq_false_iff_ne]
    rintro rfl
    exact absurd hlarge (by decide)

end Encode

/-- The preview shows the name that the server will give the room. -/
theorem preview_agrees (input : String) :
    Page.sanitizeRoom (encode input.toList) =
      (sanitizeRoomName input).map fun name => encode name.toList := by
  have hloop (cs : List Char) : Page.sanitizeLoop (cs.map ofChar) [] true =
      encode (sanitizeLoop cs [] true) := NamePart.nil.sanitizeLoop_encode cs
  have htrim : Page.trim (encode input.toList) =
      encode (trimMatches (onChar Page.isWhiteSpace) input.toList) :=
    trim_encode (fun _ => isWhiteSpace_surrogate) _
  have hstrip (name : List Char) :
      Page.stripHyphens (encode name) = encode (trimMatches (· == '-') name) := by
    rw [Page.stripHyphens, trim_encode (fun _ => hyphen_surrogate), funext onChar_hyphen]
  have hname : Page.stripHyphens (Page.sanitizeLoop (codePoints (Page.trim
      (encode input.toList))) [] true) = encode (trimMatches (· == '-')
        (sanitizeLoop (trimMatches isWhitespace input.toList) [] true)) := by
    rw [htrim, codePoints_encode, hloop, hstrip,
      trimMatches_sanitizeLoop fun _ => alphanum_of_onChar_isWhiteSpace,
      trimMatches_sanitizeLoop fun _ => alphanum_of_isWhitespace]
  simp only [Page.sanitizeRoom, sanitizeRoomName, hname, encode_isEmpty]
  split
  · rfl
  · simp

/-- The page trims a byte order mark, which the server does not; neither shows it. -/
example : Page.sanitizeRoom (encode (Char.ofNat 0xFEFF :: "My Room!".toList)) =
    some (encode "my-room".toList) := by decide

end Yoink
