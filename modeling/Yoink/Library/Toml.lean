import Mathlib.Data.List.Basic

/-!
# TOML documents of strings and arrays of strings

A document is a list of entries; `print` lays it out as a pretty printer does, an array of two or
more items with one item a line, and `parse` reads it back. Strings hold printable ASCII without
quotes and backslashes, which stand in a TOML string as they are; everything else would need an
escape and is not covered (`Plain`).
-/

namespace Toml

inductive Value where
  | str (s : String)
  | array (items : List String)
  deriving DecidableEq, Repr

/-- A character that stands in a string as it is. -/
def isPlain (c : Char) : Bool :=
  32 ≤ c.toNat && c.toNat < 127 && c != '"' && c != '\\'

/-- A character of a bare key. -/
def isBare (c : Char) : Bool := c.isAlphanum || c == '_' || c == '-'

def Value.plain : Value → Bool
  | .str s => s.toList.all isPlain
  | .array items => items.all fun s => s.toList.all isPlain

/-- What `print` can show without an escape. -/
def plain (doc : List (String × Value)) : Bool :=
  doc.all fun entry => (entry.1 != "" && entry.1.toList.all isBare) && entry.2.plain

section Print

def printString (s : String) : List Char := '"' :: s.toList ++ ['"']

/-- An item on its own line. -/
def printItem (s : String) : List Char := ' ' :: ' ' :: ' ' :: ' ' :: printString s ++ [',', '\n']

def Value.print : Value → List Char
  | .str s => printString s
  | .array [] => ['[', ']']
  | .array [s] => '[' :: printString s ++ [']']
  | .array items => '[' :: '\n' :: items.flatMap printItem ++ [']']

def print (doc : List (String × Value)) : List Char :=
  doc.flatMap fun entry => entry.1.toList ++ [' ', '=', ' '] ++ entry.2.print ++ ['\n']

end Print

inductive Token where
  | key (k : String)
  | text (s : String)
  | equals
  | opening
  | closing
  | comma
  deriving DecidableEq, Repr

/-- What the lexer is in the middle of. -/
inductive Mode where
  | between
  | key (read : List Char)
  | text (read : List Char)

/-- The character that ends a key, or stands between two tokens. -/
def separator (c : Char) : Option (List Token × Mode) :=
  match c with
  | ' ' | '\n' => some ([], .between)
  | '=' => some ([.equals], .between)
  | '[' => some ([.opening], .between)
  | ']' => some ([.closing], .between)
  | ',' => some ([.comma], .between)
  | '"' => some ([], .text [])
  | c => if isBare c then some ([], .key [c]) else none

def lex : Mode → List Char → Option (List Token)
  | .between, [] => some []
  | .key read, [] => some [.key (String.ofList read)]
  | .text _, [] => none
  | .between, c :: cs =>
    (separator c).bind fun (tokens, mode) => (lex mode cs).map (tokens ++ ·)
  | .key read, c :: cs =>
    if isBare c then lex (.key (read ++ [c])) cs
    else (separator c).bind fun (tokens, mode) =>
      (lex mode cs).map (.key (String.ofList read) :: tokens ++ ·)
  | .text read, c :: cs =>
    if c = '"' then (lex .between cs).map (.text (String.ofList read) :: ·)
    else if isPlain c then lex (.text (read ++ [c])) cs
    else none

/-- The entries of a document; the first argument is the array that is still open. -/
def entries : Option (String × List String) → List Token → Option (List (String × Value))
  | none, [] => some []
  | none, .key k :: .equals :: .text s :: rest => (entries none rest).map ((k, .str s) :: ·)
  | none, .key k :: .equals :: .opening :: rest => entries (some (k, [])) rest
  | some (k, items), .text s :: .comma :: rest => entries (some (k, items ++ [s])) rest
  | some (k, items), .text s :: .closing :: rest =>
    (entries none rest).map ((k, .array (items ++ [s])) :: ·)
  | some (k, items), .closing :: rest => (entries none rest).map ((k, .array items) :: ·)
  | _, _ => none

def parse (cs : List Char) : Option (List (String × Value)) :=
  (lex .between cs).bind (entries none)

section RoundTrip

variable {s k : String} {read cs rest : List Char} {doc : List (String × Value)}

def Value.tokens : Value → List Token
  | .str s => [.text s]
  | .array [] => [.opening, .closing]
  | .array [s] => [.opening, .text s, .closing]
  | .array items => .opening :: items.flatMap (fun s => [.text s, .comma]) ++ [.closing]

def entryTokens (entry : String × Value) : List Token :=
  .key entry.1 :: .equals :: entry.2.tokens

@[simp] theorem lex_space : lex .between (' ' :: cs) = lex .between cs := by
  simp [lex, separator]

@[simp] theorem lex_newline : lex .between ('\n' :: cs) = lex .between cs := by
  simp [lex, separator]

@[simp] theorem lex_equals : lex .between ('=' :: cs) =
    (lex .between cs).map (.equals :: ·) := rfl

@[simp] theorem lex_opening : lex .between ('[' :: cs) =
    (lex .between cs).map (.opening :: ·) := rfl

@[simp] theorem lex_closing : lex .between (']' :: cs) =
    (lex .between cs).map (.closing :: ·) := rfl

@[simp] theorem lex_comma : lex .between (',' :: cs) =
    (lex .between cs).map (.comma :: ·) := rfl

theorem lex_text (h : cs.all isPlain) : lex (.text read) (cs ++ '"' :: rest) =
    (lex .between rest).map (.text (String.ofList (read ++ cs)) :: ·) := by
  induction cs generalizing read with
  | nil => simp [lex]
  | cons c cs ih =>
    obtain ⟨hc, hcs⟩ := Bool.and_eq_true_iff.mp h
    have hquote : c ≠ '"' := by
      rintro rfl
      cases hc
    rw [List.cons_append, lex, if_neg hquote, if_pos hc, ih hcs, List.append_assoc,
      List.singleton_append]

theorem lex_string (h : s.toList.all isPlain) : lex .between (printString s ++ rest) =
    (lex .between rest).map (.text s :: ·) := by
  have htext : lex (.text []) (s.toList ++ '"' :: rest) =
      (lex .between rest).map (.text (String.ofList ([] ++ s.toList)) :: ·) := lex_text h
  simpa [printString, lex, separator] using htext

theorem lex_key (h : cs.all isBare) : lex (.key read) (cs ++ ' ' :: rest) =
    (lex .between rest).map (.key (String.ofList (read ++ cs)) :: ·) := by
  induction cs generalizing read with
  | nil => simp [lex, separator, isBare]
  | cons c cs ih =>
    obtain ⟨hc, hcs⟩ := Bool.and_eq_true_iff.mp h
    rw [List.cons_append, lex, if_pos hc, ih hcs, List.append_assoc, List.singleton_append]

/-- No character of a key separates anything. -/
theorem separator_bare {c : Char} (h : isBare c) : separator c = some ([], .key [c]) := by
  unfold separator
  split <;> first | rfl | (exfalso; revert h; decide) | exact if_pos h

theorem lex_entry_key (hne : k ≠ "") (h : k.toList.all isBare) :
    lex .between (k.toList ++ ' ' :: '=' :: ' ' :: cs) =
      (lex .between cs).map ([.key k, .equals] ++ ·) := by
  obtain ⟨c, rest, hk⟩ := List.exists_cons_of_ne_nil fun hnil =>
    hne (String.toList_eq_nil_iff.mp hnil)
  rw [hk] at h
  obtain ⟨hc, hrest⟩ := Bool.and_eq_true_iff.mp h
  have hkey : String.ofList ([c] ++ rest) = k := by
    rw [List.singleton_append, ← hk, String.ofList_toList]
  calc lex .between (k.toList ++ ' ' :: '=' :: ' ' :: cs)
      = lex (.key [c]) (rest ++ ' ' :: '=' :: ' ' :: cs) := by
        simp [hk, lex, separator_bare hc]
    _ = (lex .between ('=' :: ' ' :: cs)).map (.key k :: ·) := by rw [lex_key hrest, hkey]
    _ = (lex .between cs).map ([.key k, .equals] ++ ·) := by simp [Function.comp_def]

theorem lex_items {items : List String} (h : ∀ s ∈ items, s.toList.all isPlain) :
    lex .between (items.flatMap printItem ++ cs) =
      (lex .between cs).map (items.flatMap (fun s => [.text s, .comma]) ++ ·) := by
  induction items with
  | nil => simp
  | cons s items ih =>
    have hs := h s List.mem_cons_self
    have hrest := ih fun s' hs' => h s' (List.mem_cons_of_mem s hs')
    simp [printItem, lex_string hs, hrest, Function.comp_def]

theorem lex_value {v : Value} (h : v.plain) : lex .between (v.print ++ cs) =
    (lex .between cs).map (v.tokens ++ ·) := by
  match v, h with
  | .str s, h => exact lex_string h
  | .array [], _ => simp [Value.print, Value.tokens, Function.comp_def]
  | .array [s], h =>
    have hs : s.toList.all isPlain := by simpa [Value.plain] using h
    simp [Value.print, Value.tokens, lex_string hs, Function.comp_def]
  | .array (s :: s' :: items), h =>
    simp only [Value.print, Value.tokens, List.append_assoc, List.cons_append, List.nil_append,
      lex_opening, lex_newline, lex_items (List.all_eq_true.mp h)]
    simp [Function.comp_def]

/-- The tokens of a printed document. -/
theorem lex_print (h : plain doc) :
    lex .between (print doc) = some (doc.flatMap entryTokens) := by
  induction doc with
  | nil => rfl
  | cons entry doc ih =>
    obtain ⟨hentry, hdoc⟩ := Bool.and_eq_true_iff.mp h
    obtain ⟨hk, hv⟩ := Bool.and_eq_true_iff.mp hentry
    obtain ⟨hne, hbare⟩ := Bool.and_eq_true_iff.mp hk
    have hrest := ih hdoc
    simp only [print, List.flatMap_cons, List.append_assoc, List.cons_append,
      List.nil_append] at hrest ⊢
    rw [lex_entry_key (bne_iff_ne.mp hne) hbare, lex_value hv, lex_newline, hrest]
    rfl

theorem entries_items {items read : List String} {tokens : List Token} :
    entries (some (k, read)) (items.flatMap (fun s => [.text s, .comma]) ++ .closing :: tokens) =
      (entries none tokens).map ((k, .array (read ++ items)) :: ·) := by
  induction items generalizing read with
  | nil => simp [entries]
  | cons s items ih => simp [entries, ih]

theorem entries_entry {entry : String × Value} {tokens : List Token} :
    entries none (entryTokens entry ++ tokens) = (entries none tokens).map (entry :: ·) := by
  obtain ⟨k, v⟩ := entry
  match v with
  | .str s => rfl
  | .array [] => rfl
  | .array [s] => rfl
  | .array (s :: s' :: items) =>
    have hitems : entries (some (k, []))
        ((s :: s' :: items).flatMap (fun s => [.text s, .comma]) ++ .closing :: tokens) =
          (entries none tokens).map ((k, .array ([] ++ s :: s' :: items)) :: ·) := entries_items
    simpa [entryTokens, Value.tokens, entries] using hitems

/-- What is printed is read back. -/
theorem parse_print (h : plain doc) : parse (print doc) = some doc := by
  rw [parse, lex_print h, Option.bind_some]
  induction doc with
  | nil => rfl
  | cons entry doc ih =>
    rw [List.flatMap_cons, entries_entry, ih (Bool.and_eq_true_iff.mp h).2, Option.map_some]

end RoundTrip

section Bytes

/-- The bytes of a document, whose characters are all ASCII. -/
def toBytes (cs : List Char) : List UInt8 := cs.map fun c => UInt8.ofNat c.toNat

def ofBytes (raw : List UInt8) : List Char := raw.map fun b => Char.ofNat b.toNat

def isAscii (c : Char) : Bool := c.toNat < 128

theorem ofBytes_toBytes {cs : List Char} (h : cs.all isAscii) : ofBytes (toBytes cs) = cs := by
  rw [ofBytes, toBytes, List.map_map]
  refine (List.map_congr_left fun c hc => ?_).trans cs.map_id
  have hlt : c.toNat < 128 := of_decide_eq_true (List.all_eq_true.mp h c hc)
  have hmod : c.toNat % 256 = c.toNat := Nat.mod_eq_of_lt (by omega)
  simp [hmod]

theorem isAscii_of_isPlain {c : Char} (h : isPlain c) : isAscii c := by
  simp only [isPlain, Bool.and_eq_true, decide_eq_true_eq] at h
  exact decide_eq_true (by omega)

theorem isAscii_of_isBare {c : Char} (h : isBare c) : isAscii c := by
  have hranges : c.isAlphanum =
      ((decide (65 ≤ c.val ∧ c.val ≤ 90) || decide (97 ≤ c.val) && decide (c.val ≤ 122)) ||
          decide (48 ≤ c.val) && decide (c.val ≤ 57)) := rfl
  simp only [isBare, hranges, Bool.or_eq_true, Bool.and_eq_true, decide_eq_true_eq, beq_iff_eq] at h
  rcases h with ((((⟨-, h⟩ | ⟨-, h⟩) | ⟨-, h⟩) | rfl) | rfl)
  · exact decide_eq_true (Nat.lt_of_le_of_lt (UInt32.le_iff_toNat_le.mp h) (by decide))
  · exact decide_eq_true (Nat.lt_of_le_of_lt (UInt32.le_iff_toNat_le.mp h) (by decide))
  · exact decide_eq_true (Nat.lt_of_le_of_lt (UInt32.le_iff_toNat_le.mp h) (by decide))
  · rfl
  · rfl

/-- What a document has besides its keys and strings. -/
theorem isAscii_punctuation : ∀ c ∈ ['[', ']', ' ', ',', '=', '"', '\n'], isAscii c :=
  List.all_eq_true.mp rfl

theorem all_ascii {p : Char → Bool} (hp : ∀ c, p c → isAscii c) {cs : List Char} (h : cs.all p) :
    cs.all isAscii :=
  List.all_eq_true.mpr fun c hc => hp c (List.all_eq_true.mp h c hc)

theorem printString_ascii {s : String} (h : s.toList.all isPlain) :
    (printString s).all isAscii := by
  simp only [printString, List.cons_append, List.all_cons, List.all_append, List.all_nil,
    all_ascii (fun _ => isAscii_of_isPlain) h, isAscii_punctuation '"' (by decide), Bool.and_self]

theorem printItem_ascii {s : String} (h : s.toList.all isPlain) : (printItem s).all isAscii := by
  simp [printItem, printString_ascii h, isAscii_punctuation]

theorem Value.print_ascii {v : Value} (h : v.plain) : v.print.all isAscii := by
  match v, h with
  | .str s, h => exact printString_ascii h
  | .array [], h => simp [Value.print, isAscii_punctuation]
  | .array [s], h =>
    have hs := printString_ascii (List.all_eq_true.mp h s List.mem_cons_self)
    simp [Value.print, hs, isAscii_punctuation]
  | .array (s :: s' :: items), h =>
    have hitems : ((s :: s' :: items).flatMap printItem).all isAscii := by
      rw [List.all_flatMap]
      exact List.all_eq_true.mpr fun s hs => printItem_ascii (List.all_eq_true.mp h s hs)
    simpa [Value.print, isAscii_punctuation] using hitems

theorem print_ascii {doc : List (String × Value)} (h : plain doc) : (print doc).all isAscii := by
  rw [print, List.all_flatMap]
  refine List.all_eq_true.mpr fun entry hentry => ?_
  obtain ⟨hk, hv⟩ := Bool.and_eq_true_iff.mp (List.all_eq_true.mp h entry hentry)
  have hkey := all_ascii (fun _ => isAscii_of_isBare) (Bool.and_eq_true_iff.mp hk).2
  simp [hkey, Value.print_ascii hv, isAscii_punctuation]

/-- The bytes of a printed document are read back. -/
theorem parse_toBytes {doc : List (String × Value)} (h : plain doc) :
    parse (ofBytes (toBytes (print doc))) = some doc := by
  rw [ofBytes_toBytes (print_ascii h), parse_print h]

end Bytes

end Toml
