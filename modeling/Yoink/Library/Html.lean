import Mathlib.Data.List.Basic

/-!
# Reading HTML

A reader of a fragment of HTML, with the states of the tokenizer that the language is specified
by: text, tags with quoted attributes, and a few character references. It gives up on anything
else, so what it reads is read the same way by every browser.

A template is markup with holes in text and in quoted values. `reads_text` says that a template
is read once for all its fillings: encoded values never end the place they are written to, and
come out as they went in, up to what any text suffers on its way through a reader.
-/

namespace Html

section Reader

/-- Text and values are made of `χ`. -/
inductive Token (χ : Type) where
  | start (name : List Char) (attributes : List (List Char × List χ))
  | stop (name : List Char)
  | char (c : χ)
  deriving DecidableEq

/-- A start tag, as far as it is read. -/
structure Tag (χ : Type) where
  name : List Char
  attributes : List (List Char × List χ)

/-- Where characters stand for themselves. -/
inductive Place (χ : Type) where
  | text
  | value (tag : Tag χ) (name : List Char) (value : List χ)

inductive State (χ : Type) where
  | within (place : Place χ)
  | characterReference (place : Place χ) (name : List Char)
  | tagOpen
  | endTagOpen
  | endTagName (name : List Char)
  | tagName (name : List Char)
  | beforeAttributeName (tag : Tag χ)
  | attributeName (tag : Tag χ) (name : List Char)
  | afterAttributeName (tag : Tag χ) (name : List Char)
  | beforeAttributeValue (tag : Tag χ) (name : List Char)
  | afterAttributeValue (tag : Tag χ)

variable {χ : Type}

def isSpace (c : Char) : Bool := c == ' ' || c == '\n' || c == '\t' || c == '\x0c'

def isNameChar (c : Char) : Bool := c.isAlphanum || c == '-'

/-- Elements whose content is read by rules of its own. -/
def rawElements : List String :=
  ["script", "style", "textarea", "title", "xmp", "iframe", "noembed", "noframes", "noscript",
    "plaintext"]

def Tag.add (tag : Tag χ) (name : List Char) (value : List χ) : Tag χ :=
  { tag with attributes := tag.attributes ++ [(name, value)] }

/-- The tag is complete. -/
def Tag.emit (tag : Tag χ) : Option (State χ × List (Token χ)) :=
  if String.ofList tag.name ∈ rawElements ∨ ¬ (tag.attributes.map Prod.fst).Nodup then none
  else some (.within .text, [.start tag.name tag.attributes])

def namedReferences : List (String × Char) :=
  [("amp", '&'), ("lt", '<'), ("gt", '>'), ("quot", '"'), ("middot", '·'), ("mdash", '—'),
    ("ldquo", '“'), ("rdquo", '”')]

/-- Only code points that stand for themselves. -/
def numericReference (digits : List Char) : Option Char :=
  let n := digits.foldl (fun n d => 10 * n + (d.toNat - '0'.toNat)) 0
  if digits.all Char.isDigit ∧ (0x20 ≤ n ∧ n < 0x7f ∨ 0xa0 ≤ n ∧ n < 0xd800) then
    some (.ofNat n)
  else none

def reference : List Char → Option Char
  | '#' :: digits => numericReference digits
  | name => (namedReferences.find? fun r => r.1 = String.ofList name).map Prod.snd

namespace Place

/-- The character that ends the place, and what follows it. -/
def delimiter : Place χ → Char
  | text => '<'
  | value _ _ _ => '"'

def leave : Place χ → State χ
  | text => .tagOpen
  | value tag name v => .afterAttributeValue (tag.add name v)

/-- What becomes of a character. A NUL in text is dropped when the tree is built. -/
def keep : Place χ → Char → List Char
  | text, c => if c = '\x00' then [] else [c]
  | value _ _ _, c => [if c = '\x00' then '\uFFFD' else c]

def add : Place χ → List χ → Place χ × List (Token χ)
  | text, cs => (text, cs.map .char)
  | value tag name v, cs => (value tag name (v ++ cs), [])

def put (lift : Char → χ) (place : Place χ) (c : Char) : State χ × List (Token χ) :=
  let (place, tokens) := place.add ((place.keep c).map lift)
  (.within place, tokens)

end Place

/-- One character, and the tokens it completes. -/
def step (lift : Char → χ) : State χ → Char → Option (State χ × List (Token χ))
  | .within place, c =>
    if c = '&' then some (.characterReference place [], [])
    else if c = place.delimiter then some (place.leave, [])
    else some (place.put lift c)
  | .characterReference place name, c =>
    if c = ';' then (reference name).map (place.put lift)
    else if c.isAlphanum || c == '#' then some (.characterReference place (name ++ [c]), [])
    else none
  | .tagOpen, c =>
    if c.isAlpha then some (.tagName [c.toLower], [])
    else if c = '/' then some (.endTagOpen, [])
    else none
  | .endTagOpen, c => if c.isAlpha then some (.endTagName [c.toLower], []) else none
  | .endTagName name, c =>
    if c = '>' then some (.within .text, [.stop name])
    else if isNameChar c then some (.endTagName (name ++ [c.toLower]), [])
    else none
  | .tagName name, c =>
    if c = '>' then (Tag.mk name []).emit
    else if isSpace c then some (.beforeAttributeName ⟨name, []⟩, [])
    else if isNameChar c then some (.tagName (name ++ [c.toLower]), [])
    else none
  | .beforeAttributeName tag, c =>
    if c = '>' then tag.emit
    else if isSpace c then some (.beforeAttributeName tag, [])
    else if isNameChar c then some (.attributeName tag [c.toLower], [])
    else none
  | .attributeName tag name, c =>
    if c = '>' then (tag.add name []).emit
    else if c = '=' then some (.beforeAttributeValue tag name, [])
    else if isSpace c then some (.afterAttributeName tag name, [])
    else if isNameChar c then some (.attributeName tag (name ++ [c.toLower]), [])
    else none
  | .afterAttributeName tag name, c =>
    if c = '>' then (tag.add name []).emit
    else if c = '=' then some (.beforeAttributeValue tag name, [])
    else if isSpace c then some (.afterAttributeName tag name, [])
    else if isNameChar c then some (.attributeName (tag.add name []) [c.toLower], [])
    else none
  | .beforeAttributeValue tag name, c =>
    if isSpace c then some (.beforeAttributeValue tag name, [])
    else if c = '"' then some (.within (.value tag name []), [])
    else none
  | .afterAttributeValue tag, c =>
    if c = '>' then tag.emit
    else if isSpace c then some (.beforeAttributeName tag, [])
    else none

structure Reader where
  state : State Char
  /-- The last character was a carriage return. -/
  cr : Bool

/-- A carriage return, and one with a line feed after it, count as one line feed. -/
def Reader.feed (r : Reader) (c : Char) : Option (Reader × List (Token Char)) :=
  if c = '\n' ∧ r.cr then some (⟨r.state, false⟩, [])
  else (step id r.state (if c = '\r' then '\n' else c)).map fun x => (⟨x.1, c = '\r'⟩, x.2)

def Reader.run : Reader → List Char → Option (Reader × List (Token Char))
  | r, [] => some (r, [])
  | r, c :: cs => do
    let (r, ts) ← r.feed c
    let (r, us) ← r.run cs
    return (r, ts ++ us)

/-- In text, at the start of a line or not. -/
def Reader.ready : Reader := ⟨.within .text, false⟩

/-- The tokens of a document that ends in text. -/
def read (cs : List Char) : Option (List (Token Char)) :=
  match Reader.ready.run cs with
  | some (⟨.within .text, _⟩, tokens) => some tokens
  | _ => none

/-- A piece of a document, between places in text. -/
def Reads (cs : List Char) (tokens : List (Token Char)) : Prop :=
  Reader.ready.run cs = some (.ready, tokens)

/-- The value of an attribute. -/
def getAttribute (name : String) (attributes : List (List Char × List χ)) : Option (List χ) :=
  (attributes.find? fun a => a.1 = name.toList).map Prod.snd

/-- Elements that have no end tag. -/
def voidElements : List String :=
  ["area", "base", "br", "col", "embed", "hr", "img", "input", "link", "meta", "source", "track",
    "wbr"]

/-- The open elements after a token, the innermost first. An end tag must close that one. -/
def nest (opened : List (List Char)) : Token χ → Option (List (List Char))
  | .start name _ => some (if String.ofList name ∈ voidElements then opened else name :: opened)
  | .stop name =>
    match opened with
    | [] => none
    | top :: opened => if top = name then some opened else none
  | .char _ => some opened

/-- What the elements of a name contain up to the next tag: what is being read of one, and those
that are complete. -/
def contents (name : String) : Option (List χ) → List (Token χ) → Option (List χ) × List (List χ)
  | content, [] => (content, [])
  | content, .char c :: ts => contents name (content.map (· ++ [c])) ts
  | content, .stop _ :: ts =>
    let (next, rest) := contents name none ts
    (next, content.toList ++ rest)
  | content, .start tag _ :: ts =>
    let (next, rest) := contents name (if String.ofList tag = name then some [] else none) ts
    (next, content.toList ++ rest)

theorem Reader.run_append {r r₁ r₂ : Reader} {cs ds : List Char} {ts us : List (Token Char)}
    (h : r.run cs = some (r₁, ts)) (h' : r₁.run ds = some (r₂, us)) :
    r.run (cs ++ ds) = some (r₂, ts ++ us) := by
  induction cs generalizing r ts with
  | nil =>
    cases h
    exact h'
  | cons c cs ih =>
    simp only [run, Option.bind_eq_bind, Option.bind_eq_some_iff, Prod.exists] at h
    obtain ⟨r', ts', hc, r'', ts'', hcs, heq⟩ := h
    cases heq
    simp [run, hc, ih hcs]

theorem nest_append {opened opened' outer : List (List Char)} {token : Token χ}
    (h : nest opened token = some opened') :
    nest (opened ++ outer) token = some (opened' ++ outer) := by
  cases token with
  | start name attributes =>
    cases h
    simp only [nest]
    split <;> rfl
  | stop name =>
    cases opened with
    | nil => cases h
    | cons top opened =>
      simp only [nest, List.cons_append] at h ⊢
      split at h
      · rename_i htop
        cases h
        rw [if_pos htop]
      · cases h
  | char c =>
    cases h
    rfl

/-- What is open around a piece does not matter to it. -/
theorem foldlM_nest_append {opened opened' : List (List Char)} (outer : List (List Char))
    {ts : List (Token χ)} (h : ts.foldlM nest opened = some opened') :
    ts.foldlM nest (opened ++ outer) = some (opened' ++ outer) := by
  induction ts generalizing opened with
  | nil =>
    cases h
    rfl
  | cons t ts ih =>
    simp only [List.foldlM_cons, Option.bind_eq_bind, Option.bind_eq_some_iff] at h ⊢
    obtain ⟨middle, ht, hts⟩ := h
    exact ⟨middle ++ outer, nest_append ht, ih hts⟩

theorem contents_append (name : String) (content : Option (List χ)) (ts us : List (Token χ)) :
    contents name content (ts ++ us) =
      ((contents name (contents name content ts).1 us).1,
        (contents name content ts).2 ++ (contents name (contents name content ts).1 us).2) := by
  induction ts generalizing content with
  | nil => rfl
  | cons t ts ih => cases t <;> simp [contents, ih]

theorem Reads.nil : Reads [] [] := rfl

theorem Reads.append {cs ds : List Char} {ts us : List (Token Char)} (h : Reads cs ts)
    (h' : Reads ds us) : Reads (cs ++ ds) (ts ++ us) :=
  Reader.run_append h h'

theorem Reads.read {cs : List Char} {ts : List (Token Char)} (h : Reads cs ts) :
    read cs = some ts := by
  rw [Html.read, show Reader.ready.run cs = some (.ready, ts) from h]
  rfl

end Reader

section Values

/-- What reading makes of line ends, after a carriage return or not. -/
def newlines : Bool → List Char → List Char
  | _, [] => []
  | cr, c :: cs =>
    if c = '\n' ∧ cr then newlines false cs
    else (if c = '\r' then '\n' else c) :: newlines (c = '\r') cs

/-- What becomes of a value. -/
def Place.reading {χ : Type} (place : Place χ) (v : List Char) : List Char :=
  (newlines false v).flatMap place.keep

/-- What becomes of a value that is written to text. -/
def asText (v : List Char) : List Char := (Place.text (χ := Char)).reading v

/-- What becomes of a value that is written to an attribute. -/
def asValue (v : List Char) : List Char := (Place.value (χ := Char) ⟨[], []⟩ [] []).reading v

variable {place : Place Char} {cr : Bool}

@[simp] theorem Place.add_nil : place.add [] = (place, []) := by
  cases place <;> simp [add]

theorem Place.add_append (cs ds : List Char) :
    place.add (cs ++ ds) =
      (((place.add cs).1.add ds).1, (place.add cs).2 ++ ((place.add cs).1.add ds).2) := by
  cases place <;> simp [add]

@[simp] theorem Place.add_keep (cs : List Char) : (place.add cs).1.keep = place.keep := by
  cases place <;> rfl

/-- The reader takes the character in, whatever it is. -/
def Place.take (place : Place Char) (cr : Bool) (c : Char) : Reader × List (Token Char) :=
  if c = '\n' ∧ cr then (⟨.within place, false⟩, [])
  else
    let (state, tokens) := place.put id (if c = '\r' then '\n' else c)
    (⟨state, c = '\r'⟩, tokens)

/-- Written to any place, the text stands for the value. -/
def Encodes (text value : List Char) : Prop :=
  ∀ place : Place Char, ∃ cr, Reader.run ⟨.within place, false⟩ text =
    some (⟨.within (place.add (place.reading value)).1, cr⟩, (place.add (place.reading value)).2)

theorem Reader.run_flatMap {encode : Char → List Char}
    (h : ∀ place cr c, Reader.run ⟨.within place, cr⟩ (encode c) = some (place.take cr c))
    (v : List Char) (place : Place Char) (cr : Bool) :
    ∃ cr', Reader.run ⟨.within place, cr⟩ (v.flatMap encode) =
      some (⟨.within (place.add ((newlines cr v).flatMap place.keep)).1, cr'⟩,
        (place.add ((newlines cr v).flatMap place.keep)).2) := by
  induction v generalizing place cr with
  | nil => exact ⟨cr, by simp [newlines, run]⟩
  | cons c v ih =>
    have hc := h place cr c
    rw [List.flatMap_cons]
    by_cases hskip : c = '\n' ∧ cr = true
    · obtain ⟨cr', hv⟩ := ih place false
      rw [Place.take, if_pos hskip] at hc
      exact ⟨cr', by simpa [newlines, hskip] using run_append hc hv⟩
    · rw [Place.take, if_neg hskip] at hc
      obtain ⟨cr', hv⟩ := ih (place.add (place.keep (if c = '\r' then '\n' else c))).1
        (decide (c = '\r'))
      rw [Place.add_keep] at hv
      refine ⟨cr', ?_⟩
      rw [newlines, if_neg hskip, List.flatMap_cons, Place.add_append]
      exact run_append (by simpa [Place.put] using hc) hv

/-- It is enough to encode the characters. -/
theorem encodes_flatMap {encode : Char → List Char}
    (h : ∀ place cr c, Reader.run ⟨.within place, cr⟩ (encode c) = some (place.take cr c))
    (v : List Char) : Encodes (v.flatMap encode) v :=
  fun place => Reader.run_flatMap h v place false

end Values

section Templates

variable {α : Type}

inductive Piece (α : Type) where
  | char (c : Char)
  | hole (a : α)
  deriving DecidableEq

abbrev Template (α : Type) := List (Piece α)

namespace Template

def lit (s : String) : Template α := s.toList.map .char

def hole (a : α) : Template α := [.hole a]

end Template

def Piece.text (encoded : α → List Char) : Piece α → List Char
  | .char c => [c]
  | .hole a => encoded a

namespace Template

/-- The template with its holes filled. -/
def text (encoded : α → List Char) (t : Template α) : List Char := t.flatMap (Piece.text encoded)

/-- As the reader is fed, with a hole for a value of its own. After a hole, nothing may follow that
depends on how a value ends. -/
def feed : State (Piece α) × Bool → Piece α →
    Option ((State (Piece α) × Bool) × List (Token (Piece α)))
  | (state, hole), .char c =>
    if c = '\r' ∨ (hole ∧ c = '\n') then none
    else (step .char state c).map fun x => ((x.1, false), x.2)
  | (.within place, false), .hole a =>
    let (place, tokens) := place.add [.hole a]
    some ((.within place, true), tokens)
  | _, .hole _ => none

/-- A template does not end with a hole. -/
def run : State (Piece α) × Bool → Template α → Option (State (Piece α) × List (Token (Piece α)))
  | r, [] => if r.2 then none else some (r.1, [])
  | r, p :: t =>
    match feed r p with
    | none => none
    | some (r, ts) => (run r t).map fun x => (x.1, ts ++ x.2)

def read (t : Template α) : Option (List (Token (Piece α))) :=
  match run (.within .text, false) t with
  | some (.within .text, tokens) => some tokens
  | _ => none

end Template

section Fill

variable (value : α → List Char)

/-- What the pieces of a value become. -/
def fillValue (v : List (Piece α)) : List Char :=
  v.flatMap fun
    | .char c => [c]
    | .hole a => asValue (value a)

/-- What a piece of text becomes. -/
def fillText : Piece α → List Char
  | .char c => [c]
  | .hole a => asText (value a)

def fillAttributes (attributes : List (List Char × List (Piece α))) :
    List (List Char × List Char) :=
  attributes.map fun a => (a.1, fillValue value a.2)

def Token.fill : Token (Piece α) → List (Token Char)
  | .start name attributes => [.start name (fillAttributes value attributes)]
  | .stop name => [.stop name]
  | .char p => (fillText value p).map .char

def Tag.fill (tag : Tag (Piece α)) : Tag Char := ⟨tag.name, fillAttributes value tag.attributes⟩

def Place.fill : Place (Piece α) → Place Char
  | text => text
  | .value tag name v => .value (tag.fill value) name (fillValue value v)

def State.fill : State (Piece α) → State Char
  | .within place => .within (place.fill value)
  | .characterReference place name => .characterReference (place.fill value) name
  | .tagOpen => .tagOpen
  | .endTagOpen => .endTagOpen
  | .endTagName name => .endTagName name
  | .tagName name => .tagName name
  | .beforeAttributeName tag => .beforeAttributeName (tag.fill value)
  | .attributeName tag name => .attributeName (tag.fill value) name
  | .afterAttributeName tag name => .afterAttributeName (tag.fill value) name
  | .beforeAttributeValue tag name => .beforeAttributeValue (tag.fill value) name
  | .afterAttributeValue tag => .afterAttributeValue (tag.fill value)

/-- The state and the tokens after a step. -/
def fillStep (x : State (Piece α) × List (Token (Piece α))) : State Char × List (Token Char) :=
  (x.1.fill value, x.2.flatMap (Token.fill value))

variable {value}

theorem Tag.fill_add (tag : Tag (Piece α)) (name : List Char) (v : List (Piece α)) :
    (tag.add name v).fill value = (tag.fill value).add name (fillValue value v) := by
  simp [fill, add, fillAttributes]

theorem Tag.fill_emit (tag : Tag (Piece α)) :
    (tag.fill value).emit = tag.emit.map (fillStep value) := by
  have hnames : (tag.fill value).attributes.map Prod.fst = tag.attributes.map Prod.fst := by
    simp [fill, fillAttributes]
  rw [emit, emit, hnames]
  split <;> simp_all [fill, fillStep, State.fill, Place.fill, Token.fill]

theorem Place.fill_put (place : Place (Piece α)) (c : Char) :
    (place.fill value).put id c = fillStep value (place.put .char c) := by
  cases place with
  | text =>
    simp only [put, fill, fillStep, add, keep]
    split <;> simp [State.fill, fill, Token.fill, fillText]
  | value tag name v => simp [put, fill, fillStep, add, keep, State.fill, fillValue]

theorem step_fill (state : State (Piece α)) (c : Char) :
    step id (state.fill value) c = (step .char state c).map (fillStep value) := by
  cases state with
  | within place =>
    have hdelimiter : (place.fill value).delimiter = place.delimiter := by cases place <;> rfl
    have hleave : (place.fill value).leave = place.leave.fill value := by
      cases place <;> simp [Place.fill, Place.leave, State.fill, Tag.fill_add]
    simp only [State.fill, step, hdelimiter, hleave, Place.fill_put]
    split
    · rfl
    · split <;> rfl
  | characterReference place name =>
    simp only [State.fill, step]
    split
    · cases reference name with
      | none => rfl
      | some c => exact congrArg some (Place.fill_put place c)
    · split <;> rfl
  | tagOpen | endTagOpen | endTagName | beforeAttributeValue =>
    simp only [State.fill, step]
    repeat' split
    all_goals rfl
  | tagName name =>
    have hemit : (Tag.fill value ⟨name, []⟩).emit = _ := Tag.fill_emit ⟨name, []⟩
    simp only [State.fill, step]
    split
    · exact hemit
    · repeat' split
      all_goals rfl
  | beforeAttributeName tag | afterAttributeValue tag =>
    simp only [State.fill, step, Tag.fill_emit]
    repeat' split
    all_goals rfl
  | attributeName tag name | afterAttributeName tag name =>
    have hadd : (tag.fill value).add name [] = (tag.add name []).fill value :=
      (Tag.fill_add tag name []).symm
    simp only [State.fill, step, hadd, Tag.fill_emit]
    repeat' split
    all_goals rfl

theorem Place.fill_hole (place : Place (Piece α)) (a : α) :
    (place.fill value).add ((place.fill value).reading (value a)) =
      ((place.add [.hole a]).1.fill value, (place.add [.hole a]).2.flatMap (Token.fill value)) := by
  cases place with
  | text => simp [fill, add, Token.fill, fillText, asText]
  | value tag name v =>
    simp only [fill, add, fillValue, List.flatMap_append, List.flatMap_cons, List.flatMap_nil,
      List.append_nil]
    rfl

/-- A character of a template is fed to the reader. -/
theorem Reader.feed_fill {state state' : State (Piece α)} {c : Char} {ts : List (Token (Piece α))}
    (h : step .char state c = some (state', ts)) (hreturn : c ≠ '\r') {cr : Bool}
    (hline : ¬ (c = '\n' ∧ cr = true)) :
    Reader.feed ⟨state.fill value, cr⟩ c =
      some (⟨state'.fill value, false⟩, ts.flatMap (Token.fill value)) := by
  rw [feed, if_neg hline, if_neg hreturn, step_fill, h]
  simp [fillStep, hreturn]

/-- A piece of a template is read as it is filled. -/
theorem Template.feed_text {encoded : α → List Char} (henc : ∀ a, Encodes (encoded a) (value a))
    {r r' : State (Piece α) × Bool} {p : Piece α} {ts : List (Token (Piece α))}
    (h : feed r p = some (r', ts)) {cr : Bool} (hcr : cr = true → r.2 = true) :
    ∃ cr', (cr' = true → r'.2 = true) ∧ Reader.run ⟨r.1.fill value, cr⟩ (p.text encoded) =
      some (⟨r'.1.fill value, cr'⟩, ts.flatMap (Token.fill value)) := by
  obtain ⟨state, hole⟩ := r
  cases p with
  | char c =>
    simp only [feed] at h
    split at h
    · cases h
    · rename_i hc
      obtain ⟨⟨state', us⟩, hstep, heq⟩ := Option.map_eq_some_iff.mp h
      cases heq
      have hfeed : Reader.feed ⟨state.fill value, cr⟩ c = _ :=
        Reader.feed_fill hstep (fun hreturn => hc (.inl hreturn))
          fun hline => hc (.inr ⟨hcr hline.2, hline.1⟩)
      exact ⟨false, by simp, by simp [Reader.run, Piece.text, hfeed]⟩
  | hole a =>
    cases hole with
    | true => cases state <;> cases h
    | false =>
      obtain rfl : cr = false := by simpa using hcr
      cases state with
      | within place =>
        cases h
        obtain ⟨cr', hread⟩ := henc a (place.fill value)
        rw [Place.fill_hole] at hread
        exact ⟨cr', fun _ => rfl, hread⟩
      | _ => cases h

/-- Reading a filled template is filling what was read of the template. -/
theorem Template.run_text {encoded : α → List Char} (henc : ∀ a, Encodes (encoded a) (value a))
    {t : Template α} {r : State (Piece α) × Bool} {state' : State (Piece α)}
    {ts : List (Token (Piece α))} (h : run r t = some (state', ts)) {cr : Bool}
    (hcr : cr = true → r.2 = true) :
    Reader.run ⟨r.1.fill value, cr⟩ (t.text encoded) =
      some (⟨state'.fill value, false⟩, ts.flatMap (Token.fill value)) := by
  induction t generalizing r cr ts with
  | nil =>
    obtain ⟨state, hole⟩ := r
    cases hole with
    | true => cases h
    | false =>
      obtain rfl : cr = false := by simpa using hcr
      cases h
      rfl
  | cons p t ih =>
    simp only [run] at h
    split at h
    · cases h
    · rename_i r₁ us hfeed
      obtain ⟨⟨state₂, vs⟩, hrun, heq⟩ := Option.map_eq_some_iff.mp h
      cases heq
      obtain ⟨cr', hcr', hp⟩ := feed_text henc hfeed hcr
      rw [List.flatMap_append]
      exact Reader.run_append hp (ih hrun hcr')

/-- The tokens of a filled template are those of the template, filled. -/
theorem reads_text {encoded : α → List Char} (henc : ∀ a, Encodes (encoded a) (value a))
    {t : Template α} {ts : List (Token (Piece α))} (h : t.read = some ts) :
    Reads (t.text encoded) (ts.flatMap (Token.fill value)) := by
  unfold Template.read at h
  split at h
  · rename_i us hrun
    cases h
    exact Template.run_text henc hrun (by simp)
  · cases h

theorem getAttribute_fill (name : String) (attributes : List (List Char × List (Piece α))) :
    getAttribute name (fillAttributes value attributes) =
      (getAttribute name attributes).map (fillValue value) := by
  simp [getAttribute, fillAttributes, List.find?_map, Function.comp_def]

theorem foldlM_nest_chars (opened : List (List Char)) (cs : List Char) :
    (cs.map (Token.char (χ := Char))).foldlM nest opened = some opened := by
  induction cs with
  | nil => rfl
  | cons c cs ih => exact ih

/-- A filled template nests as the template does. -/
theorem foldlM_nest_fill (opened : List (List Char)) (ts : List (Token (Piece α))) :
    (ts.flatMap (Token.fill value)).foldlM nest opened = ts.foldlM nest opened := by
  induction ts generalizing opened with
  | nil => rfl
  | cons t ts ih =>
    have hone : (t.fill value).foldlM nest opened = nest opened t := by
      cases t with
      | start name attributes | stop name => simp [Token.fill, nest]
      | char p => simp [Token.fill, foldlM_nest_chars, nest]
    simp [List.foldlM_append, hone, ih]

theorem contents_chars (name : String) (content : Option (List Char)) (cs : List Char) :
    contents name content (cs.map .char) = (content.map (· ++ cs), []) := by
  induction cs generalizing content with
  | nil => cases content <;> simp [contents]
  | cons c cs ih => simp [contents, ih, Function.comp_def]

theorem contents_fill (name : String) (content : Option (List (Piece α)))
    (ts : List (Token (Piece α))) :
    contents name (content.map (·.flatMap (fillText value))) (ts.flatMap (Token.fill value)) =
      ((contents name content ts).1.map (·.flatMap (fillText value)),
        (contents name content ts).2.map (·.flatMap (fillText value))) := by
  induction ts generalizing content with
  | nil => rfl
  | cons t ts ih =>
    cases t with
    | start tag attributes =>
      have hrest := ih (if String.ofList tag = name then some [] else none)
      rw [apply_ite (Option.map _)] at hrest
      simp only [Option.map_some, Option.map_none, List.flatMap_nil] at hrest
      simp only [List.flatMap_cons, Token.fill, List.cons_append, List.nil_append, contents, hrest]
      cases content <;> simp
    | stop tag =>
      have hrest := ih none
      simp only [Option.map_none] at hrest
      simp only [List.flatMap_cons, Token.fill, List.cons_append, List.nil_append, contents, hrest]
      cases content <;> simp
    | char p =>
      have hrest := ih (content.map (· ++ [p]))
      simp only [List.flatMap_cons, Token.fill, contents_append, contents_chars, contents,
        Option.map_map, List.nil_append] at hrest ⊢
      rw [← hrest]
      simp [Function.comp_def]

end Fill

section Texts

variable {encoded : α → List Char}

@[simp] theorem Template.text_nil : Template.text encoded [] = [] := rfl

@[simp] theorem Template.text_append (s t : Template α) :
    (s ++ t).text encoded = s.text encoded ++ t.text encoded :=
  List.flatMap_append

@[simp] theorem Template.text_lit (s : String) : (lit s).text encoded = s.toList := by
  simp [text, lit, List.flatMap_map, Piece.text]

@[simp] theorem Template.text_hole (a : α) : (hole a).text encoded = encoded a := by
  simp [text, hole, Piece.text]

theorem Template.text_flatMap {β : Type} (f : β → Template α) (xs : List β) :
    Template.text encoded (xs.flatMap f) = xs.flatMap fun x => (f x).text encoded :=
  List.flatMap_assoc

variable {value : α → List Char}

@[simp] theorem fillValue_append (v w : List (Piece α)) :
    fillValue value (v ++ w) = fillValue value v ++ fillValue value w :=
  List.flatMap_append

@[simp] theorem fillValue_lit (s : String) : fillValue value (Template.lit s) = s.toList := by
  simp [fillValue, Template.lit, List.flatMap_map]

@[simp] theorem fillValue_hole (a : α) :
    fillValue value (Template.hole a) = asValue (value a) := by
  simp [fillValue, Template.hole]

@[simp] theorem fillText_hole (a : α) :
    (Template.hole a).flatMap (fillText value) = asText (value a) := by
  simp [fillText, Template.hole]

end Texts

end Templates

end Html
