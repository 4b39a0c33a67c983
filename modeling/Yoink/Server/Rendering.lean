import Mathlib.Data.Fin.VecNotation
import Yoink.Server.Markup

/-!
# What a browser makes of the page

The state comes from the network: names, ids and texts are whatever some peer says. They are
escaped, so they only ever are text or the value of an attribute. What a browser finds in the
markup is what the templates say: the elements, how they nest, the links, the controls that act
and the texts of the entries.
-/

namespace Yoink

namespace Page

open Html Html.Template

section Escaping

/-- An escaped character stands for the character, wherever it is written. -/
theorem run_escapeChar (place : Place Char) (cr : Bool) (c : Char) :
    Reader.run ⟨.within place, cr⟩ (escapeChar c) = some (place.take cr c) := by
  unfold escapeChar
  repeat rw [String.toList_ofList]
  split
  · subst c
    cases place <;> cases cr <;> rfl
  split
  · subst c
    cases place <;> cases cr <;> rfl
  split
  · subst c
    cases place <;> cases cr <;> rfl
  split
  · subst c
    cases place <;> cases cr <;> rfl
  split
  · subst c
    cases place <;> cases cr <;> rfl
  · rename_i hamp hlt _ hquot _
    have hdelimiter : c ≠ place.delimiter := by
      cases place
      · exact hlt
      · exact hquot
    by_cases hskip : c = '\n' ∧ cr = true
    · simp [Reader.run, Reader.feed, Place.take, hskip]
    · by_cases hreturn : c = '\r'
      · subst hreturn
        cases place <;> rfl
      · simp [Reader.run, Reader.feed, Place.take, hskip, hreturn, step, hamp, hdelimiter]

theorem escapeChar_digits (n : Nat) :
    (Nat.toDigits 10 n).flatMap escapeChar = Nat.toDigits 10 n := by
  have hdigit (c : Char) (h : c ∈ Nat.toDigits 10 n) : escapeChar c = [c] := by
    have hd : c.isDigit = true := Nat.isDigit_of_mem_toDigits (by decide) (by decide) h
    have hne (d : Char) (hnot : d.isDigit = false) : c ≠ d := by
      rintro rfl
      simp [hd] at hnot
    simp [escapeChar, hne '&' rfl, hne '<' rfl, hne '>' rfl, hne '"' rfl, hne '\'' rfl]
  rw [List.flatMap_congr hdigit]
  exact List.flatMap_singleton' _

theorem Value.encodes (v : Value) : Encodes v.text v.value := by
  cases v with
  | esc value => exact encodes_flatMap run_escapeChar value.toList
  | number n =>
    have := encodes_flatMap run_escapeChar (Nat.toDigits 10 n)
    rwa [escapeChar_digits] at this

end Escaping

section Findings

variable {χ : Type}

/-- The elements the page is made of. None of them runs, embeds or styles anything. -/
def elementNames : List String :=
  ["section", "h2", "div", "a", "span", "button", "input", "article", "p"]

/-- No handlers, sources or styles. -/
def attributeNames : List String :=
  ["class", "id", "href", "title", "data-action", "data-id", "data-trusted", "disabled", "value",
    "placeholder", "spellcheck", "autocomplete", "maxlength", "aria-label"]

/-- The token is of the page's own making. -/
def Own : Token χ → Prop
  | .start name attributes =>
    String.ofList name ∈ elementNames ∧ ∀ a ∈ attributes, String.ofList a.1 ∈ attributeNames
  | .stop name => String.ofList name ∈ elementNames
  | .char _ => True

instance : DecidablePred (Own (χ := χ))
  | .start _ _ => inferInstanceAs (Decidable (_ ∧ _))
  | .stop _ => inferInstanceAs (Decidable (_ ∈ _))
  | .char _ => inferInstanceAs (Decidable True)

/-- What a click handler reads of an element. -/
structure Dataset (χ : Type) where
  action : List χ
  id : Option (List χ)
  trusted : Option (List χ)
  deriving DecidableEq

def link : Token χ → Option (List χ)
  | .start _ attributes => getAttribute "href" attributes
  | _ => none

/-- An element that acts when it is clicked; a disabled button does not. -/
def control : Token χ → Option (Dataset χ)
  | .start _ attributes =>
    if (getAttribute "disabled" attributes).isSome then none
    else
      (getAttribute "data-action" attributes).map fun action =>
        ⟨action, getAttribute "data-id" attributes, getAttribute "data-trusted" attributes⟩
  | _ => none

/-- What is found in a piece of markup. -/
structure Findings (χ : Type) where
  links : List (List χ)
  controls : List (Dataset χ)
  paragraphs : List (List χ)
  deriving DecidableEq

def opened (names : List String) : List (List Char) := names.map String.toList

/-- The tokens are the page's own; they close `before` and leave `after` open. -/
structure Finds (ts : List (Token χ)) (before after : List String) (f : Findings χ) : Prop where
  own : ∀ t ∈ ts, Own t
  nested : ts.foldlM nest (opened before) = some (opened after)
  links : ts.filterMap link = f.links
  controls : ts.filterMap control = f.controls
  paragraphs : contents "p" none ts = (none, f.paragraphs)

instance [DecidableEq χ] (ts : List (Token χ)) (before after : List String) (f : Findings χ) :
    Decidable (Finds ts before after f) :=
  decidable_of_iff ((∀ t ∈ ts, Own t) ∧ ts.foldlM nest (opened before) = some (opened after) ∧
      ts.filterMap link = f.links ∧ ts.filterMap control = f.controls ∧
      contents "p" none ts = (none, f.paragraphs))
    ⟨fun h => ⟨h.1, h.2.1, h.2.2.1, h.2.2.2.1, h.2.2.2.2⟩,
      fun h => ⟨h.own, h.nested, h.links, h.controls, h.paragraphs⟩⟩

/-- Nothing but text. -/
def Findings.none : Findings χ := ⟨[], [], []⟩

/-- Read as markup, the string is this. -/
def Shows (html : List Char) (before after : List String) (f : Findings Char) : Prop :=
  ∃ ts, Reads html ts ∧ Finds ts before after f

instance : Append (Findings χ) :=
  ⟨fun f g => ⟨f.links ++ g.links, f.controls ++ g.controls, f.paragraphs ++ g.paragraphs⟩⟩

theorem Findings.mk_append (ls ls' ps ps' : List (List χ)) (cs cs' : List (Dataset χ)) :
    Findings.mk ls cs ps ++ Findings.mk ls' cs' ps' = ⟨ls ++ ls', cs ++ cs', ps ++ ps'⟩ :=
  rfl

@[simp] theorem Findings.none_append (f : Findings χ) : Findings.none ++ f = f := rfl

@[simp] theorem Findings.append_none (f : Findings χ) : f ++ Findings.none = f := by
  cases f
  simp [none, mk_append]

variable {html html' : List Char} {before middle after : List String} {f g : Findings Char}

theorem Finds.append {ts us : List (Token χ)} {f g : Findings χ} (h : Finds ts before middle f)
    (h' : Finds us middle after g) : Finds (ts ++ us) before after (f ++ g) where
  own t ht := (List.mem_append.mp ht).elim (h.own t) (h'.own t)
  nested := by simp [List.foldlM_append, h.nested, h'.nested]
  links := by rw [List.filterMap_append, h.links, h'.links]; rfl
  controls := by rw [List.filterMap_append, h.controls, h'.controls]; rfl
  paragraphs := by rw [contents_append, h.paragraphs, h'.paragraphs]; rfl

theorem Finds.within {ts : List (Token χ)} {f : Findings χ} (h : Finds ts before after f)
    (outer : List String) : Finds ts (before ++ outer) (after ++ outer) f :=
  { h with
    nested := by
      rw [opened, opened, List.map_append, List.map_append]
      exact foldlM_nest_append _ h.nested }

theorem Shows.append (h : Shows html before middle f) (h' : Shows html' middle after g) :
    Shows (html ++ html') before after (f ++ g) := by
  obtain ⟨ts, hts, hf⟩ := h
  obtain ⟨us, hus, hg⟩ := h'
  exact ⟨ts ++ us, hts.append hus, hf.append hg⟩

/-- What is open around a piece does not matter. -/
theorem Shows.within (h : Shows html before after f) (outer : List String) :
    Shows html (before ++ outer) (after ++ outer) f := by
  obtain ⟨ts, hts, hf⟩ := h
  exact ⟨ts, hts, hf.within outer⟩

theorem Shows.of_eq (h : Shows html before after f) (hf : f = g) : Shows html before after g :=
  hf ▸ h

theorem Shows.nil : Shows [] before before .none :=
  ⟨[], .nil, ⟨by simp, rfl, rfl, rfl, rfl⟩⟩

@[simp] theorem flatMap_nothing {β γ : Type} (xs : List β) :
    xs.flatMap (fun _ => ([] : List γ)) = [] := by
  simp

/-- Rows, one after the other. -/
theorem Shows.flatMap {β : Type} {row : β → List Char} {found : β → Findings Char} (xs : List β)
    (h : ∀ x ∈ xs, Shows (row x) [] [] (found x)) :
    Shows (xs.flatMap row) [] []
      ⟨xs.flatMap fun x => (found x).links, xs.flatMap fun x => (found x).controls,
        xs.flatMap fun x => (found x).paragraphs⟩ := by
  induction xs with
  | nil => exact .nil
  | cons x xs ih =>
    exact (h x List.mem_cons_self).append (ih fun y hy => h y (List.mem_cons_of_mem _ hy))

end Findings

section Fill

variable {α : Type} (value : α → List Char)

def Dataset.fill (el : Dataset (Piece α)) : Dataset Char :=
  ⟨fillValue value el.action, el.id.map (fillValue value), el.trusted.map (fillValue value)⟩

def Findings.fill (f : Findings (Piece α)) : Findings Char where
  links := f.links.map (fillValue value)
  controls := f.controls.map (Dataset.fill value)
  paragraphs := f.paragraphs.map (·.flatMap (fillText value))

variable {value}

@[simp] theorem Findings.fill_none : (Findings.none : Findings (Piece α)).fill value = .none := rfl

theorem Own.fill {t : Token (Piece α)} (h : Own t) : ∀ u ∈ t.fill value, Own u := by
  cases t with
  | start name attributes =>
    rintro u hu
    obtain rfl := List.mem_singleton.mp hu
    refine ⟨h.1, fun a ha => ?_⟩
    obtain ⟨b, hb, rfl⟩ := List.mem_map.mp ha
    exact h.2 b hb
  | stop name =>
    rintro u hu
    obtain rfl := List.mem_singleton.mp hu
    exact h
  | char p =>
    rintro u hu
    obtain ⟨c, -, rfl⟩ := List.mem_map.mp hu
    trivial

theorem filterMap_link_fill (t : Token (Piece α)) :
    (t.fill value).filterMap link = ((link t).map (fillValue value)).toList := by
  cases t with
  | start name attributes =>
    cases hl : getAttribute "href" attributes <;> simp [Token.fill, link, getAttribute_fill, hl]
  | stop name => rfl
  | char p => simp [Token.fill, link, List.filterMap_map, Function.comp_def]

theorem filterMap_control_fill (t : Token (Piece α)) :
    (t.fill value).filterMap control = ((control t).map (Dataset.fill value)).toList := by
  cases t with
  | start name attributes =>
    cases hd : getAttribute "disabled" attributes <;>
      cases ha : getAttribute "data-action" attributes <;>
      simp [Token.fill, control, getAttribute_fill, hd, ha, Dataset.fill]
  | stop name => rfl
  | char p => simp [Token.fill, control, List.filterMap_map, Function.comp_def]

theorem filterMap_flatMap_fill {β γ : Type} {find : Token (Piece α) → Option β}
    {find' : Token Char → Option γ} {fill : β → γ}
    (h : ∀ t : Token (Piece α), (t.fill value).filterMap find' = ((find t).map fill).toList)
    (ts : List (Token (Piece α))) :
    (ts.flatMap (Token.fill value)).filterMap find' = (ts.filterMap find).map fill := by
  induction ts with
  | nil => rfl
  | cons t ts ih =>
    rw [List.flatMap_cons, List.filterMap_append, h, ih]
    cases ht : find t <;> simp [ht]

theorem Finds.fill {ts : List (Token (Piece α))} {before after : List String}
    {f : Findings (Piece α)} (h : Finds ts before after f) :
    Finds (ts.flatMap (Token.fill value)) before after (f.fill value) where
  own u hu := by
    obtain ⟨t, ht, hu⟩ := List.mem_flatMap.mp hu
    exact (h.own t ht).fill u hu
  nested := by rw [foldlM_nest_fill, h.nested]
  links := by rw [filterMap_flatMap_fill filterMap_link_fill, h.links]; rfl
  controls := by rw [filterMap_flatMap_fill filterMap_control_fill, h.controls]; rfl
  paragraphs := by
    refine (contents_fill "p" none ts).trans ?_
    rw [h.paragraphs]
    rfl

/-- Read with its holes open, the template is this. -/
def Outlines (t : Template α) (before after : List String) (f : Findings (Piece α)) : Prop :=
  ∃ ts ∈ t.read, Finds ts before after f

instance [DecidableEq α] (t : Template α) (before after : List String) (f : Findings (Piece α)) :
    Decidable (Outlines t before after f) :=
  inferInstanceAs (Decidable (∃ ts ∈ t.read, Finds ts before after f))

/-- What is found in a template is found in all its fillings. -/
theorem Outlines.shows {t : Template α} {before after : List String} {f : Findings (Piece α)}
    (h : Outlines t before after f) (values : α → Value) :
    Shows (t.text (Value.text ∘ values)) before after (f.fill (Value.value ∘ values)) := by
  obtain ⟨ts, hread, hf⟩ := h
  exact ⟨_, reads_text (fun a => (values a).encodes) hread, hf.fill⟩

end Fill

section Templates

theorem nav_outlines :
    (∀ active, Outlines (navDevices active : Template Unit) [] [] ⟨[lit "/"], [], []⟩) ∧
    (∀ active, Outlines (navLink active ()) [] [] ⟨[lit "/r/" ++ hole ()], [], []⟩) ∧
    Outlines (newRoomInput (0 : Fin 2) 1) [] [] .none ∧
    Outlines (newRoomButton : Template Unit) [] []
      ⟨[], [⟨lit "open-new-room", none, none⟩], []⟩ := by
  unfold navDevices navLink newRoomInput newRoomButton lit
  repeat rw [String.toList_ofList]
  decide +kernel

theorem peers_outline :
    (∀ status ∈ ["connected", "online", "offline"],
      Outlines (peerHead status (0 : Fin 2) 1) [] ["span", "div"] .none) ∧
    (∀ status ∈ ["connected", "online", "offline", "blocked"],
      Outlines (lit status : Template Unit) [] [] .none) ∧
    (∀ pairing trusted, Outlines (peerControl pairing trusted ()) [] []
      ⟨[], [⟨lit "set-device-trusted", some (hole ()),
        some (lit (if trusted then "false" else "true"))⟩], []⟩) ∧
    Outlines (devicesHead : Template Unit) [] ["div", "section"] .none ∧
    Outlines (noPeers : Template Unit) [] [] .none := by
  unfold peerHead peerControl peerButton devicesHead noPeers lit
  repeat rw [String.toList_ofList]
  decide +kernel

theorem rooms_outline :
    Outlines (roomRowHead ()) [] ["span", "div"] .none ∧
    (∀ count ∈ [none, some ()], Outlines (roomCount count) [] [] .none) ∧
    (∀ joined, Outlines (roomAction joined ()) [] [] ⟨[lit "/r/" ++ hole ()], [], []⟩) ∧
    Outlines (roomsHead : Template Unit) ["div", "section"] ["div", "section"] .none ∧
    Outlines (noRooms : Template Unit) [] [] .none := by
  unfold roomRowHead roomCount roomAction roomsHead noRooms lit
  repeat rw [String.toList_ofList]
  decide +kernel

theorem members_outline :
    Outlines (roomHead ()) [] ["div", "section"]
      ⟨[], [⟨lit "leave-room", none, none⟩], []⟩ ∧
    (∀ connected, Outlines (memberChip connected (0 : Fin 2) 1) [] [] .none) ∧
    Outlines (noMembers : Template Unit) [] [] .none := by
  unfold roomHead memberChip noMembers lit
  repeat rw [String.toList_ofList]
  decide +kernel

theorem entries_outline :
    (∀ isNew isExpanded, Outlines (entryBody isNew isExpanded (0 : Fin 2) 1) [] ["article"]
      ⟨[], [⟨lit "expand", some (hole 0), none⟩], [hole 1]⟩) ∧
    Outlines (entryDevice ()) [] ["span", "div"] .none ∧
    (∀ unit ∈ ["m ago", "h ago", "d ago"], Outlines (ago () unit) [] [] .none) ∧
    Outlines (lit "just now" : Template Unit) [] [] .none ∧
    (∀ flash ∈ [none, some (1 : Fin 2)], Outlines (browserButton " small" 0 flash) [] []
      ⟨[], if flash.isSome then [] else [⟨lit "copy-browser", some (hole 0), none⟩], []⟩) ∧
    ∀ clipboardOk, ∀ flash ∈ [none, some (1 : Fin 2)],
      Outlines (osButton " small" clipboardOk 0 flash) [] []
        ⟨[], if flash.isSome || !clipboardOk then []
          else [⟨lit "copy-os", some (hole 0), none⟩], []⟩ := by
  unfold entryBody entryDevice ago browserButton osButton lit
  repeat rw [String.toList_ofList]
  decide +kernel

theorem sections_outline :
    Outlines (clipHead : Template Unit) [] ["div", "section"] .none ∧
    Outlines (emptyClip : Template Unit) [] [] .none ∧
    Outlines (feedHead : Template Unit) [] ["div", "section"] .none ∧
    Outlines (emptyRoom ()) [] [] .none := by
  unfold clipHead emptyClip feedHead emptyRoom lit
  repeat rw [String.toList_ofList]
  decide +kernel

theorem closings_outline :
    Outlines (lit "</span>\n    " : Template Unit) ["span", "div"] ["div"] .none ∧
    Outlines (lit "\n  </div>" : Template Unit) ["div"] [] .none ∧
    Outlines (lit "\n  </article>" : Template Unit) ["article"] [] .none ∧
    Outlines (lit "</div>\n  </section>" : Template Unit) ["div", "section"] [] .none ∧
    Outlines (lit "</div></section>" : Template Unit) ["div", "section"] [] .none := by
  decide +kernel

variable (active pairing connected online trusted joined isNew isExpanded clipboardOk : Bool)
  (id name text : Value) (count flash : Option Value)

theorem navDevices_shows :
    Shows ((navDevices active : Template Value).text Value.text) [] [] ⟨["/".toList], [], []⟩ := by
  have := (nav_outlines.1 active).shows fun _ => .number 0
  simpa [navDevices, Findings.fill, -String.reduceToList] using this

theorem navLink_shows :
    Shows ((navLink active name).text Value.text) [] []
      ⟨["/r/".toList ++ asValue name.value], [], []⟩ := by
  have := (nav_outlines.2.1 active).shows fun _ => name
  simpa [navLink, Findings.fill, -String.reduceToList] using this

theorem newRoomInput_shows (draft preview : Value) :
    Shows ((newRoomInput draft preview).text Value.text) [] [] .none := by
  have := nav_outlines.2.2.1.shows ![draft, preview]
  simpa [newRoomInput, -String.reduceToList] using this

theorem newRoomButton_shows :
    Shows ((newRoomButton : Template Value).text Value.text) [] []
      ⟨[], [⟨"open-new-room".toList, none, none⟩], []⟩ := by
  have := nav_outlines.2.2.2.shows fun _ => .number 0
  simpa [newRoomButton, Findings.fill, Dataset.fill, -String.reduceToList] using this

/-- Markup without values. -/
theorem Outlines.lit_shows {s : String} {before after : List String}
    (h : Outlines (lit s : Template Unit) before after .none) :
    Shows s.toList before after .none := by
  have := h.shows fun _ => .number 0
  simpa [-String.reduceToList] using this

theorem peerHead_shows {status : String} (h : status ∈ ["connected", "online", "offline"]) :
    Shows ((peerHead status id name).text Value.text) [] ["span", "div"] .none := by
  have := (peers_outline.1 status h).shows ![id, name]
  simpa [peerHead, -String.reduceToList] using this

theorem peerControl_shows :
    Shows ((peerControl pairing trusted id).text Value.text) [] []
      ⟨[], [⟨"set-device-trusted".toList, some (asValue id.value),
        some (if trusted then "false" else "true").toList⟩], []⟩ := by
  have := (peers_outline.2.2.1 pairing trusted).shows fun _ => id
  cases pairing <;> cases trusted <;>
    simpa [peerControl, peerButton, Findings.fill, Dataset.fill, -String.reduceToList] using this

theorem spanEnd_shows : Shows "</span>\n    ".toList ["span", "div"] ["div"] .none :=
  closings_outline.1.lit_shows

theorem divEnd_shows : Shows "\n  </div>".toList ["div"] [] .none := closings_outline.2.1.lit_shows

theorem peerRow_shows :
    Shows ((peerRow pairing connected online trusted id name).text Value.text) [] []
      ⟨[], [⟨"set-device-trusted".toList, some (asValue id.value),
        some (if trusted then "false" else "true").toList⟩], []⟩ := by
  unfold peerRow
  generalize hstatus : (if connected then "connected" else if online then "online" else "offline")
    = status
  have hmem : status ∈ ["connected", "online", "offline"] := by
    subst hstatus
    cases connected <;> cases online <;> simp
  have htext : Shows (if pairing || trusted then status else "blocked").toList [] [] .none := by
    refine (peers_outline.2.1 _ ?_).lit_shows
    split
    · exact List.mem_append_left ["blocked"] hmem
    · simp
  have hcontrol := (peerControl_shows pairing trusted id).within ["div"]
  have := ((((peerHead_shows id name hmem).append (htext.within ["span", "div"])).append
    spanEnd_shows).append hcontrol).append divEnd_shows
  simpa only [text_append, text_lit, Findings.none_append, Findings.append_none] using this

theorem roomRowHead_shows :
    Shows ((roomRowHead name).text Value.text) [] ["span", "div"] .none := by
  have := rooms_outline.1.shows fun _ => name
  simpa [roomRowHead, -String.reduceToList] using this

theorem roomCount_shows : Shows ((roomCount count).text Value.text) [] [] .none := by
  have := (rooms_outline.2.1 (count.map fun _ => ()) (by cases count <;> simp)).shows
    fun _ => count.getD (.number 0)
  cases count <;> simpa [roomCount, -String.reduceToList] using this

theorem roomAction_shows :
    Shows ((roomAction joined name).text Value.text) [] []
      ⟨["/r/".toList ++ asValue name.value], [], []⟩ := by
  have := (rooms_outline.2.2.1 joined).shows fun _ => name
  cases joined <;> simpa [roomAction, Findings.fill, -String.reduceToList] using this

theorem roomRow_shows :
    Shows ((roomRow joined name count).text Value.text) [] []
      ⟨["/r/".toList ++ asValue name.value], [], []⟩ := by
  have hcount := (roomCount_shows count).within ["span", "div"]
  have haction := (roomAction_shows joined name).within ["div"]
  have := ((((roomRowHead_shows name).append hcount).append spanEnd_shows).append haction).append
    divEnd_shows
  simpa only [roomRow, text_append, text_lit, Findings.none_append, Findings.append_none] using
    this

theorem memberChip_shows :
    Shows ((memberChip connected id name).text Value.text) [] [] .none := by
  have := (members_outline.2.1 connected).shows ![id, name]
  simpa [memberChip, -String.reduceToList] using this

theorem roomHead_shows :
    Shows ((roomHead name).text Value.text) [] ["div", "section"]
      ⟨[], [⟨"leave-room".toList, none, none⟩], []⟩ := by
  have := members_outline.1.shows fun _ => name
  simpa [roomHead, Findings.fill, Dataset.fill, -String.reduceToList] using this

theorem browserButton_shows :
    Shows ((browserButton " small" id flash).text Value.text) [] []
      ⟨[], if flash.isSome then [] else [⟨"copy-browser".toList, some (asValue id.value), none⟩],
        []⟩ := by
  have := (entries_outline.2.2.2.2.1 (flash.map fun _ => 1) (by cases flash <;> simp)).shows
    ![id, flash.getD id]
  cases flash <;>
    simpa [browserButton, Findings.fill, Dataset.fill, -String.reduceToList] using this

theorem osButton_shows :
    Shows ((osButton " small" clipboardOk id flash).text Value.text) [] []
      ⟨[], if flash.isSome || !clipboardOk then []
        else [⟨"copy-os".toList, some (asValue id.value), none⟩], []⟩ := by
  have := (entries_outline.2.2.2.2.2 clipboardOk (flash.map fun _ => 1)
    (by cases flash <;> simp)).shows ![id, flash.getD id]
  cases flash <;> cases clipboardOk <;>
    simpa [osButton, Findings.fill, Dataset.fill, -String.reduceToList] using this

theorem entryBody_shows :
    Shows ((entryBody isNew isExpanded id text).text Value.text) [] ["article"]
      ⟨[], [⟨"expand".toList, some (asValue id.value), none⟩], [asText text.value]⟩ := by
  have := (entries_outline.1 isNew isExpanded).shows ![id, text]
  simpa [entryBody, Findings.fill, Dataset.fill, -String.reduceToList] using this

theorem entryDevice_shows :
    Shows ((entryDevice name).text Value.text) [] ["span", "div"] .none := by
  have := entries_outline.2.1.shows fun _ => name
  simpa [entryDevice, -String.reduceToList] using this

theorem ago_shows {unit : String} (h : unit ∈ ["m ago", "h ago", "d ago"]) (n : Value) :
    Shows ((ago n unit).text Value.text) [] [] .none := by
  have := (entries_outline.2.2.1 unit h).shows fun _ => n
  simpa [ago, -String.reduceToList] using this

theorem relTime_shows (now ms : Nat) :
    Shows ((relTime now ms).text Value.text) [] [] .none := by
  simp only [relTime]
  split
  · rw [text_lit]
    exact entries_outline.2.2.2.1.lit_shows
  · split
    · exact ago_shows (by simp) _
    · split
      · exact ago_shows (by simp) _
      · exact ago_shows (by simp) _

theorem emptyRoom_shows : Shows ((emptyRoom name).text Value.text) [] [] .none := by
  have := sections_outline.2.2.2.shows fun _ => name
  simpa [emptyRoom, -String.reduceToList] using this

end Templates

namespace View

variable (v : View)

/-- The page of a room. -/
def roomPath (name : String) : List Char := "/r/".toList ++ asValue name.toList

/-- Where the page leads to: the devices view and the pages of rooms. -/
def links : List (List Char) :=
  "/".toList :: (v.navRooms ++
    match v.scope with
    | .devices => v.state.rooms.network.map (·.name)
    | .room _ => []).map roomPath

/-- The verdict on a peer can be turned around. -/
def peerControls : List (Dataset Char) :=
  v.state.peers.map fun peer =>
    ⟨"set-device-trusted".toList, some (asValue peer.id.toList),
      some (if peer.trusted then "false" else "true").toList⟩

/-- An entry can be copied unless it just was. -/
def browserControl (entry : ClipEntry) : List (Dataset Char) :=
  if v.writesText && (v.flash (entry.id ++ ":browser")).isNone then
    [⟨"copy-browser".toList, some (asValue entry.id.toList), none⟩]
  else []

def osControl (entry : ClipEntry) : List (Dataset Char) :=
  if v.state.settings.clipboardAvailable && (v.flash (entry.id ++ ":os")).isNone then
    [⟨"copy-os".toList, some (asValue entry.id.toList), none⟩]
  else []

def entryControls (entry : ClipEntry) : List (Dataset Char) :=
  ⟨"expand".toList, some (asValue entry.id.toList), none⟩ ::
    (v.browserControl entry ++ v.osControl entry)

/-- What can be clicked. -/
def controls : List (Dataset Char) :=
  (if v.ui.newRoomOpen then [] else [⟨"open-new-room".toList, none, none⟩]) ++
    (match v.scope with
      | .devices => v.peerControls
      | .room _ => [⟨"leave-room".toList, none, none⟩]) ++
    v.state.entries.flatMap v.entryControls

section Parts

theorem navHtml_shows :
    Shows (v.navHtml.text Value.text) [] []
      ⟨"/".toList :: v.navRooms.map roomPath,
        if v.ui.newRoomOpen then [] else [⟨"open-new-room".toList, none, none⟩], []⟩ := by
  have hlinks := Shows.flatMap v.navRooms fun name _ =>
    navLink_shows (v.scope.roomName = some name) (.esc name)
  have hroom : Shows (Template.text Value.text
      (if v.ui.newRoomOpen then
        newRoomInput (.esc v.ui.newRoomDraft) (.esc (newRoomPreview v.ui.newRoomDraft))
      else newRoomButton)) [] []
      ⟨[], if v.ui.newRoomOpen then [] else [⟨"open-new-room".toList, none, none⟩], []⟩ := by
    split
    · exact newRoomInput_shows _ _
    · exact newRoomButton_shows
  have := ((navDevices_shows v.scope.isDevices).append hlinks).append hroom
  simpa [navHtml, text_flatMap, List.map_eq_flatMap, roomPath, Value.value, Findings.mk_append,
    -String.reduceToList] using this

theorem peersHtml_shows :
    Shows (v.peersHtml.text Value.text) [] [] ⟨[], v.peerControls, []⟩ := by
  have := Shows.flatMap v.state.peers fun peer _ =>
    peerRow_shows v.state.settings.requirePairing peer.connected peer.online peer.trusted
      (.esc peer.id) (.esc peer.name)
  simpa [peersHtml, peerControls, text_flatMap, List.map_eq_flatMap, Value.value,
    -String.reduceToList] using this

theorem roomsHtml_shows :
    Shows (v.roomsHtml.text Value.text) [] []
      ⟨v.state.rooms.network.map fun room => roomPath room.name, [], []⟩ := by
  have := Shows.flatMap v.state.rooms.network fun room _ =>
    roomRow_shows (room.name ∈ v.state.rooms.joined) (.esc room.name)
      (if room.devices = 1 then none else some (.number room.devices))
  simpa [roomsHtml, text_flatMap, List.map_eq_flatMap, roomPath, Value.value,
    -String.reduceToList] using this

theorem devicesViewHtml_shows :
    Shows (v.devicesViewHtml.text Value.text) [] []
      ⟨v.state.rooms.network.map fun room => roomPath room.name, v.peerControls, []⟩ := by
  have hpeers : Shows (Template.text Value.text
      (if v.state.peers = [] then noPeers else v.peersHtml)) [] [] ⟨[], v.peerControls, []⟩ := by
    split
    · rename_i hnone
      have := peers_outline.2.2.2.2.shows fun _ => .number 0
      rw [peerControls, hnone]
      simpa [noPeers, Findings.none, Findings.fill, -String.reduceToList] using this
    · exact v.peersHtml_shows
  have hrooms : Shows (Template.text Value.text
      (if v.state.rooms.network = [] then noRooms else v.roomsHtml)) [] []
      ⟨v.state.rooms.network.map fun room => roomPath room.name, [], []⟩ := by
    split
    · rename_i hnone
      have := rooms_outline.2.2.2.2.shows fun _ => .number 0
      rw [hnone]
      simpa [noRooms, Findings.none, Findings.fill, -String.reduceToList] using this
    · exact v.roomsHtml_shows
  have hend : Shows "</div>\n  </section>".toList ["div", "section"] [] .none :=
    closings_outline.2.2.2.1.lit_shows
  have hmiddle : Shows ((roomsHead : Template Value).text Value.text) ["div", "section"]
      ["div", "section"] .none := by
    have := rooms_outline.2.2.2.1.shows fun _ => .number 0
    simpa [roomsHead, -String.reduceToList] using this
  have := ((((peers_outline.2.2.2.1.lit_shows).append (hpeers.within ["div", "section"])).append
    hmiddle).append (hrooms.within ["div", "section"])).append hend
  simp only [devicesViewHtml, devicesHead, text_append, text_lit]
  exact this.of_eq (by simp [Findings.mk_append])

theorem roomViewHtml_shows (name : String) :
    Shows ((v.roomViewHtml name).text Value.text) [] []
      ⟨[], [⟨"leave-room".toList, none, none⟩], []⟩ := by
  have hmembers : Shows (Template.text Value.text
      (if v.state.members = [] then noMembers
      else v.state.members.flatMap fun m => memberChip m.connected (.esc m.id) (.esc m.name)))
      [] [] .none := by
    split
    · have := members_outline.2.2.shows fun _ => .number 0
      simpa [noMembers, -String.reduceToList] using this
    · have := Shows.flatMap v.state.members fun m _ =>
        memberChip_shows m.connected (.esc m.id) (.esc m.name)
      simpa [text_flatMap, Findings.none] using this
  have hend : Shows "</div>\n  </section>".toList ["div", "section"] [] .none :=
    closings_outline.2.2.2.1.lit_shows
  have := ((roomHead_shows (.esc name)).append (hmembers.within ["div", "section"])).append hend
  simpa only [roomViewHtml, text_append, text_lit, Findings.append_none] using this

theorem viewHtml_shows :
    Shows (v.viewHtml.text Value.text) [] []
      ⟨match v.scope with
        | .devices => v.state.rooms.network.map fun room => roomPath room.name
        | .room _ => [],
        match v.scope with
        | .devices => v.peerControls
        | .room _ => [⟨"leave-room".toList, none, none⟩], []⟩ := by
  unfold viewHtml
  cases v.scope with
  | devices => exact v.devicesViewHtml_shows
  | room name => exact v.roomViewHtml_shows name

theorem copyButtons_shows (entry : ClipEntry) :
    Shows ((v.copyButtons entry " small").text Value.text) [] []
      ⟨[], v.browserControl entry ++ v.osControl entry, []⟩ := by
  have hbrowser : Shows (Template.text Value.text
      (if v.writesText then
        browserButton " small" (.esc entry.id) ((v.flash (entry.id ++ ":browser")).map .esc)
      else [])) [] [] ⟨[], v.browserControl entry, []⟩ := by
    unfold browserControl
    split
    · rename_i hw
      refine Shows.of_eq (browserButton_shows _ _) ?_
      cases v.flash (entry.id ++ ":browser") <;> simp only [hw] <;> rfl
    · rename_i hw
      rw [Bool.not_eq_true] at hw
      rw [hw]
      exact .nil
  have hos : Shows ((osButton " small" v.state.settings.clipboardAvailable (.esc entry.id)
      ((v.flash (entry.id ++ ":os")).map .esc)).text Value.text) [] []
      ⟨[], v.osControl entry, []⟩ := by
    refine Shows.of_eq (osButton_shows _ _ _) ?_
    unfold osControl
    cases v.flash (entry.id ++ ":os") <;> cases v.state.settings.clipboardAvailable <;> rfl
  rw [copyButtons, text_append]
  exact hbrowser.append hos

theorem entryFoot_shows (entry : ClipEntry) :
    Shows ((v.entryFoot entry " small").text Value.text) [] []
      ⟨[], v.browserControl entry ++ v.osControl entry, []⟩ := by
  have hage := (relTime_shows v.now entry.createdAtMs).within ["span", "div"]
  have hbuttons := (v.copyButtons_shows entry).within ["div"]
  have := ((((entryDevice_shows (.esc entry.deviceName)).append hage).append spanEnd_shows).append
    hbuttons).append divEnd_shows
  simpa only [entryFoot, text_append, text_lit, Findings.none_append, Findings.append_none] using
    this

theorem entryArticle_shows (entry : ClipEntry) :
    Shows ((v.entryArticle entry).text Value.text) [] []
      ⟨[], v.entryControls entry, [asText entry.text.toList]⟩ := by
  have hfoot := (v.entryFoot_shows entry).within ["article"]
  have hend : Shows "\n  </article>".toList ["article"] [] .none :=
    closings_outline.2.2.1.lit_shows
  rw [entryArticle, text_append, text_append, text_lit]
  exact (((entryBody_shows _ _ _ _).append hfoot).append hend).of_eq
    (by rw [Findings.append_none]; rfl)

/-- The entries, in a section that is given by its first tags. -/
theorem section_shows {first : String}
    (hfirst : Outlines (lit first : Template Unit) [] ["div", "section"] .none) :
    Shows ((lit first ++ v.state.entries.flatMap v.entryArticle ++ lit "</div></section>").text
      Value.text) [] [] ⟨[], v.state.entries.flatMap v.entryControls,
        v.state.entries.map fun entry => asText entry.text.toList⟩ := by
  have hentries := Shows.flatMap v.state.entries fun entry _ =>
    v.entryArticle_shows entry
  have hend : Shows "</div></section>".toList ["div", "section"] [] .none :=
    closings_outline.2.2.2.2.lit_shows
  rw [text_append, text_append, text_lit, text_lit, text_flatMap]
  exact ((hfirst.lit_shows.append (hentries.within ["div", "section"])).append hend).of_eq
    (by simp [List.map_eq_flatMap])

theorem entriesHtml_shows :
    Shows (v.entriesHtml.text Value.text) [] []
      ⟨[], v.state.entries.flatMap v.entryControls,
        v.state.entries.map fun entry => asText entry.text.toList⟩ := by
  unfold entriesHtml
  cases v.scope with
  | devices =>
    simp only [devicesEntriesHtml]
    split
    · rename_i hnone
      have := sections_outline.2.1.shows fun _ => .number 0
      rw [hnone]
      simpa [emptyClip, Findings.none, Findings.fill, -String.reduceToList] using this
    · exact v.section_shows sections_outline.1
  | room name =>
    simp only [roomEntriesHtml]
    split
    · rename_i hnone
      rw [hnone]
      exact emptyRoom_shows _
    · exact v.section_shows sections_outline.2.2.1

end Parts

/-- What a browser finds on the page, whatever the state says: elements and attributes of the
page's own, properly nested, with the links, the controls and the texts that belong there. -/
theorem page_reads : ∃ parts, v.render.mapM Html.read = some parts ∧
    (∀ ts ∈ parts, (∀ t ∈ ts, Own t) ∧ ts.foldlM nest [] = some []) ∧
    parts.flatten.filterMap link = v.links ∧
    parts.flatten.filterMap control = v.controls ∧
    (parts.flatMap fun ts => (contents "p" none ts).2) =
      v.state.entries.map fun entry => asText entry.text.toList := by
  obtain ⟨nav, hnav, hn⟩ := v.navHtml_shows
  obtain ⟨view, hview, hv⟩ := v.viewHtml_shows
  obtain ⟨entries, hentries, he⟩ := v.entriesHtml_shows
  refine ⟨[nav, view, entries], ?_, ?_, ?_, ?_, ?_⟩
  · simp [render, hnav.read, hview.read, hentries.read]
  · intro ts hts
    simp only [List.mem_cons, List.not_mem_nil, or_false] at hts
    rcases hts with rfl | rfl | rfl
    · exact ⟨hn.own, hn.nested⟩
    · exact ⟨hv.own, hv.nested⟩
    · exact ⟨he.own, he.nested⟩
  · simp only [List.flatten_cons, List.flatten_nil, List.append_nil, List.filterMap_append,
      hn.links, hv.links, he.links, links, List.map_append]
    cases v.scope <;> simp [Function.comp_def]
  · simp only [List.flatten_cons, List.flatten_nil, List.append_nil, List.filterMap_append,
      hn.controls, hv.controls, he.controls, controls, List.append_assoc]
  · simp [hn.paragraphs, hv.paragraphs, he.paragraphs]

end View

end Page

end Yoink
