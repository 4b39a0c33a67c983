import Yoink.Library.Html
import Yoink.Server.Page
import Yoink.Server.StateJson

/-!
# The page's markup

The functions of the page that turn the state the server pushes into markup. Each template is
written for any type of values: it says where a value stands and never looks at it. The values
are escaped, or numbers.
-/

namespace Yoink

namespace Page

open Html Html.Template

/-- The replacements of `esc`. -/
def escapeChar (c : Char) : List Char :=
  if c = '&' then "&amp;".toList
  else if c = '<' then "&lt;".toList
  else if c = '>' then "&gt;".toList
  else if c = '"' then "&quot;".toList
  else if c = '\'' then "&#39;".toList
  else [c]

def esc (value : String) : List Char := value.toList.flatMap escapeChar

/-- What stands in a template literal between `$` and braces. -/
inductive Value where
  | esc (value : String)
  /-- Numbers are not escaped. -/
  | number (n : Nat)
  deriving DecidableEq, Repr

def Value.value : Value → List Char
  | .esc v => v.toList
  | .number n => Nat.toDigits 10 n

def Value.text : Value → List Char
  | .esc v => Page.esc v
  | .number n => Nat.toDigits 10 n

section Templates

variable {α : Type}

/-- The link to a joined room in `navHtml`. -/
def navLink (active : Bool) (name : α) : Template α :=
  lit "<a class=\"pill " ++ lit (if active then "active" else "") ++ lit "\" id=\"nav-room-" ++
    hole name ++ lit "\" href=\"/r/" ++ hole name ++
    lit "\"><span class=\"pill-hash\">#</span>" ++ hole name ++ lit "</a>"

/-- The input of a new room, and its preview. -/
def newRoomInput (draft preview : α) : Template α :=
  lit "<span class=\"pill pill-input\" id=\"nav-new-room\"><span class=\"pill-hash\">#</span>" ++
    lit "<input id=\"new-room-input\" value=\"" ++ hole draft ++
    lit "\" placeholder=\"room-name\" spellcheck=\"false\" autocomplete=\"off\"" ++
    lit " maxlength=\"64\" aria-label=\"New room name\"></span>" ++
    lit "<span class=\"pill-preview\" id=\"new-room-preview\">" ++ hole preview ++ lit "</span>"

def newRoomButton : Template α :=
  lit "<button class=\"pill pill-new\" id=\"nav-add-room\" data-action=\"open-new-room\"" ++
    lit " title=\"Open a room by name — anyone on this network can join it\">+ room</button>"

/-- The first link of `navHtml`. -/
def navDevices (active : Bool) : Template α :=
  lit "<a class=\"pill " ++ lit (if active then "active" else "") ++
    lit "\" id=\"nav-devices\" href=\"/\">Devices</a>"

/-- A button that turns the verdict on a peer to `trusted`. -/
def peerButton (classes trusted title label : String) (id : α) : Template α :=
  lit "<button class=\"" ++ lit classes ++
    lit "\" data-action=\"set-device-trusted\" data-id=\"" ++ hole id ++
    lit "\" data-trusted=\"" ++ lit trusted ++ lit "\" title=\"" ++ lit title ++ lit "\">" ++
    lit label ++ lit "</button>"

/-- The control of a `peerRow`. -/
def peerControl : (pairing trusted : Bool) → (id : α) → Template α
  | true, true => peerButton "btn quiet small" "false" "Stop sharing with this device" "Unpair"
  | true, false =>
    peerButton "btn primary small" "true" "Pair with this device to share clipboards" "Pair"
  | false, true =>
    peerButton "btn quiet small" "false" "Block this device from sharing with you" "Block"
  | false, false =>
    peerButton "btn small" "true" "Unblock this device so it can share with you" "Unblock"

/-- A `peerRow` up to the text of its status. -/
def peerHead (status : String) (id name : α) : Template α :=
  lit "<div class=\"row\" id=\"peer-" ++ hole id ++ lit "\">\n    <span class=\"dot " ++
    lit status ++ lit "\"></span>\n    <div class=\"grow\"><div class=\"peer-name\" title=\"" ++
    hole id ++ lit "\">" ++ hole name ++
    lit "</div></div>\n    <span class=\"peer-status\">"

def peerRow (pairing connected online trusted : Bool) (id name : α) : Template α :=
  let status := if connected then "connected" else if online then "online" else "offline"
  -- There is nothing to escape in these.
  let statusText := if pairing || trusted then status else "blocked"
  peerHead status id name ++ lit statusText ++ lit "</span>\n    " ++
    peerControl pairing trusted id ++ lit "\n  </div>"

/-- A `roomRow` up to its count. -/
def roomRowHead (name : α) : Template α :=
  lit "<div class=\"row\" id=\"room-" ++ hole name ++
    lit "\">\n    <span class=\"room-hash\">#</span>\n    " ++
    lit "<div class=\"grow\"><span class=\"room-name\">" ++ hole name ++
    lit "</span></div>\n    <span class=\"room-count\">"

/-- The link of a `roomRow`. -/
def roomAction (joined : Bool) (name : α) : Template α :=
  if joined then
    lit "<a class=\"joined-chip\" href=\"/r/" ++ hole name ++
      lit "\" title=\"You're in this room — open it\">&#10003; joined</a>"
  else
    lit "<a class=\"btn small\" href=\"/r/" ++ hole name ++ lit "\" title=\"Join #" ++
      hole name ++ lit "\">Join</a>"

/-- With the number of devices unless it is one. -/
def roomCount : Option α → Template α
  | none => lit "1 device"
  | some n => hole n ++ lit " devices"

def roomRow (joined : Bool) (name : α) (count : Option α) : Template α :=
  roomRowHead name ++ roomCount count ++ lit "</span>\n    " ++ roomAction joined name ++
    lit "\n  </div>"

/-- The devices view up to its rows. -/
def devicesHead : Template α :=
  lit "<section id=\"sec-devices\">\n    <h2>Devices</h2>\n    <div class=\"card\">"

/-- From the rows of the peers to those of the rooms. -/
def roomsHead : Template α :=
  lit "</div>\n  </section>\n  <section id=\"sec-rooms\">\n    " ++
    lit "<h2>Rooms on this network</h2>\n    <div class=\"card\">"

def noPeers : Template α :=
  lit "<div class=\"empty\">No other devices yet. Run yoink on another machine on this network" ++
    lit " and it shows up here.</div>"

def noRooms : Template α :=
  lit "<div class=\"empty\">No rooms yet. Hit &ldquo;+ room&rdquo; above to open one &mdash;" ++
    lit " anyone nearby can join.</div>"

/-- A member in `roomViewHtml`. -/
def memberChip (connected : Bool) (id name : α) : Template α :=
  let cls := if connected then "connected" else "online"
  let title := if connected then "Connected to this room"
    else "On this network, advertising this room"
  lit "<span class=\"member-chip\" id=\"member-" ++ hole id ++ lit "\" title=\"" ++ lit title ++
    lit "\"><span class=\"dot mini " ++ lit cls ++ lit "\"></span>" ++ hole name ++ lit "</span>"

def noMembers : Template α :=
  lit "<span class=\"member-hint\">Just you in here so far. Tell someone the room name &mdash;" ++
    lit " visiting the URL is joining.</span>"

/-- The title of a room, and the button to leave it. -/
def roomHead (name : α) : Template α :=
  lit "<section class=\"room-head\" id=\"sec-room\">\n    <div class=\"room-title-row\">\n      " ++
    lit "<h2 class=\"room-title\"><span class=\"room-hash\">#</span>" ++ hole name ++
    lit "</h2>\n      <button class=\"btn quiet\" data-action=\"leave-room\" title=\"Leave this" ++
    lit " room on this device; it keeps living wherever someone still has it open\">" ++
    lit "Leave room</button>\n    </div>\n    <div class=\"member-chips\">"

def clipHead : Template α :=
  lit "<section id=\"sec-clip\"><h2>Shared</h2><div class=\"card\">"

def emptyClip : Template α :=
  lit "<section id=\"sec-clip\"><h2>Shared</h2><div class=\"card\"><div class=\"empty\">Nothing" ++
    lit " shared yet. Paste something above and hit Share.</div></div></section>"

def feedHead : Template α := lit "<section id=\"sec-feed\"><div class=\"card\">"

/-- The entries of a room that has none. -/
def emptyRoom (name : α) : Template α :=
  lit "<section id=\"sec-feed\"><div class=\"card\"><div class=\"empty\">Nothing in #" ++
    hole name ++ lit " yet. Paste something above and hit Share.</div></div></section>"

/-- With the label of a flash. -/
def browserButton (size : String) (id : α) (flash : Option α) : Template α :=
  lit "<button class=\"btn" ++ lit size ++ lit (if flash.isSome then " flash" else "") ++
    lit "\" data-action=\"copy-browser\" data-id=\"" ++ hole id ++ lit "\"" ++
    lit (if flash.isSome then " disabled" else "") ++
    lit " title=\"Copy with this browser's clipboard\">" ++
    (match flash with
      | some label => hole label
      | none => lit "Copy in browser") ++
    lit "</button>"

def osButton (size : String) (clipboardOk : Bool) (id : α) (flash : Option α) : Template α :=
  let osTitle := if clipboardOk then "Put this on this device's clipboard"
    else "This device has no reachable OS clipboard"
  lit "<button class=\"btn" ++ lit size ++ lit " primary" ++
    lit (if flash.isSome then " flash" else "") ++
    lit "\" data-action=\"copy-os\" data-id=\"" ++ hole id ++ lit "\"" ++
    lit (if flash.isSome || !clipboardOk then " disabled" else "") ++ lit " title=\"" ++
    lit osTitle ++ lit "\">" ++
    (match flash with
      | some label => hole label
      | none => lit "Copy") ++
    lit "</button>"

/-- An entry up to its footer. -/
def entryBody (isNew isExpanded : Bool) (id text : α) : Template α :=
  lit "<article class=\"entry" ++ lit (if isNew then " entry-new" else "") ++
    lit "\" id=\"entry-" ++ hole id ++ lit "\">\n    <p class=\"entry-text" ++
    lit (if isExpanded then " expanded" else "") ++
    lit "\" data-action=\"expand\" data-id=\"" ++ hole id ++ lit "\" title=\"Click to " ++
    lit (if isExpanded then "collapse" else "expand") ++ lit "\">" ++ hole text ++ lit "</p>\n    "

/-- The footer up to the age of the entry. -/
def entryDevice (deviceName : α) : Template α :=
  lit "<div class=\"entry-foot\">\n    <span class=\"entry-meta\"><span class=\"entry-device\">" ++
    hole deviceName ++ lit "</span> &middot; "

/-- What `relTime` says when it counts. -/
def ago (n : α) (unit : String) : Template α := hole n ++ lit unit

end Templates

/-- What the page keeps beside the state. -/
structure Ui where
  firstRender : Bool
  newRoomOpen : Bool
  newRoomDraft : String
  /-- Ids of the entries that are shown in full. -/
  expanded : Finset String
  /-- Labels by entry and kind of copy. -/
  flashes : FinMap String String
  /-- Ids of the entries that were rendered before. -/
  seenEntries : Finset String

/-- Everything the rendering reads. -/
structure View where
  /-- `SCOPE`. -/
  scope : Scope
  state : StateJson
  ui : Ui
  /-- `Date.now()`. -/
  now : Nat
  /-- `navigator.clipboard.writeText` is there. -/
  writesText : Bool

def relTime (now ms : Nat) : Template Value :=
  let diff := (now : Int) - ms
  if diff < 45000 then lit "just now"
  else
    let mins := max 1 (diff.toNat / 60000)
    let hours := mins / 60
    if mins < 60 then ago (.number mins) "m ago"
    else if hours < 24 then ago (.number hours) "h ago"
    else ago (.number (hours / 24)) "d ago"

/-- A string of units that are characters by themselves. -/
def ofUnits (s : JsString) : String := .ofList (s.map fun u => .ofNat u.toNat)

def newRoomPreview (draft : String) : String :=
  match sanitizeRoom (Utf16.encode draft.toList) with
  | some name => "↵ opens /r/" ++ ofUnits name
  | none => ""

namespace View

variable (v : View)

/-- The rooms of `navHtml`: the joined ones, and the one the page is about, as visiting is
joining. They are sorted by code units. -/
def navRooms : List String :=
  let joined := v.state.rooms.joined ++ v.scope.roomName.toList
  SortedList.sortOn (fun name => (Utf16.encode name.toList).map UInt16.toNat) joined.dedup

def navHtml : Template Value :=
  navDevices v.scope.isDevices ++
    v.navRooms.flatMap (fun name => navLink (v.scope.roomName = some name) (.esc name)) ++
    (if v.ui.newRoomOpen then
      newRoomInput (.esc v.ui.newRoomDraft) (.esc (newRoomPreview v.ui.newRoomDraft))
    else newRoomButton)

def peersHtml : Template Value :=
  v.state.peers.flatMap fun peer =>
    peerRow v.state.settings.requirePairing peer.connected peer.online peer.trusted (.esc peer.id)
      (.esc peer.name)

def roomsHtml : Template Value :=
  v.state.rooms.network.flatMap fun room =>
    roomRow (room.name ∈ v.state.rooms.joined) (.esc room.name)
      (if room.devices = 1 then none else some (.number room.devices))

def devicesViewHtml : Template Value :=
  devicesHead ++ (if v.state.peers = [] then noPeers else v.peersHtml) ++ roomsHead ++
    (if v.state.rooms.network = [] then noRooms else v.roomsHtml) ++ lit "</div>\n  </section>"

def roomViewHtml (name : String) : Template Value :=
  roomHead (.esc name) ++
    (if v.state.members = [] then noMembers
    else v.state.members.flatMap fun m => memberChip m.connected (.esc m.id) (.esc m.name)) ++
    lit "</div>\n  </section>"

/-- A label that is set, and not empty. -/
def flash (key : String) : Option String := (v.ui.flashes.lookup key).filter (· ≠ "")

def copyButtons (entry : ClipEntry) (size : String) : Template Value :=
  (if v.writesText then
    browserButton size (.esc entry.id) ((v.flash (entry.id ++ ":browser")).map .esc)
  else []) ++
    osButton size v.state.settings.clipboardAvailable (.esc entry.id)
      ((v.flash (entry.id ++ ":os")).map .esc)

def entryFoot (entry : ClipEntry) (size : String) : Template Value :=
  entryDevice (.esc entry.deviceName) ++ relTime v.now entry.createdAtMs ++ lit "</span>\n    " ++
    v.copyButtons entry size ++ lit "\n  </div>"

def entryArticle (entry : ClipEntry) : Template Value :=
  entryBody (!v.ui.firstRender && entry.id ∉ v.ui.seenEntries) (entry.id ∈ v.ui.expanded)
      (.esc entry.id) (.esc entry.text) ++
    v.entryFoot entry " small" ++ lit "\n  </article>"

def devicesEntriesHtml : Template Value :=
  if v.state.entries = [] then emptyClip
  else clipHead ++ v.state.entries.flatMap v.entryArticle ++ lit "</div></section>"

def roomEntriesHtml (name : String) : Template Value :=
  if v.state.entries = [] then emptyRoom (.esc name)
  else feedHead ++ v.state.entries.flatMap v.entryArticle ++ lit "</div></section>"

def entriesHtml : Template Value :=
  match v.scope with
  | .devices => v.devicesEntriesHtml
  | .room name => v.roomEntriesHtml name

def viewHtml : Template Value :=
  match v.scope with
  | .devices => v.devicesViewHtml
  | .room name => v.roomViewHtml name

/-- The three strings that `render` hands to `morph`. -/
def render : List (List Char) :=
  [v.navHtml, v.viewHtml, v.entriesHtml].map (Template.text Value.text)

end View

end Page

end Yoink
