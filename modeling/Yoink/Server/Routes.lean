import Yoink.Core.RoomName
import Yoink.Discovery.Browse

/-!
# Routes of the page

Which handler answers a GET request, and what it answers. Every room has one URL: the page is
served under the canonical name only, any other name redirects to it. Percent-decoding of a
captured segment is a parameter; `none` is a segment that does not decode.
-/

namespace Yoink

namespace IpAddr

/-- `127.0.0.0/8`. -/
def isLoopbackV4 (bits : BitVec 32) : Bool := bits.extractLsb' 24 8 = 127

/-- Also `::1` and the IPv4-mapped form. -/
def isLoopback : IpAddr → Bool
  | .v4 bits => isLoopbackV4 bits
  | .v6 bits => bits = 1 ||
      (bits.extractLsb' 32 96 = 0xffff && isLoopbackV4 (bits.extractLsb' 0 32))

end IpAddr

namespace Server

/-- The handlers that serve no page. -/
inductive Endpoint where
  | idiomorphJs
  | apiState
  | wsUi
  | sync
  deriving DecidableEq, Repr

inductive Response where
  /-- The embedded page. -/
  | html
  /-- `Redirect::temporary`. -/
  | redirect (location : String)
  | endpoint (endpoint : Endpoint)
  | badRequest
  | forbidden
  | notFound
  | methodNotAllowed
  deriving DecidableEq, Repr

/-- Single-segment paths that are never a room shorthand. -/
def reservedPaths : List String := ["api", "ws", "sync", "r", "assets", "favicon.ico"]

/-- `/r/{name}`: the page, but only under the canonical name. -/
def roomPage (name : String) : Response :=
  match sanitizeRoomName name with
  | some clean => if clean = name then .html else .redirect ("/r/" ++ clean)
  | none => .redirect "/"

/-- `/{word}`: almost certainly meant as a room name. -/
def bareRoomRedirect (word : String) : Response :=
  if word ∈ reservedPaths then .notFound
  else
    match sanitizeRoomName word with
    | some clean => .redirect ("/r/" ++ clean)
    | none => .redirect "/"

/-- The segments of a path, as they stand between the slashes. -/
def segments (path : String) : List String :=
  (path.toList.splitOn '/').tail.map String.ofList

section Router

variable (decode : String → Option String)

/-- The handler of a captured segment, which is not empty. -/
def capture (handler : String → Response) (segment : String) : Response :=
  if segment = "" then .notFound
  else
    match decode segment with
    | some value => handler value
    | none => .badRequest

/-- A static segment wins over a capture. -/
def route (path : String) : Response :=
  match segments path with
  | [word] =>
    if word = "" then .html
    else if word = "sync" then .endpoint .sync
    else capture decode bareRoomRedirect word
  | [first, second] =>
    if first = "r" then capture decode roomPage second
    else if first = "assets" ∧ second = "idiomorph.js" then .endpoint .idiomorphJs
    else if first = "api" ∧ second = "state" then .endpoint .apiState
    else if first = "api" ∧ second = "command" then .methodNotAllowed
    else if first = "ws" ∧ second = "ui" then .endpoint .wsUi
    else .notFound
  | _ => .notFound

/-- `require_loopback`; a missing peer address rejects, too. -/
def requireLoopback (peer : Option IpAddr) (next : Response) : Response :=
  if peer.any IpAddr.isLoopback then next else .forbidden

/-- The whole router: everything but `/sync` is behind the guard. -/
def router (peer : Option IpAddr) (path : String) : Response :=
  if segments path = ["sync"] then route decode path else requireLoopback peer (route decode path)

/-- A client that follows up to `n` redirects. -/
def follow (peer : Option IpAddr) : Nat → String → Response
  | 0, path => router decode peer path
  | n + 1, path =>
    match router decode peer path with
    | .redirect location => follow peer n location
    | response => response

/-- An unreserved `/{word}` or any `/r/{name}`. -/
def RoomPath (path : String) : Prop :=
  (∃ segment word, segments path = [segment] ∧ segment ≠ "" ∧ decode segment = some word ∧
    word ∉ reservedPaths) ∨
  ∃ segment name, segments path = ["r", segment] ∧ segment ≠ "" ∧ decode segment = some name

end Router

section Redirects

variable {decode : String → Option String} {peer : Option IpAddr} {path : String}

theorem segments_room {name : String} (h : '/' ∉ name.toList) :
    segments ("/r/" ++ name) = ["r", name] := by
  have hsplit : ("/r/" ++ name).toList.splitOn '/' = [[], ['r'], name.toList] := by
    rw [String.toList_append]
    change ([] ++ '/' :: (['r'] ++ '/' :: name.toList)).splitOn '/' = _
    rw [List.splitOn_append_cons_self_of_not_mem (by simp),
      List.splitOn_append_cons_self_of_not_mem (by decide), List.splitOn_eq_singleton h]
  rw [segments, hsplit]
  simp

/-- No character of a canonical name has a meaning in a URL. -/
theorem not_mem_of_canonical {name : String} (h : Canonical name) {c : Char} (hc : c ≠ '-')
    (halnum : c.isAlphanum = false) : c ∉ name.toList := by
  intro hmem
  obtain rfl | hchar := (roomName_of_sanitize h).chars c hmem
  · exact hc rfl
  · rw [hchar.1] at halnum
    cases halnum

/-- The canonical URL of a room is served. -/
theorem route_canonical (hdecode : ∀ s, '%' ∉ s.toList → decode s = some s) {name : String}
    (h : Canonical name) : route decode ("/r/" ++ name) = .html := by
  have hne : name ≠ "" := by
    rintro rfl
    exact (roomName_of_sanitize h).nonempty rfl
  have hseg := segments_room (not_mem_of_canonical h (by decide : '/' ≠ '-') (by decide))
  have hdec := hdecode name (not_mem_of_canonical h (by decide) (by decide))
  have hclean : sanitizeRoomName name = some name := h
  simp [route, hseg, capture, hne, hdec, roomPage, hclean]

theorem route_root : route decode "/" = .html := by
  have hseg : segments "/" = [""] := by decide
  simp [route, hseg]

/-- A path meant as a room is served, or redirects to a path that is. -/
theorem route_roomPath (hdecode : ∀ s, '%' ∉ s.toList → decode s = some s)
    (h : RoomPath decode path) : route decode path = .html ∨
      ∃ location, route decode path = .redirect location ∧ route decode location = .html ∧
        segments location ≠ ["sync"] := by
  have target (input : String) : ∃ location,
      (match sanitizeRoomName input with
        | some clean => Response.redirect ("/r/" ++ clean)
        | none => .redirect "/") = .redirect location ∧
      route decode location = .html ∧ segments location ≠ ["sync"] := by
    cases hclean : sanitizeRoomName input with
    | none => exact ⟨"/", rfl, route_root, by decide⟩
    | some clean =>
      have hcan := canonical_of_sanitize hclean
      refine ⟨_, rfl, route_canonical hdecode hcan, ?_⟩
      rw [segments_room (not_mem_of_canonical hcan (by decide) (by decide))]
      simp
  obtain ⟨segment, word, hseg, hne, hdec, hres⟩ | ⟨segment, name, hseg, hne, hdec⟩ := h
  · have hsync : segment ≠ "sync" := by
      rintro rfl
      rw [hdecode "sync" (by decide)] at hdec
      obtain rfl := Option.some.inj hdec
      exact hres (by decide)
    have hroute : route decode path = bareRoomRedirect word := by
      simp [route, hseg, hne, hsync, capture, hdec]
    rw [hroute, bareRoomRedirect, if_neg hres]
    exact .inr (target word)
  · have hroute : route decode path = roomPage name := by
      simp [route, hseg, capture, hne, hdec]
    rw [hroute, roomPage]
    cases hclean : sanitizeRoomName name with
    | none => exact .inr (by simpa [hclean] using target name)
    | some clean =>
      simp only
      split
      · exact .inl rfl
      · exact .inr (by simpa [hclean] using target name)

theorem not_sync_of_roomPath (hdecode : ∀ s, '%' ∉ s.toList → decode s = some s)
    (h : RoomPath decode path) : segments path ≠ ["sync"] := by
  obtain ⟨segment, word, hseg, -, hdec, hres⟩ | ⟨segment, name, hseg, -, -⟩ := h
  · rw [hseg]
    rintro hsync
    obtain rfl := (List.cons.inj hsync).1
    rw [hdecode "sync" (by decide)] at hdec
    obtain rfl := Option.some.inj hdec
    exact hres (by decide)
  · simp [hseg]

/-- Whoever passes the guard ends at the page after at most one redirect; nobody else is
redirected at all. -/
theorem follow_roomPath (hdecode : ∀ s, '%' ∉ s.toList → decode s = some s)
    (h : RoomPath decode path) (peer : Option IpAddr) : follow decode peer 1 path =
      if peer.any IpAddr.isLoopback then .html else .forbidden := by
  have hsync := not_sync_of_roomPath hdecode h
  by_cases hpeer : peer.any IpAddr.isLoopback = true
  · have hrouter (path : String) (hns : segments path ≠ ["sync"]) :
        router decode peer path = route decode path := by
      simp [router, hns, requireLoopback, hpeer]
    obtain hpage | ⟨location, hloc, hpage, hns⟩ := route_roomPath hdecode h
    · simp [follow, hrouter path hsync, hpage, hpeer]
    · simp [follow, hrouter path hsync, hloc, hrouter location hns, hpage, hpeer]
  · simp [follow, router, hsync, requireLoopback, hpeer]

/-- Room names are canonical for any input, and so every room URL leads to a page. -/
theorem roomNames_canonical (hdecode : ∀ s, '%' ∉ s.toList → decode s = some s) :
    (∀ input, sanitizeRoomName input = none ↔ ∀ c ∈ input.toList, c.isAlphanum = false) ∧
    (∀ input name, sanitizeRoomName input = some name →
      name ≠ "" ∧ name.length ≤ maxRoomNameLen ∧
      (∀ c ∈ name.toList, ('a' ≤ c ∧ c ≤ 'z') ∨ ('0' ≤ c ∧ c ≤ '9') ∨ c = '-') ∧
      name.toList.head? ≠ some '-' ∧ name.toList.getLast? ≠ some '-' ∧
      ¬ ['-', '-'] <:+: name.toList) ∧
    (∀ name : String, name ≠ "" ∧ name.length ≤ maxRoomNameLen ∧
      (∀ c ∈ name.toList, ('a' ≤ c ∧ c ≤ 'z') ∨ ('0' ≤ c ∧ c ≤ '9') ∨ c = '-') ∧
      name.toList.head? ≠ some '-' ∧ name.toList.getLast? ≠ some '-' ∧
      ¬ ['-', '-'] <:+: name.toList → sanitizeRoomName name = some name) ∧
    (∀ input name, sanitizeRoomName input = some name → sanitizeRoomName name = some name) ∧
    (∀ name, (∃ input, sanitizeRoomName input = some name) ↔ sanitizeRoomName name = some name) ∧
    ∀ peer path, RoomPath decode path → follow decode peer 1 path =
      if peer.any IpAddr.isLoopback then .html else .forbidden := by
  refine ⟨fun input => sanitizeRoomName_eq_none,
    fun input name h => roomName_iff.mp (roomName_of_sanitize h),
    fun name h => (roomName_iff.mpr h).canonical, fun input name h => canonical_of_sanitize h,
    fun name => ⟨fun ⟨input, h⟩ => canonical_of_sanitize h, fun h => ⟨name, h⟩⟩,
    fun peer path h => follow_roomPath hdecode h peer⟩

/-- A segment without escapes is taken as it is. -/
def plain (segment : String) : Option String :=
  if '%' ∈ segment.toList then none else some segment

theorem roomNames_canonical_plain : follow plain (some (.v4 0x7f000001)) 1 "/r/ATTIC" = .html := by
  have hdecode : ∀ s, '%' ∉ s.toList → plain s = some s := fun s hs => if_neg hs
  have hpath : RoomPath plain "/r/ATTIC" :=
    .inr ⟨"ATTIC", "ATTIC", by decide, by decide, by decide⟩
  have := (roomNames_canonical hdecode).2.2.2.2.2 (some (.v4 0x7f000001)) "/r/ATTIC" hpath
  rw [this]
  decide

end Redirects

end Server

end Yoink
