import Yoink.Server.Commands
import Yoink.Server.Routes
import Yoink.Sync.Wire

/-!
# Requests

What becomes of a request once it is routed: a response at once, a command for the app loop, the
state of a scope, or a socket. Everything but `/sync` is behind the guard, refusals included. A
scope that is asked for must parse, as falling back to `devices` could leak personal history to a
page that asked for a room.
-/

namespace Yoink

namespace Server

inductive Method where
  | get
  | post
  /-- Any other but `HEAD`. -/
  | other
  deriving DecidableEq, Repr

structure Request where
  /-- `ConnectInfo`. -/
  peer : Option IpAddr
  method : Method
  path : String
  query : Option String
  /-- It is a WebSocket handshake. -/
  upgrade : Bool
  /-- `none` is a body that is too long or breaks off. -/
  body : Option Bytes
  deriving DecidableEq, Repr

/-- Why a request is refused before a handler does its work. -/
inductive Rejection where
  | query
  | scope (e : InvalidScope)
  | upgrade
  | body
  | syntaxError
  | command (e : RecordError AppCommand.FieldError)
  deriving DecidableEq, Repr

inductive Answer where
  | done (response : Response)
  | rejected (reason : Rejection)
  /-- `api_command` sends the command, and answers 202 when the channel has taken it. -/
  | enqueue (command : AppCommand)
  /-- `api_state`. -/
  | state (scope : Scope)
  /-- `ws_ui`: the connection is upgraded, and `ui_socket` runs. -/
  | ui (scope : Scope)
  /-- The connection is upgraded and handed to `handle_inbound`. -/
  | sync
  deriving DecidableEq, Repr

/-- What the handlers use of their libraries. -/
structure Extractors where
  /-- Percent-decoding of a path segment. -/
  decode : String → Option String
  /-- `Query<ScopeQuery>`: the scope a query string asks for, unless it is rejected. -/
  scopeQuery : Option String → Option (Option String)
  json : SerdeJson

/-- A missing scope is the devices view; anything present must parse. -/
def parseScope : Option String → Except InvalidScope Scope
  | none => .ok .devices
  | some raw => Scope.parse raw

section Handlers

variable (web : Extractors)

def apiState (r : Request) : Answer :=
  match web.scopeQuery r.query with
  | none => .rejected .query
  | some raw =>
    match parseScope raw with
    | .ok scope => .state scope
    | .error e => .rejected (.scope e)

def wsUi (r : Request) : Answer :=
  match web.scopeQuery r.query with
  | none => .rejected .query
  | some raw =>
    if r.upgrade then
      match parseScope raw with
      | .ok scope => .ui scope
      | .error e => .rejected (.scope e)
    else .rejected .upgrade

/-- Parses the body by hand: any malformed input is a 400. -/
def apiCommand (r : Request) : Answer :=
  match r.body with
  | none => .rejected .body
  | some bytes =>
    match web.json.fromSlice bytes with
    | none => .rejected .syntaxError
    | some value =>
      match AppCommand.deserialize value with
      | .ok command => .enqueue command
      | .error e => .rejected (.command e)

def get (r : Request) : Answer :=
  match route web.decode r.path with
  | .endpoint .apiState => apiState web r
  | .endpoint .wsUi => wsUi web r
  | .endpoint .sync => if r.upgrade then .sync else .rejected .upgrade
  | response => .done response

/-- Some route has the path, if not the method. -/
def claimed (path : String) : Bool :=
  match segments path with
  | [_] => true
  | [first, second] =>
    (first = "r" && second ≠ "") || (first = "assets" && second = "idiomorph.js") ||
      (first = "api" && (second = "state" || second = "command")) ||
      (first = "ws" && second = "ui")
  | _ => false

def otherMethod (r : Request) : Answer :=
  .done (if claimed r.path then .methodNotAllowed else .notFound)

/-- The router, without the guard. -/
def dispatch (r : Request) : Answer :=
  match r.method with
  | .get => get web r
  | .post => if segments r.path = ["api", "command"] then apiCommand web r else otherMethod r
  | .other => otherMethod r

/-- The whole server. -/
def answer (r : Request) : Answer :=
  if segments r.path = ["sync"] ∨ r.peer.any IpAddr.isLoopback then dispatch web r
  else .done .forbidden

end Handlers

/-- A local client asks for this scope, by its string or, for `devices`, by leaving it out. -/
def Asks (web : Extractors) (r : Request) (scope : Scope) : Prop :=
  r.method = .get ∧ r.peer.any IpAddr.isLoopback = true ∧
    ((web.scopeQuery r.query = some none ∧ scope = .devices) ∨
      (web.scopeQuery r.query = some (some scope.toString) ∧ scope.WellNamed))

section Answers

variable {web : Extractors} {r : Request}

/-- A GET gets what the router of pages says, if that is not the business of a handler. -/
theorem answer_get (hget : r.method = .get) {response : Response}
    (h : router web.decode r.peer r.path = response) (hpage : ∀ e, response ≠ .endpoint e) :
    answer web r = .done response := by
  subst h
  unfold answer
  by_cases hsync : segments r.path = ["sync"]
  · -- `/sync` is an endpoint.
    have hroute : router web.decode r.peer r.path = .endpoint .sync := by
      simp [router, route, hsync]
    exact absurd hroute (hpage _)
  · by_cases hpeer : r.peer.any IpAddr.isLoopback = true
    · have hroute : router web.decode r.peer r.path = route web.decode r.path := by
        simp [router, hsync, requireLoopback, hpeer]
      rw [hroute] at hpage ⊢
      rw [if_pos (.inr hpeer), dispatch, hget]
      simp only [get]
      split
      · exact absurd ‹_› (hpage _)
      · exact absurd ‹_› (hpage _)
      · exact absurd ‹_› (hpage _)
      · rfl
    · simp [router, hsync, requireLoopback, hpeer]

/-- The static responses of a path name no handler of a state. -/
theorem bareRoomRedirect_ne (word : String) (e : Endpoint) :
    bareRoomRedirect word ≠ .endpoint e := by
  unfold bareRoomRedirect
  split
  · simp
  · split <;> simp

theorem roomPage_ne (name : String) (e : Endpoint) : roomPage name ≠ .endpoint e := by
  unfold roomPage
  split
  · split <;> simp
  · simp

theorem capture_ne {decode : String → Option String} {handler : String → Response} {e : Endpoint}
    (h : ∀ value, handler value ≠ .endpoint e) (segment : String) :
    capture decode handler segment ≠ .endpoint e := by
  unfold capture
  split
  · simp
  · split
    · exact h _
    · simp

/-- Where a handler that serves no page is found. -/
def Endpoint.home : Endpoint → List String
  | .idiomorphJs => ["assets", "idiomorph.js"]
  | .apiState => ["api", "state"]
  | .wsUi => ["ws", "ui"]
  | .sync => ["sync"]

theorem route_endpoint {decode : String → Option String} {path : String} {e : Endpoint} :
    route decode path = .endpoint e ↔ segments path = e.home := by
  have hword (segment : String) : capture decode bareRoomRedirect segment ≠ .endpoint e :=
    capture_ne (bareRoomRedirect_ne · e) segment
  have hroom (segment : String) : capture decode roomPage segment ≠ .endpoint e :=
    capture_ne (roomPage_ne · e) segment
  constructor
  · intro h
    unfold route at h
    split at h
    · next word hseg =>
      split at h
      · cases h
      split at h
      · cases h
        simp_all [Endpoint.home]
      · exact absurd h (hword word)
    · next first second hseg =>
      repeat' split at h
      all_goals first
        | exact absurd h (hroom second)
        | (cases h; simp_all [Endpoint.home])
        | cases h
    · cases h
  · intro h
    cases e <;> simp [route, h, Endpoint.home]

/-- A command comes of a local POST whose body means it, and of nothing else. -/
theorem answer_enqueue {command : AppCommand} : answer web r = .enqueue command ↔
    r.method = .post ∧ segments r.path = ["api", "command"] ∧
      r.peer.any IpAddr.isLoopback = true ∧ ∃ bytes value, r.body = some bytes ∧
        web.json.fromSlice bytes = some value ∧ command.Means value := by
  have hget : get web r ≠ .enqueue command := by
    unfold get apiState wsUi
    repeat' split
    all_goals simp
  have hcommand : apiCommand web r = .enqueue command ↔ ∃ bytes value, r.body = some bytes ∧
      web.json.fromSlice bytes = some value ∧ command.Means value := by
    simp only [← AppCommand.deserialize_eq_ok]
    unfold apiCommand
    cases r.body with
    | none => simp
    | some bytes =>
      cases hv : web.json.fromSlice bytes with
      | none => simp [hv]
      | some value => cases hd : AppCommand.deserialize value <;> simp [hv, hd]
  rw [← hcommand]
  unfold answer
  constructor
  · intro h
    split at h
    · next hpass =>
      unfold dispatch at h
      split at h
      · exact absurd h hget
      · split at h
        · next hpost hpath =>
          refine ⟨hpost, hpath, hpass.resolve_left ?_, h⟩
          simp [hpath]
        · cases h
      · cases h
    · cases h
  · rintro ⟨hpost, hpath, hpeer, h⟩
    rw [if_pos (.inr hpeer), dispatch, hpost]
    simpa [hpath] using h

/-- Whatever is behind the guard comes of a local client. -/
theorem answer_guarded {a : Answer} (ha : answer web r = a) (hf : a ≠ .done .forbidden)
    (hs : segments r.path ≠ ["sync"]) : r.peer.any IpAddr.isLoopback = true ∧
      dispatch web r = a := by
  unfold answer at ha
  split at ha
  · next hpass => exact ⟨hpass.resolve_left hs, ha⟩
  · exact absurd ha.symm hf

theorem parseScope_eq_ok {raw : Option String} {scope : Scope} : parseScope raw = .ok scope ↔
    (raw = none ∧ scope = .devices) ∨ (raw = some scope.toString ∧ scope.WellNamed) := by
  cases raw with
  | none => simp [parseScope, eq_comm]
  | some raw =>
    simp only [parseScope, reduceCtorEq, false_and, false_or, Option.some.injEq]
    constructor
    · intro h
      exact ⟨(Scope.toString_of_parse h).symm, Scope.wellNamed_of_parse h⟩
    · rintro ⟨rfl, h⟩
      exact Scope.parse_toString h

theorem exists_parseScope {o : Option (Option String)} {scope : Scope} :
    (∃ raw, o = some raw ∧ parseScope raw = .ok scope) ↔
      (o = some none ∧ scope = .devices) ∨
        (o = some (some scope.toString) ∧ scope.WellNamed) := by
  simp only [parseScope_eq_ok]
  constructor
  · rintro ⟨raw, rfl, ⟨rfl, h⟩ | ⟨rfl, h⟩⟩
    · exact .inl ⟨rfl, h⟩
    · exact .inr ⟨rfl, h⟩
  · rintro (⟨rfl, h⟩ | ⟨rfl, h⟩)
    · exact ⟨_, rfl, .inl ⟨rfl, h⟩⟩
    · exact ⟨_, rfl, .inr ⟨rfl, h⟩⟩

theorem apiState_eq_state {scope : Scope} : apiState web r = .state scope ↔
    ∃ raw, web.scopeQuery r.query = some raw ∧ parseScope raw = .ok scope := by
  unfold apiState
  cases web.scopeQuery r.query with
  | none => simp
  | some raw => cases hp : parseScope raw <;> simp [hp]

theorem wsUi_eq_ui {scope : Scope} : wsUi web r = .ui scope ↔
    r.upgrade = true ∧ ∃ raw, web.scopeQuery r.query = some raw ∧ parseScope raw = .ok scope := by
  unfold wsUi
  cases web.scopeQuery r.query with
  | none => simp
  | some raw =>
    cases r.upgrade with
    | false => simp
    | true => cases hp : parseScope raw <;> simp [hp]

/-- What no handler but its own answers. -/
theorem dispatch_state {scope : Scope} : dispatch web r = .state scope ↔
    r.method = .get ∧ segments r.path = ["api", "state"] ∧ apiState web r = .state scope := by
  constructor
  · intro h
    unfold dispatch at h
    split at h
    · next hget =>
      unfold get at h
      split at h
      · next hroute => exact ⟨hget, route_endpoint.mp hroute, h⟩
      · unfold wsUi at h
        repeat' split at h
        all_goals cases h
      · split at h <;> cases h
      · cases h
    · split at h
      · unfold apiCommand at h
        repeat' split at h
        all_goals cases h
      · cases h
    · cases h
  · rintro ⟨hget, hpath, h⟩
    simp [dispatch, hget, get, (route_endpoint (e := .apiState)).mpr hpath, h]

theorem dispatch_ui {scope : Scope} : dispatch web r = .ui scope ↔
    r.method = .get ∧ segments r.path = ["ws", "ui"] ∧ wsUi web r = .ui scope := by
  constructor
  · intro h
    unfold dispatch at h
    split at h
    · next hget =>
      unfold get at h
      split at h
      · unfold apiState at h
        repeat' split at h
        all_goals cases h
      · next hroute => exact ⟨hget, route_endpoint.mp hroute, h⟩
      · split at h <;> cases h
      · cases h
    · split at h
      · unfold apiCommand at h
        repeat' split at h
        all_goals cases h
      · cases h
    · cases h
  · rintro ⟨hget, hpath, h⟩
    simp [dispatch, hget, get, (route_endpoint (e := .wsUi)).mpr hpath, h]

/-- A state is for a local client that asks for its scope. -/
theorem answer_state {scope : Scope} : answer web r = .state scope ↔
    segments r.path = ["api", "state"] ∧ Asks web r scope := by
  constructor
  · intro h
    have hpath : segments r.path = ["api", "state"] := by
      unfold answer at h
      split at h
      · exact (dispatch_state.mp h).2.1
      · cases h
    obtain ⟨hpeer, h⟩ := answer_guarded h (by simp) (by simp [hpath])
    obtain ⟨hget, -, h⟩ := dispatch_state.mp h
    exact ⟨hpath, hget, hpeer, exists_parseScope.mp (apiState_eq_state.mp h)⟩
  · rintro ⟨hpath, hget, hpeer, h⟩
    rw [answer, if_pos (.inr hpeer)]
    exact dispatch_state.mpr ⟨hget, hpath, apiState_eq_state.mpr (exists_parseScope.mpr h)⟩

/-- A socket is for a local client that asks for its scope. -/
theorem answer_ui {scope : Scope} : answer web r = .ui scope ↔
    segments r.path = ["ws", "ui"] ∧ r.upgrade = true ∧ Asks web r scope := by
  constructor
  · intro h
    have hpath : segments r.path = ["ws", "ui"] := by
      unfold answer at h
      split at h
      · exact (dispatch_ui.mp h).2.1
      · cases h
    obtain ⟨hpeer, h⟩ := answer_guarded h (by simp) (by simp [hpath])
    obtain ⟨hget, -, h⟩ := dispatch_ui.mp h
    obtain ⟨hup, h⟩ := wsUi_eq_ui.mp h
    exact ⟨hpath, hup, hget, hpeer, exists_parseScope.mp h⟩
  · rintro ⟨hpath, hup, hget, hpeer, h⟩
    rw [answer, if_pos (.inr hpeer)]
    exact dispatch_ui.mpr ⟨hget, hpath, wsUi_eq_ui.mpr ⟨hup, exists_parseScope.mpr h⟩⟩

end Answers

end Server

end Yoink
