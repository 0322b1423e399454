import Mathlib.Data.Prod.Lex
import Qbutt.Algorithm.Table

/-!
# Routes and what is asked and reported about them

The parts of the routes, requests and observations that the route selector reads.  Times are
readings of the steady clock in nanoseconds.
-/

namespace Qbutt.Net

/-- A reading of the steady clock. -/
abbrev Time := ℤ

def seconds (n : ℤ) : Time := n * 1000000000

def minutes (n : ℤ) : Time := seconds (60 * n)

/-- `tcp::endpoint`: an IPv4 or IPv6 address (with the scope of the latter) and a port. -/
structure Endpoint where
  isV6 : Bool
  address : ℕ
  scope : ℕ
  port : ℕ
  deriving DecidableEq, Repr

namespace Endpoint

/-- Whether the address is one of IPv4. -/
def isV4 (e : Endpoint) : Bool := !e.isV6

/-- The position in the order of endpoints: by family, address, scope and port. -/
def key (e : Endpoint) : Bool ×ₗ ℕ ×ₗ ℕ ×ₗ ℕ :=
  toLex (e.isV6, toLex (e.address, toLex (e.scope, e.port)))

theorem key_injective : Function.Injective key := by
  rintro ⟨v, a, s, p⟩ ⟨v', a', s', p'⟩ h
  simpa [key] using h

instance : LinearOrder Endpoint := .lift' key key_injective

end Endpoint

structure PeerRouteContext where
  pathId : UInt64
  generation : UInt64
  deriving DecidableEq, Repr

/-- `peer_route::type_t`. -/
inductive PeerRouteType where
  | blocked
  | native
  | socks5
  | other (code : ℕ)
  deriving DecidableEq, Repr

structure PeerRoute where
  type : PeerRouteType
  context : PeerRouteContext
  localEndpoint : Endpoint
  deriving DecidableEq, Repr

/-- `RouteKey`: path and generation. -/
abbrev RouteKey := UInt64 × UInt64

def RouteKey.position (key : RouteKey) : ℕ ×ₗ ℕ := toLex (key.1.toNat, key.2.toNat)

def PeerRouteContext.key (context : PeerRouteContext) : RouteKey :=
  (context.pathId, context.generation)

structure Route where
  binding : PeerRoute
  supportsIPv4 : Bool
  supportsIPv6 : Bool
  deriving DecidableEq, Repr

def Route.key (entry : Route) : RouteKey := entry.binding.context.key

/-- `peer_route_request`; `η` are the info hashes. -/
structure Request (η : Type) where
  infoHashes : η
  peer : Endpoint
  privateTorrent : Bool
  hasMetadata : Bool

/-- `peer_route_observation::event_t`. -/
inductive ObservationEvent where
  | connected
  | activity
  | closed
  deriving DecidableEq, Repr

/-- The error codes that the selector tells apart. -/
inductive ErrorCode where
  | none
  | eof
  | timedOut
  | libtorrentTimedOut
  | timedOutNoHandshake
  | connectionRefused
  | connectionReset
  | connectionAborted
  | networkDown
  | networkReset
  | networkUnreachable
  | hostUnreachable
  | brokenPipe
  | operationAborted
  | other (code : ℕ)
  deriving DecidableEq, Repr

/-- The operations that the selector tells apart. -/
inductive Operation where
  | connect
  | sockBind
  | getInterface
  | other
  deriving DecidableEq, Repr

structure Observation (η : Type) where
  infoHashes : η
  peer : Endpoint
  route : PeerRouteContext
  event : ObservationEvent
  error : ErrorCode
  operation : Operation
  payloadDownload : ℤ
  payloadUpload : ℤ
  verifiedDownload : ℤ
  demandDurationMs : ℤ
  chokedDurationMs : ℤ

def isConnectionFailure (ec : ErrorCode) (operation : Operation) : Bool :=
  (operation = .connect && ec = .eof) || (operation = .connect && ec = .libtorrentTimedOut) ||
    ec = .connectionRefused || ec = .connectionReset || ec = .connectionAborted ||
    ec = .networkDown || ec = .networkReset || ec = .networkUnreachable ||
    ec = .hostUnreachable || ec = .timedOut || ec = .brokenPipe

def isAttemptTimeout (ec : ErrorCode) (operation : Operation) : Bool :=
  ec = .timedOut || (operation = .connect && ec = .libtorrentTimedOut) ||
    ec = .timedOutNoHandshake

/-- `establishmentFailure`: the attempt failed before or while it connected, and was not revoked. -/
def isEstablishmentFailure (ec : ErrorCode) (operation : Operation) : Bool :=
  ec ≠ .none && ec ≠ .operationAborted &&
    (operation = .connect || operation = .sockBind || operation = .getInterface)

def historyTtl : Time := minutes 15

end Qbutt.Net

/-!
## Diagnostics of route selection

`PeerRouteSelector::DiagnosticHistory`: what it retains about routes and selections for a bounded
snapshot.  Each operation takes the reading of the clock that it starts with.
-/

namespace Qbutt.Net

inductive Decision where
  | pinned
  | bestScore
  | exploration
  | blockedNoRoute
  | blockedCooldown
  deriving DecidableEq, Repr

inductive RouteType where
  | blocked
  | relay
  | native
  deriving DecidableEq, Repr

structure RouteDiagnostics where
  pathId : UInt64 := 0
  generation : UInt64 := 0
  type : RouteType := .blocked
  attempts : UInt64 := 0
  connected : UInt64 := 0
  closed : UInt64 := 0
  connectionFailures : UInt64 := 0
  timeouts : UInt64 := 0
  payloadDownload : ℤ := 0
  payloadUpload : ℤ := 0
  verifiedDownload : ℤ := 0
  demandMilliseconds : ℤ := 0
  chokedMilliseconds : ℤ := 0
  deriving DecidableEq, Repr

structure DiagnosticEvent where
  ageMilliseconds : ℤ
  pathId : UInt64
  generation : UInt64
  decision : Decision
  deriving DecidableEq, Repr

structure Diagnostics where
  routes : List RouteDiagnostics
  events : List DiagnosticEvent
  blockedSelections : UInt64
  eventsTruncated : Bool
  deriving DecidableEq, Repr

structure EventRecord where
  timestamp : Time
  pathId : UInt64
  generation : UInt64
  decision : Decision
  deriving DecidableEq, Repr

structure RetainedRoute where
  value : RouteDiagnostics := {}
  touched : Time := 0
  current : Bool := false
  deriving DecidableEq, Repr

def maxDiagnosticEvents : ℕ := 512

def maxDiagnosticRoutes : ℕ := 256

/-- `DiagnosticHistory`; the events are in the order of the queue, the oldest first. -/
structure DiagnosticHistory where
  routes : Table RouteKey RetainedRoute := ∅
  events : List EventRecord := []
  lastDroppedEvent : Option Time := none
  blockedSelections : UInt64 := 0

namespace DiagnosticHistory

/-- The key of the retained route that the search for `oldest` in `prune` ends with: among those
that are not current the first one that was touched the longest ago. -/
def oldest (routes : Table RouteKey RetainedRoute) : Option RouteKey :=
  (routes.eraseIf fun _ route => route.current).argmin fun key route =>
    toLex (route.touched, RouteKey.position key)

/-- One round of the loop of `prune` over too many routes. -/
def dropOldest (routes : Table RouteKey RetainedRoute) : Table RouteKey RetainedRoute :=
  match oldest routes with
  | some key => routes.erase key
  | none => routes

/-- `prune`.  The loop over the routes removes one in every round until it breaks, after which a
round does nothing. -/
def prune (history : DiagnosticHistory) (now : Time) : DiagnosticHistory :=
  let routes := history.routes.eraseIf fun _ route =>
    !route.current && now - route.touched > historyTtl
  { history with
    events := history.events.dropWhile fun event => now - event.timestamp > historyTtl
    lastDroppedEvent := history.lastDroppedEvent.filter fun dropped => now - dropped ≤ historyTtl
    routes := dropOldest^[routes.size - maxDiagnosticRoutes] routes }

/-- A route that is not, or no longer, in the catalog. -/
def RetainedRoute.retired (now : Time) (route : RetainedRoute) : RetainedRoute :=
  if route.current then { route with touched := now, current := false } else route

def retain (now : Time) (routes : Table RouteKey RetainedRoute) (entry : Route) :
    Table RouteKey RetainedRoute :=
  let route := entry.binding
  let retained := (routes.lookup entry.key).getD {}
  routes.insert entry.key
    { current := true
      touched := now
      value :=
        { retained.value with
          pathId := route.context.pathId
          generation := route.context.generation
          type :=
            match route.type with
            | .native => .native
            | .socks5 => .relay
            | _ => .blocked } }

def configure (history : DiagnosticHistory) (routes : List Route) (now : Time) :
    DiagnosticHistory :=
  let retired := history.routes.mapValues fun _ => RetainedRoute.retired now
  prune { history with routes := routes.foldl (retain now) retired } now

def retire (history : DiagnosticHistory) (now : Time) : DiagnosticHistory :=
  prune { history with routes := history.routes.mapValues fun _ => RetainedRoute.retired now } now

def record (history : DiagnosticHistory) (now : Time) (route : PeerRouteContext)
    (decision : Decision) : DiagnosticHistory :=
  let event : EventRecord := ⟨now, route.pathId, route.generation, decision⟩
  if history.events.length ≥ maxDiagnosticEvents then
    { history with
      lastDroppedEvent := history.events.head?.map EventRecord.timestamp
      events := history.events.tail ++ [event] }
  else { history with events := history.events ++ [event] }

def selected (history : DiagnosticHistory) (route : PeerRouteContext) (decision : Decision)
    (now : Time) : DiagnosticHistory :=
  let counted :=
    if decision = .blockedNoRoute ∨ decision = .blockedCooldown then
      { history with blockedSelections := history.blockedSelections + 1 }
    else
      match history.routes.lookup route.key with
      | some retained =>
        { history with
          routes := history.routes.insert route.key
            { retained with
              touched := now
              value := { retained.value with attempts := retained.value.attempts + 1 } } }
      | none => history
  counted.record now route decision

/-- What `observe` adds to the counters of a route. -/
def observed {η : Type} (value : RouteDiagnostics) (observation : Observation η) :
    RouteDiagnostics :=
  let summed :=
    { value with
      payloadDownload := value.payloadDownload + observation.payloadDownload
      payloadUpload := value.payloadUpload + observation.payloadUpload
      verifiedDownload := value.verifiedDownload + observation.verifiedDownload
      demandMilliseconds := value.demandMilliseconds + observation.demandDurationMs
      chokedMilliseconds := value.chokedMilliseconds + observation.chokedDurationMs }
  match observation.event with
  | .connected => { summed with connected := value.connected + 1 }
  | .activity => summed
  | .closed =>
    let closed := { summed with closed := value.closed + 1 }
    if isConnectionFailure observation.error observation.operation ||
        isEstablishmentFailure observation.error observation.operation ||
        observation.error = .timedOutNoHandshake then
      { closed with
        connectionFailures := value.connectionFailures + 1
        timeouts :=
          if isAttemptTimeout observation.error observation.operation then value.timeouts + 1
          else value.timeouts }
    else closed

def observe {η : Type} (history : DiagnosticHistory) (observation : Observation η) (now : Time) :
    DiagnosticHistory :=
  match history.routes.lookup observation.route.key with
  | some retained =>
    { history with
      routes := history.routes.insert observation.route.key
        { retained with touched := now, value := observed retained.value observation } }
  | none => history

/-- `snapshot`; the routes are in the order of their keys. -/
def snapshot (history : DiagnosticHistory) (now : Time) : Diagnostics where
  routes :=
    ((history.routes.eraseIf fun _ route =>
        !(route.current || now - route.touched ≤ historyTtl)).entries.mergeSort
      fun left right => decide (RouteKey.position left.1 ≤ RouteKey.position right.1)).map fun entry => entry.2.value
  events :=
    (history.events.filter fun event => !(now - event.timestamp > historyTtl)).map fun event =>
      ⟨(now - event.timestamp).tdiv 1000000, event.pathId, event.generation, event.decision⟩
  blockedSelections := history.blockedSelections
  eventsTruncated := history.lastDroppedEvent.any fun dropped => now - dropped ≤ historyTtl

end DiagnosticHistory

end Qbutt.Net
