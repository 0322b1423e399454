import Mathlib.Data.List.Basic
import Qbutt.Algorithm.Action
import Qbutt.Paths.Messages

/-!
# The manager of paths

The state of `PathManager` and of what it drives: the saved settings, the runtime proxy of
`ProxyConfigurationManager`, the helper process and the session.  Whether a call succeeds is a question
to the environment; the answers of a step are kept in `asked`.  The bootstrap of the DHT, the counters
and rates that are only shown, and the data of diagnostics are not modelled.
-/

namespace Qbutt.Paths

open Action

/-- The calls that may fail. -/
inductive Query where
  | save
  | setNetworkRoutes
  | resetNetworkRoutes
  | setTrustedInboundRoutes
  | acceptTrustedInbound
  | start
  | write
  | stop
  deriving DecidableEq, Repr

/-- The settings of `PathManager` and the marker of `ProxyConfigurationManager`; `none` is a value that
was never saved. -/
structure Settings where
  subscriptionUrl : String
  subscriptionFormat : Option String
  configurationPath : String
  proxyName : String
  interfaceName : String
  selectedNodes : List String
  preferredTransports : List (String × String)
  managedEnabled : Bool
  policy : Option String
  nativeInterface : String
  dnsServer : Option String
  bootstrapServer : Option String
  dnsFamily : Option String
  gatewayByEdge : List (String × GatewayConfiguration)
  runtimeRequired : Bool
  deriving DecidableEq, Repr

inductive RouteChange where
  | set (endpoints : List PeerRouteEndpoint) (policy : RoutePolicy)
  | reset
  deriving DecidableEq, Repr

/-- What the session was told: the last change of routes that it accepted, the last list of trusted
routes, the incoming connections, and the retired routes.  `installed` are the endpoints of all changes
that it accepted; this is history, which no operation reads. -/
structure Session where
  routes : Option RouteChange
  installed : List PeerRouteEndpoint
  trusted : List TrustedInboundRoute
  inbound : List (TrustedInboundRoute × NumericEndpoint)
  invalidated : List (ℕ × ℕ)
  deriving DecidableEq, Repr

inductive ProcessState where
  | notRunning
  | starting
  | running
  deriving DecidableEq, Repr

inductive ResolutionState where
  | pending
  | complete (addresses : List ResolvedAddress)
  | failed (errorCode : String)
  deriving DecidableEq, Repr

structure Resolution where
  requestId : ℕ
  pathId : ℕ
  generation : ℕ
  family : String
  state : ResolutionState
  deriving DecidableEq, Repr

/-- The last rollover that was not shut down: its paths, the generation before it, the requests that it
has made, and the generation when it was reported finished.  This is history; no operation reads it. -/
structure RolloverRecord where
  paths : List PathRollover
  generation : ℕ
  requested : List OpenRequest
  finished : Option ℕ
  deriving DecidableEq, Repr

/-- What a step finds around it: the time, the state of the session, the physical adapters, and the tests
of texts and files. -/
structure Surroundings where
  now : ℤ
  isoDate : ℤ → String
  restored : Bool
  hasNativeBindingIntent : Settings → List PeerRouteEndpoint → Bool
  nativeEndpointsForInterface : String → List PeerRouteEndpoint → List PeerRouteEndpoint
  nativeEndpointsForSessionBinding : Settings → List PeerRouteEndpoint → List PeerRouteEndpoint
  fitsControlFrame : Request → Bool
  canonicalDnsServer : String → String
  normalizedGateway : GatewayConfiguration → Option GatewayConfiguration

structure State where
  started : Bool
  process : ProcessState
  subscriptionReply : Option String
  timeout : Bool
  gatewayRenewal : Bool
  statusRefresh : Bool
  requestQueue : List Request
  pendingRequest : Option PendingRequest
  resolution : Option Resolution
  proxies : List Proxy
  paths : List ActivePath
  nativeEndpoints : List PeerRouteEndpoint
  nextId : ℕ
  generation : ℕ
  nextPathId : ℕ
  nativeGeneration : ℕ
  pendingStopPath : Option ℕ
  pathRollover : List PathRollover
  pendingNodes : List String
  failedNodes : List String
  openingNode : Option String
  pendingPreferredEdges : List String
  pendingEdgeReopen : Option PathRollover
  nativePending : Bool
  nativeWasEnabled : Bool
  ignoreProcessExit : Bool
  restoreStarted : Bool
  rolloverOpening : Bool
  rolloverFailed : Bool
  statusText : String
  settings : Settings
  dirty : Bool
  runtimeProxy : Option ProxyConfiguration
  session : Session
  sent : List Request
  rollover : Option RolloverRecord
  surroundings : Surroundings
  answers : List (Query × Bool)
  asked : List (Query × Bool)

/-- Ask the environment whether a call succeeds. -/
def ask (query : Query) : Action State Bool := fun s =>
  match s.answers with
  | (query', answer) :: answers =>
    if query' = query then
      (answer, { s with answers := answers, asked := s.asked ++ [(query, answer)] })
    else (true, { s with asked := s.asked ++ [(query, true)] })
  | [] => (true, { s with asked := s.asked ++ [(query, true)] })

/-! ### Settings -/

/-- `SettingsStorage::storeValue`: the storage is dirty if the value changes. -/
def store (change : Settings → Settings) : Action State Unit :=
  modify fun s =>
    { s with settings := change s.settings, dirty := s.dirty || change s.settings ≠ s.settings }

def save : Action State Bool := do
  let s ← get
  if !s.dirty then return false
  else do
    let saved ← ask .save
    modify fun s => { s with dirty := s.dirty && !saved }
    return saved

/-- `m_storePolicy.get(u"pinned"_s)`. -/
def State.currentPolicy (s : State) : String := s.settings.policy.getD "pinned"

/-- `m_storePolicy.get()`. -/
def State.policy (s : State) : String := s.settings.policy.getD ""

def State.dnsPolicy (s : State) : DnsPolicy where
  server := s.settings.dnsServer.getD "1.1.1.1:53"
  bootstrapServer := s.settings.bootstrapServer.getD "1.1.1.1:53"
  family := s.settings.dnsFamily.getD "dual"

/-! ### The runtime proxy -/

def setRuntimeProxy (config : ProxyConfiguration) : Action State Bool := do
  let s ← get
  if !s.settings.runtimeRequired then do
    store fun settings => { settings with runtimeRequired := true }
    let saved ← save
    if saved then do
      modify fun s => { s with runtimeProxy := some config }
      return true
    else do
      store fun settings => { settings with runtimeRequired := false }
      return false
  else do
    modify fun s => { s with runtimeProxy := some config }
    return true

def clearRuntimeProxy : Action State Bool := do
  let s ← get
  if s.settings.runtimeRequired then do
    store fun settings => { settings with runtimeRequired := false }
    let saved ← save
    if saved then do
      modify fun s => { s with runtimeProxy := none }
      return true
    else do
      store fun settings => { settings with runtimeRequired := true }
      return false
  else do
    modify fun s => { s with runtimeProxy := none }
    return true

def State.hasRuntimeProxy (s : State) : Bool := s.runtimeProxy.isSome

/-! ### The session -/

def setNetworkRoutes (endpoints : List PeerRouteEndpoint) (policy : RoutePolicy) :
    Action State Bool := do
  let accepted ← ask .setNetworkRoutes
  when accepted (modify fun s =>
    { s with session := { s.session with
        routes := some (.set endpoints policy), installed := s.session.installed ++ endpoints } })
  return accepted

def resetNetworkRoutes : Action State Bool := do
  let accepted ← ask .resetNetworkRoutes
  when accepted (modify fun s => { s with session := { s.session with routes := some .reset } })
  return accepted

def setTrustedInboundRoutes (routes : List TrustedInboundRoute) : Action State Bool := do
  modify fun s => { s with session := { s.session with trusted := routes } }
  ask .setTrustedInboundRoutes

def acceptTrustedInbound (route : TrustedInboundRoute) (remote : NumericEndpoint) :
    Action State Bool := do
  modify fun s =>
    { s with session := { s.session with inbound := s.session.inbound ++ [(route, remote)] } }
  ask .acceptTrustedInbound

def invalidateNetworkRoute (pathId generation : ℕ) : Action State Unit :=
  modify fun s =>
    { s with session :=
        { s.session with invalidated := s.session.invalidated ++ [(pathId, generation)] } }

/-- `Session::invalidateNetworkRoute` for some of the endpoints of a list. -/
def invalidateNetworkRoutes (endpoints : List PeerRouteEndpoint) : Action State Unit :=
  modify fun s =>
    { s with session :=
        { s.session with
          invalidated := s.session.invalidated ++
            endpoints.map fun endpoint => (endpoint.pathId, endpoint.generation) } }

/-! ### Routes -/

def State.hasNativeBindingIntent (s : State) : Bool :=
  s.surroundings.hasNativeBindingIntent s.settings s.nativeEndpoints

/-- The endpoints that `applyRoutes` installs for a managed connection. -/
def State.managedEndpoints (s : State) : List PeerRouteEndpoint :=
  let endpoints := s.paths.map ActivePath.endpoint
  -- An unavailable pinned edge must never turn into Native for private torrents.
  let endpoints := if endpoints.isEmpty then [{}] else endpoints
  if s.currentPolicy = "mixed" then endpoints ++ s.nativeEndpoints else endpoints

/-- The policy that `applyRoutes` installs for a managed connection. -/
def State.managedPolicy (s : State) : RoutePolicy :=
  if s.currentPolicy = "mixed" then .mixed
  else if s.currentPolicy = "tunnels" then .tunnelsOnly
  else .pinned

def applyRoutes (activateManaged : Bool) : Action State Bool := do
  let s ← get
  if !activateManaged && !s.settings.managedEnabled && !s.hasRuntimeProxy then
    if s.nativeEndpoints.isEmpty then
      if s.hasNativeBindingIntent then setNetworkRoutes [] .pinned else resetNetworkRoutes
    else setNetworkRoutes s.nativeEndpoints .mixed
  else setNetworkRoutes s.managedEndpoints s.managedPolicy

def ActivePath.trustedRoute (path : ActivePath) : Option TrustedInboundRoute :=
  path.publicLease.bind fun lease => if lease.tcp then some lease.route else none

def applyTrustedInboundRoutes : Action State Bool := do
  let s ← get
  setTrustedInboundRoutes (s.paths.filterMap ActivePath.trustedRoute)

def applyTrustedAndRoutes : Action State Bool := do
  let trusted ← applyTrustedInboundRoutes
  if trusted then applyRoutes false else return false

def ActivePath.clearGatewayLease (path : ActivePath) : ActivePath :=
  { path with
    publicLease := none
    endpoint := { path.endpoint with
      publicAddress := "", publicPort := 0, publicTcp := false, publicUdp := false } }

/-- A path that is stopped: what `revokePath` and `shutdown` make of it. -/
def ActivePath.stopped (path : ActivePath) : ActivePath :=
  let path := path.clearGatewayLease
  { path with
    endpoint := { path.endpoint with type := .blocked, port := 0, username := "", password := "" }
    wire := none
    transport := none }

def scheduleGatewayRenewal : Action State Unit :=
  modify fun s =>
    { s with gatewayRenewal := s.paths.any fun path => path.publicLease.isSome }

/-! ### Failures -/

def reportError (message : String) : Action State Unit :=
  modify fun s => { s with statusText := message }

def finishResolution (state : ResolutionState) : Action State Unit :=
  modify fun s =>
    { s with resolution := s.resolution.map fun resolution =>
        if resolution.state = .pending then { resolution with state := state } else resolution }

/-- `applyRoutes` in `shutdown`, with a runtime proxy only. -/
def retireRoutes : Action State Bool := do
  let s ← get
  if s.hasRuntimeProxy then applyRoutes false else return true

/-- Whether the process has ended after its channel was closed, or after it was killed. -/
def waitForFinished : Action State Bool := do
  let s ← get
  if s.process = .notRunning then return true
  else do
    let stopped ← ask .stop
    when stopped (modify fun s => { s with process := .notRunning })
    return stopped

def shutdown : Action State Bool := do
  finishResolution (.failed "path_stopped")
  modify fun s =>
    { s with
      gatewayRenewal := false
      statusRefresh := false
      paths := s.paths.map ActivePath.stopped }
  let trusted ← setTrustedInboundRoutes []
  let routes ← retireRoutes
  let s ← get
  invalidateNetworkRoutes (s.paths.map ActivePath.endpoint)
  modify fun s => { s with timeout := false, subscriptionReply := none }
  let stopped ← waitForFinished
  modify fun s =>
    { s with
      requestQueue := []
      pendingRequest := none
      pendingStopPath := none
      pathRollover := []
      rolloverOpening := false
      rolloverFailed := false
      rollover := none }
  return stopped && routes && trusted

def blockRuntimeProxy : Action State Unit := do
  let s ← get
  when s.hasRuntimeProxy (forget (setRuntimeProxy blockedRuntimeProxy))

def fail (message : String) : Action State Unit := do
  finishResolution (.failed "transport_failed")
  blockRuntimeProxy
  forget shutdown
  modify fun s =>
    { s with
      pendingNodes := []
      openingNode := none
      pendingPreferredEdges := []
      pendingEdgeReopen := none
      statusRefresh := s.statusRefresh ||
        if s.hasRuntimeProxy then s.policy = "mixed" else s.hasNativeBindingIntent }
  reportError message

/-! ### Requests -/

/-- The open paths, as `send` retains them with a request for the status. -/
def State.expectedPaths (s : State) : List (ℕ × ℕ) :=
  (s.paths.filter ActivePath.isOpen).map fun path =>
    (path.endpoint.pathId, path.endpoint.generation)

def State.retained (s : State) : Request → Request
  | .status _ => .status s.expectedPaths
  | request => request

def send (message : Request) : Action State Unit := do
  let s ← get
  if maxControlId ≤ s.nextId then
    fail "The qbutt-net request identifier limit was reached. Restart qbutt."
  else do
    modify fun s =>
      { s with
        nextId := s.nextId + 1
        pendingRequest := some { id := s.nextId + 1, request := s.retained message } }
    let written ← ask .write
    if written then modify fun s => { s with timeout := true, sent := s.sent ++ [message] }
    else fail "Unable to send a bounded qbutt-net control request."

def sendQueuedRequest : Action State Unit := do
  let s ← get
  match s.requestQueue with
  | [] => return ()
  | message :: rest =>
    if s.pendingRequest.isSome then return ()
    else do
      modify fun s => { s with requestQueue := rest }
      send message

def request (message : Request) : Action State Unit := do
  modify fun s => { s with requestQueue := s.requestQueue ++ [message] }
  let s ← get
  if s.process = .notRunning then do
    modify fun s => { s with ignoreProcessExit := false }
    let started ← ask .start
    if started then modify fun s => { s with process := .starting, timeout := true }
    else fail "Unable to run the bundled qbutt-net process."
  else sendQueuedRequest

def State.controlBusy (s : State) : Bool :=
  s.nativePending ||
  (match s.pendingRequest with
    | none => false
    | some { request := .status _, .. } => false
    | some _ => true) ||
  !s.requestQueue.isEmpty || s.subscriptionReply.isSome || s.rolloverOpening || !s.pathRollover.isEmpty

def State.isBusy (s : State) : Bool :=
  s.nativePending || s.controlBusy || !s.pendingNodes.isEmpty || s.openingNode.isSome ||
    !s.pendingPreferredEdges.isEmpty || s.pendingEdgeReopen.isSome

def State.isOpen (s : State) : Bool := !s.nativeEndpoints.isEmpty || s.paths.any ActivePath.isOpen

def State.path (s : State) (pathId : ℕ) : Option ActivePath :=
  s.paths.find? fun path => path.endpoint.pathId = pathId

def PeerRouteEndpoint.supports (endpoint : PeerRouteEndpoint) : Option Bool → Bool
  | none => true
  | some true => endpoint.supportsIPv6
  | some false => endpoint.supportsIPv4

def State.findEndpoint (s : State) (pathId generation : ℕ) (ipv6 : Option Bool) :
    Option PeerRouteEndpoint :=
  ((s.paths.filter ActivePath.isOpen).map ActivePath.endpoint ++ s.nativeEndpoints).find?
    fun endpoint => endpoint.pathId = pathId && endpoint.generation = generation &&
      endpoint.supports ipv6

/-- Replace the path with an identity. -/
def updatePath (pathId : ℕ) (change : ActivePath → ActivePath) : Action State Unit :=
  modify fun s =>
    { s with paths := s.paths.map fun path =>
        if path.endpoint.pathId = pathId then change path else path }

end Qbutt.Paths
