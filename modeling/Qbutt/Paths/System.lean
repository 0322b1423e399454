import Qbutt.Algorithm.Transition
import Qbutt.Paths.Child

/-!
# The manager as a system

The operations of users and the callbacks of timers, of the process, of the session and of the network,
one of which is taken after the other.
-/

namespace Qbutt.Paths

open Action

/-! ### Requests of users -/

/-- `inspectConfiguration`; its callers ask `isBusy` before. -/
def inspectConfiguration (configPath : String) : Action State Unit :=
  request (.list configPath none)

/-- The address family of a resolution. -/
def familyOf (family : String) : Option Bool :=
  if family = "dual" then none else some (family = "ipv6")

def State.resolveRequest (s : State) (endpoint : PeerRouteEndpoint) (host family : String) : Request :=
  if endpoint.type = .native then
    .resolveNative endpoint.pathId endpoint.generation host family s.dnsPolicy
  else .resolve endpoint.pathId endpoint.generation host family

def resolveHost (pathId generation : ℕ) (host family : String) : Action State Unit := do
  let s ← get
  if s.controlBusy then return ()
  else
    match s.findEndpoint pathId generation (familyOf family) with
    | none => reportError "Choose an active path generation, a hostname and a valid address family."
    | some endpoint =>
      if host = "" || 1024 < host.utf8ByteSize ||
          (family ≠ "ipv4" && family ≠ "ipv6" && family ≠ "dual") then
        reportError "Choose an active path generation, a hostname and a valid address family."
      else do
        -- Starting the child sends hello before the resolution.
        let resolution : Resolution :=
          { requestId := s.nextId + if s.process = .notRunning then 2 else 1
            pathId := pathId
            generation := generation
            family := family
            state := .pending }
        modify fun s => { s with resolution := some resolution }
        request (s.resolveRequest endpoint host family)

/-! ### Subscriptions -/

/-- `refreshSubscription`; `url` is the normalized address, if it is one. -/
def refreshSubscription (url : Option String) : Action State Unit := do
  let s ← get
  if s.controlBusy then return ()
  else
    match url with
    | none =>
      reportError
        "Enter an HTTP or HTTPS subscription URL without user information or a fragment."
    | some url => modify fun s => { s with subscriptionReply := some url }

/-- The end of a subscription: the path of the saved configuration, or what went wrong. -/
def finishSubscription (outcome : Except String String) : Action State Unit := do
  let s ← get
  modify fun s => { s with subscriptionReply := none }
  match outcome with
  | .error message => reportError message
  | .ok configPath => do
    store fun settings => { settings with subscriptionUrl := s.subscriptionReply.getD "" }
    inspectConfiguration configPath

def setSubscriptionFormat (format : String) : Action State Bool := do
  let s ← get
  let previous := s.settings.subscriptionFormat.getD "auto"
  if format ≠ "auto" && format ≠ "mihomo" && format ≠ "base64" then return false
  else if format = previous then return true
  else if s.controlBusy then return false
  else do
    store fun settings => { settings with subscriptionFormat := some format }
    let saved ← save
    if !saved then do
      store fun settings => { settings with subscriptionFormat := some previous }
      reportError "Unable to save the subscription format preference."
      return false
    else do
      when (s.settings.subscriptionUrl ≠ "") (refreshSubscription (some s.settings.subscriptionUrl))
      return true

/-! ### Settings of users -/

def setDnsPolicy (server bootstrapServer family : String) : Action State Bool := do
  let s ← get
  let dns := s.surroundings.canonicalDnsServer server
  let bootstrap := s.surroundings.canonicalDnsServer bootstrapServer
  if s.controlBusy then return false
  else if dns = "" || bootstrap = "" || (family ≠ "ipv4" && family ≠ "ipv6" && family ≠ "dual") then do
    reportError
      "DNS servers must be numeric IP:port addresses, with IPv4, IPv6 or both selected."
    return false
  else do
    store fun settings =>
      { settings with
        dnsServer := some dns, bootstrapServer := some bootstrap, dnsFamily := some family }
    let saved ← save
    if !saved then do
      store fun settings =>
        { settings with
          dnsServer := some s.dnsPolicy.server
          bootstrapServer := some s.dnsPolicy.bootstrapServer
          dnsFamily := some s.dnsPolicy.family }
      reportError "Unable to save DNS settings."
      return false
    else do
      modify fun s => { s with statusText := "DNS saved. Reconnect nodes to apply." }
      return true

/-- The saved gateways with another one. -/
def insertGateway (configuredServerId : String) (gateway : GatewayConfiguration)
    (gatewayByEdge : List (String × GatewayConfiguration)) : List (String × GatewayConfiguration) :=
  (configuredServerId, gateway) :: gatewayByEdge.filter fun entry => entry.1 ≠ configuredServerId

/-- A gateway is used for TCP or for UDP. -/
def GatewayConfiguration.enabled (gateway : GatewayConfiguration) : Bool := gateway.tcp || gateway.udp

/-- The end of `setGatewayConfiguration`, for a server with an open path. -/
def reopenForGateway (configuredServerId : String)
    (previousByEdge : List (String × GatewayConfiguration)) : Action State Bool := do
  let reopened ← reopenSelectedEdge configuredServerId
  if reopened then return true
  else do
    store fun settings => { settings with gatewayByEdge := previousByEdge }
    let saved ← save
    if saved then
      reportError "The selected server could not be reconnected for a gateway generation change."
    else fail "The previous public gateway settings could not be restored."
    return false

def setGatewayConfiguration (configuration : GatewayConfiguration) (configuredServerId : String) :
    Action State Bool := do
  let s ← get
  let previous := s.gatewayConfiguration configuredServerId
  if s.controlBusy then return false
  else if configuredServerId = "" ||
      !s.proxies.any fun proxy => proxy.configuredServerId = configuredServerId then do
    reportError "Choose a server from the loaded subscription before saving its gateway."
    return false
  else
    match s.surroundings.normalizedGateway configuration with
    | none => do
      reportError <| "Enter valid gateway addresses, TLS name, readable certificate files and a port " ++
        "from 0 to 65535."
      return false
    | some gateway =>
      if previous = some gateway then return true
      else do
        store fun settings =>
          { settings with
            gatewayByEdge := insertGateway configuredServerId gateway settings.gatewayByEdge }
        let saved ← save
        if !saved then do
          store fun settings => { settings with gatewayByEdge := s.settings.gatewayByEdge }
          reportError "Unable to save public gateway settings."
          return false
        else if !gateway.enabled && !previous.any GatewayConfiguration.enabled then do
          modify fun s => { s with statusText := "Public gateway disabled." }
          return true
        else if !s.paths.any fun path =>
            path.isOpen && path.configuredServerId = configuredServerId then do
          modify fun s =>
            { s with statusText := if gateway.enabled then
                "Gateway saved. Connect a node to use it." else "Public gateway disabled." }
          return true
        else reopenForGateway configuredServerId s.settings.gatewayByEdge

/-! ### Selected nodes -/

/-- The server of a node of the loaded list. -/
def State.edgeForName (s : State) (name : String) : String :=
  ((s.proxies.find? fun proxy => proxy.name = name).map Proxy.configuredServerId).getD ""

def State.preferredTransport (s : State) (edgeId : String) : String :=
  (s.settings.preferredTransports.lookup edgeId).getD ""

/-- The preferred transports with another one. -/
def insertPreferred (edgeId proxyName : String) (preferred : List (String × String)) :
    List (String × String) :=
  if proxyName = "" then preferred.filter fun entry => entry.1 ≠ edgeId
  else (edgeId, proxyName) :: preferred.filter fun entry => entry.1 ≠ edgeId

/-- The selected nodes of an edge that is to be opened with another transport. -/
def queuePreferred (edgeId proxyName : String) : Action State Unit :=
  modify fun s =>
    let s := { s with
      failedNodes := s.failedNodes.filter (· ≠ proxyName)
      pendingPreferredEdges := s.pendingPreferredEdges.filter (· ≠ edgeId) }
    if s.settings.managedEnabled && proxyName ≠ "" then
      { s with
        pendingPreferredEdges := s.pendingPreferredEdges ++ [edgeId]
        pendingNodes := if s.paths.any fun path => path.edgeId = edgeId && path.isOpen then
            s.pendingNodes else appendNew s.pendingNodes (s.selectedForEdge edgeId) }
    else s

def setPreferredTransport (edgeId proxyName : String) : Action State Bool := do
  let s ← get
  let preferred := insertPreferred edgeId proxyName s.settings.preferredTransports
  if !(s.proxies.any fun proxy => proxy.configuredServerId = edgeId) || (proxyName ≠ "" &&
      !s.proxies.any fun proxy => proxy.configuredServerId = edgeId && proxy.name = proxyName) then do
    reportError "Choose a protocol from the selected server."
    return false
  else if s.preferredTransport edgeId = proxyName then do
    queuePreferred edgeId proxyName
    return true
  else do
    store fun settings => { settings with preferredTransports := preferred }
    let saved ← save
    if !saved then do
      store fun settings => { settings with preferredTransports := s.settings.preferredTransports }
      reportError "Unable to save the preferred protocol."
      return false
    else do
      queuePreferred edgeId proxyName
      return true

def setSelectedNodes (names : List String) : Action State Bool := do
  let s ← get
  if names.contains "" || !decide names.Nodup then do
    reportError "Select distinct nodes from the subscription."
    return false
  else do
    let valid ← selectedNodesValid names
    if !valid then return false
    else do
      store fun settings => { settings with selectedNodes := names }
      let saved ← save
      if saved then do
        modify fun s =>
          if s.settings.managedEnabled then { s with failedNodes := [], pendingNodes := names } else s
        return true
      else do
        store fun settings => { settings with selectedNodes := s.settings.selectedNodes }
        reportError "Unable to save the selected nodes."
        return false

/-- The nodes to be opened, and the request for their list. -/
def startSelectedNodes : Action State Unit := do
  modify fun s => { s with pendingNodes := s.settings.selectedNodes, failedNodes := [] }
  let s ← get
  inspectConfiguration s.settings.configurationPath

def setManagedEnabled (enabled : Bool) (interfaceName : String) : Action State Bool := do
  let s ← get
  if !enabled then useNative
  else if s.nativePending || s.controlBusy then return false
  else if s.settings.selectedNodes.isEmpty || s.settings.configurationPath = "" ||
      (s.nativeEndpointsForInterface interfaceName).isEmpty then do
    reportError "Select nodes and an active physical network adapter first."
    return false
  else do
    let applied ← setPolicy "mixed" interfaceName
    if !applied then return false
    else do
      store fun settings => { settings with managedEnabled := true, interfaceName := interfaceName }
      let saved ← save
      if !saved then do
        store fun settings => { settings with managedEnabled := false }
        forget useNative
        reportError "Unable to save the network selection."
        return false
      else do
        modify fun s => { s with restoreStarted := true }
        startSelectedNodes
        return true

/-- The part of `restoreSelectedNodes` for a managed connection. -/
def restoreManagedNodes : Action State Unit := do
  let s ← get
  if s.settings.selectedNodes.isEmpty || s.settings.configurationPath = "" ||
      (s.nativeEndpointsForInterface s.settings.interfaceName).isEmpty then
    reportError
      "Saved Mihomo nodes could not start. Check the subscription and physical adapter."
  else do
    let applied ← setPolicy "mixed" s.settings.interfaceName
    if applied then startSelectedNodes
    else
      reportError
        "Saved Mihomo nodes could not start. Check the subscription and physical adapter."

def restoreSelectedNodes : Action State Unit := do
  let s ← get
  if s.restoreStarted || !s.surroundings.restored || s.controlBusy then return ()
  else do
    modify fun s => { s with restoreStarted := true }
    if s.settings.managedEnabled then restoreManagedNodes
    else when s.hasRuntimeProxy (forget useNative)

def settleOpeningNode : Action State Unit :=
  modify fun s =>
    match s.openingNode with
    | none => s
    | some opened =>
      { s with
        openingNode := none
        failedNodes :=
          if !(s.paths.any fun path => path.proxyName = opened && path.isOpen) &&
              s.settings.selectedNodes.contains opened && !s.failedNodes.contains opened then
            s.failedNodes ++ [opened]
          else s.failedNodes }

/-- An open path is not of the selected nodes of its edge. -/
def State.unselected (s : State) (path : ActivePath) : Bool :=
  path.isOpen && !((s.selectedForEdge path.edgeId).contains path.proxyName &&
    ((s.selectedForEdge path.edgeId).erase path.proxyName).isPerm path.reserveNames)

def State.preferredSwitch (s : State) (edgeId : String) : Option (ℕ × String) :=
  let preferred := s.preferredTransport edgeId
  (s.paths.find? fun path => path.edgeId = edgeId && path.isOpen).bind fun path =>
    if path.proxyName ≠ preferred && path.reserveNames.contains preferred &&
        !s.failedNodes.contains preferred then
      some (path.endpoint.pathId, preferred)
    else none

def State.nextNode (s : State) (name : String) (rest : List String) : String × List String :=
  let edge := s.edgeForName name
  let preferred := s.preferredTransport edge
  if preferred ≠ name && (s.selectedForEdge edge).contains preferred &&
      !s.failedNodes.contains preferred then
    (preferred, name :: rest.filter (· ≠ preferred))
  else (name, rest)

/-- The end of `openNextSelectedNode`. -/
def openPendingNode : Action State Unit := do
  let s ← get
  match s.pendingNodes with
  | [] => return ()
  | first :: rest => do
    let edge := s.edgeForName first
    let (name, rest) := s.nextNode first rest
    modify fun s => { s with pendingNodes := rest }
    if !s.settings.selectedNodes.contains name || s.failedNodes.contains name || edge = "" ||
        s.paths.any fun path => path.edgeId = edge && path.isOpen then
      return ()
    else do
      modify fun s => { s with openingNode := some name }
      openPath s.settings.configurationPath name s.settings.interfaceName
        ((s.selectedForEdge edge).filter (· ≠ name))
      modify fun s =>
        if s.controlBusy then s
        else
          { s with
            openingNode := none
            failedNodes := if s.failedNodes.contains name then s.failedNodes
              else s.failedNodes ++ [name] }

/-- The part of `openNextSelectedNode` for the preferred transports. -/
def openPreferredNode : Action State Unit := do
  let s ← get
  match s.pendingPreferredEdges with
  | [] => openPendingNode
  | edge :: rest => do
    modify fun s => { s with pendingPreferredEdges := rest }
    match s.preferredSwitch edge with
    | some (pathId, preferred) => switchTransport pathId preferred
    | none => openPendingNode

def openNextSelectedNode : Action State Unit := do
  let s ← get
  if !s.settings.managedEnabled || s.controlBusy then return ()
  else do
    settleOpeningNode
    let s ← get
    match s.paths.find? s.unselected with
    | some path => stopSinglePath path.endpoint.pathId
    | none => openPreferredNode

/-! ### Timers and the process -/

def handleTimeout : Action State Unit := do
  let s ← get
  modify fun s => { s with timeout := false }
  if s.nativePending then return ()
  else fail (if s.resolving then "qbutt-net did not complete DNS resolution within 8 seconds."
    else "qbutt-net did not respond within 15 seconds.")

def State.earliestLease (s : State) : Option (ActivePath × PublicLease) :=
  s.paths.foldl (fun renew path =>
    match path.publicLease, renew with
    | none, _ => renew
    | some lease, none => some (path, lease)
    | some lease, some (_, earliest) =>
      if lease.expiresUnixMilli < earliest.expiresUnixMilli then some (path, lease) else renew) none

def renewLease : Action State Unit := do
  let s ← get
  match s.earliestLease with
  | none => return ()
  | some (path, _) =>
    if !s.controlBusy then
      request (.gatewayRenew path.endpoint.pathId path.endpoint.generation)
    else modify fun s => { s with gatewayRenewal := true }

/-- The timer of the leases. -/
def handleGatewayRenewal : Action State Unit := do
  let s ← get
  modify fun s => { s with gatewayRenewal := false }
  if s.paths.any fun path => path.publicLease.any fun lease =>
      lease.expiresUnixMilli ≤ s.surroundings.now then
    rollOverOrFail "Gateway expired. Reconnecting…"
      "An expired public gateway generation could not be retired safely."
  else renewLease

def refreshRoutes : Action State Unit := do
  let s ← get
  if s.hasRuntimeProxy && s.policy = "mixed" then
    forget (applyPolicy "mixed" s.settings.nativeInterface
      (s.nativeEndpointsForInterface s.settings.nativeInterface))
  else if !s.settings.managedEnabled && !s.hasRuntimeProxy then forget (refreshNativeRoute false)
  else return ()

def handleStatusRefresh : Action State Unit := do
  refreshRoutes
  let s ← get
  when (s.process = .running && s.pendingRequest.isNone && !s.controlBusy &&
    s.paths.any ActivePath.isOpen) (request (.status []))

/-- `QProcess::started`. -/
def handleStarted : Action State Unit := do
  modify fun s => { s with process := .running }
  let s ← get
  when (!s.nativePending) (send .hello)

/-- `QProcess::errorOccurred`; the process may have ended. -/
def handleProcessError (ended : Bool) : Action State Unit := do
  modify fun s => { s with process := if ended then .notRunning else s.process }
  let s ← get
  if s.nativePending then when (s.process = .notRunning) (forget finishUseNative)
  else if s.ignoreProcessExit then return ()
  else fail "Unable to run the bundled qbutt-net process."

/-- `QProcess::finished`. -/
def handleFinished : Action State Unit := do
  modify fun s => { s with process := .notRunning }
  let s ← get
  if s.nativePending then do
    forget finishUseNative
    modify fun s => { s with ignoreProcessExit := false }
  else if s.ignoreProcessExit then modify fun s => { s with ignoreProcessExit := false }
  else fail (if s.hasRuntimeProxy then "qbutt-net stopped. The pinned path remains blocked."
    else "Network helper stopped.")

/-- A frame; while the direct connection is awaited all output is dropped. -/
def handleFrame (frame : Frame) : Action State Unit := do
  let s ← get
  if s.nativePending then return () else handleResponse frame

/-! ### The system -/

/-- What happens to the manager. -/
inductive Stimulus where
  | construct
  | inspect (configPath : String)
  | openPath (configPath proxyName interfaceName : String) (reserveNames : List String)
  | switchTransport (pathId : ℕ) (proxyName : String)
  | stopPath (pathId : Option ℕ)
  | setPolicy (mode nativeInterface : String)
  | useNative
  | setManagedEnabled (enabled : Bool) (interfaceName : String)
  | setSelectedNodes (names : List String)
  | setPreferredTransport (edgeId proxyName : String)
  | setDnsPolicy (server bootstrapServer family : String)
  | setGatewayConfiguration (configuration : GatewayConfiguration) (configuredServerId : String)
  | setSubscriptionFormat (format : String)
  | refreshSubscription (url : Option String)
  | subscriptionFinished (outcome : Except String String)
  | resolveHost (pathId generation : ℕ) (host family : String)
  | restoreSelectedNodes
  | openNextSelectedNode
  | preferencesChanged
  | timeout
  | gatewayRenewal
  | statusRefresh
  | processStarted
  | processError (ended : Bool)
  | processFinished
  | frame (frame : Frame)

def construct : Action State Unit := do
  let s ← get
  modify fun s =>
    { s with
      started := true
      statusText := if s.hasRuntimeProxy then
        "Connection stopped. Connect a node to resume." else "" }
  if s.hasRuntimeProxy then do
    let applied ← applyRoutes false
    when (!applied) (reportError "Unable to restore the saved managed network policy.")
  else forget (refreshNativeRoute true)
  modify fun s => { s with statusRefresh := true }

/-- What the manager does. -/
def handle : Stimulus → Action State Unit
  | .construct => construct
  | .inspect configPath => inspectConfiguration configPath
  | .openPath configPath proxyName interfaceName reserveNames =>
    openPath configPath proxyName interfaceName reserveNames
  | .switchTransport pathId proxyName => switchTransport pathId proxyName
  | .stopPath (some pathId) => stopSinglePath pathId
  | .stopPath none => stopAllPaths
  | .setPolicy mode nativeInterface => forget (setPolicy mode nativeInterface)
  | .useNative => forget useNative
  | .setManagedEnabled enabled interfaceName => forget (setManagedEnabled enabled interfaceName)
  | .setSelectedNodes names => forget (setSelectedNodes names)
  | .setPreferredTransport edgeId proxyName => forget (setPreferredTransport edgeId proxyName)
  | .setDnsPolicy server bootstrapServer family =>
    forget (setDnsPolicy server bootstrapServer family)
  | .setGatewayConfiguration configuration configuredServerId =>
    forget (setGatewayConfiguration configuration configuredServerId)
  | .setSubscriptionFormat format => forget (setSubscriptionFormat format)
  | .refreshSubscription url => refreshSubscription url
  | .subscriptionFinished outcome => finishSubscription outcome
  | .resolveHost pathId generation host family => resolveHost pathId generation host family
  | .restoreSelectedNodes => restoreSelectedNodes
  | .openNextSelectedNode => openNextSelectedNode
  | .preferencesChanged => do
    let s ← get
    forget (refreshNativeRoute s.nativeEndpoints.isEmpty)
  | .timeout => handleTimeout
  | .gatewayRenewal => handleGatewayRenewal
  | .statusRefresh => handleStatusRefresh
  | .processStarted => handleStarted
  | .processError ended => handleProcessError ended
  | .processFinished => handleFinished
  | .frame frame => handleFrame frame

/-- When a stimulus can happen: the constructor comes first, timers fire while they run, and users ask
for a list while the manager is not busy. -/
def State.admits (s : State) : Stimulus → Bool
  | .construct => !s.started
  | .inspect _ => s.started && !s.isBusy
  | .subscriptionFinished _ => s.started && s.subscriptionReply.isSome
  | .timeout => s.started && s.timeout
  | .gatewayRenewal => s.started && s.gatewayRenewal
  | .statusRefresh => s.started && s.statusRefresh
  | .processStarted => s.started && s.process = .starting
  | _ => s.started

/-- A step: what happens, what is found then, and the answers of the environment, in their order. -/
structure Label where
  stimulus : Stimulus
  surroundings : Surroundings
  answers : List (Query × Bool)

/-- A step is taken when all questions of the manager, and no others, are answered. -/
def step (s : State) (label : Label) : Option State :=
  if s.admits label.stimulus then
    let s' := (handle label.stimulus { s with
      surroundings := label.surroundings, answers := label.answers, asked := [] }).2
    if s'.asked = label.answers then some s' else none
  else none

/-- The state before the constructor. -/
def fresh (settings : Settings) (dirty : Bool) (surroundings : Surroundings) : State where
  started := false
  process := .notRunning
  subscriptionReply := none
  timeout := false
  gatewayRenewal := false
  statusRefresh := false
  requestQueue := []
  pendingRequest := none
  resolution := none
  proxies := []
  paths := []
  nativeEndpoints := []
  nextId := 0
  generation := 0
  nextPathId := 2
  nativeGeneration := 0
  pendingStopPath := none
  pathRollover := []
  pendingNodes := []
  failedNodes := []
  openingNode := none
  pendingPreferredEdges := []
  pendingEdgeReopen := none
  nativePending := false
  nativeWasEnabled := false
  ignoreProcessExit := false
  restoreStarted := false
  rolloverOpening := false
  rolloverFailed := false
  statusText := ""
  settings := settings
  dirty := dirty
  runtimeProxy := if settings.runtimeRequired then some blockedRuntimeProxy else none
  session := { routes := none, installed := [], trusted := [], inbound := [], invalidated := [] }
  sent := []
  rollover := none
  surroundings := surroundings
  answers := []
  asked := []

def newSettings : Settings where
  subscriptionUrl := ""
  subscriptionFormat := none
  configurationPath := ""
  proxyName := ""
  interfaceName := ""
  selectedNodes := []
  preferredTransports := []
  managedEnabled := false
  policy := none
  nativeInterface := ""
  dnsServer := none
  bootstrapServer := none
  dnsFamily := none
  gatewayByEdge := []
  runtimeRequired := false

/-- Surroundings with some endpoints on every adapter, to which the session is bound if there are any. -/
def plainSurroundings (endpoints : List PeerRouteEndpoint) : Surroundings where
  now := 0
  isoDate _ := ""
  restored := true
  hasNativeBindingIntent _ _ := !endpoints.isEmpty
  nativeEndpointsForInterface _ _ := endpoints
  nativeEndpointsForSessionBinding _ _ := endpoints
  fitsControlFrame _ := true
  canonicalDnsServer text := text
  normalizedGateway gateway := some gateway

/-- The system: any settings may have been saved. -/
def manager : System State Label where
  initial s := ∃ settings dirty surroundings, s = fresh settings dirty surroundings
  step := step

end Qbutt.Paths
