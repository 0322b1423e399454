import Qbutt.Paths.Rollover

/-!
# What the helper process says

`handleResponse` and `handleEvent`.  A handler of a result says whether `handleResponse` goes on to the
next request; it does not where the source returns.
-/

namespace Qbutt.Paths

open Action

/-! ### Errors -/

def operationalGatewayError (request : Request) (errorCode : String) : Bool :=
  match request with
  | .gatewayOpen .. =>
    ["invalid_gateway", "gateway_credentials_unreadable", "gateway_credentials_invalid",
      "gateway_relay_failed", "gateway_connect_failed", "gateway_authentication_failed",
      "gateway_protocol_error", "gateway_datagrams_failed", "gateway_lease_rejected"].contains errorCode
  | .gatewayRenew .. => ["gateway_renew_failed", "gateway_not_open"].contains errorCode
  | .gatewayClose .. => ["gateway_close_failed", "gateway_not_open"].contains errorCode
  | _ => false

/-- The errors of `transport.replace` that the manager goes on with. -/
def operationalTransportError (errorCode : String) : Bool :=
  ["transport_config_changed", "transport_open_failed", "invalid_transport_selection",
    "unsupported_final_mask"].contains errorCode

def listErrorText (errorCode : String) : String :=
  if errorCode = "invalid_config" || errorCode = "no_proxies" then
    "Subscription must contain supported Mihomo or Base64 nodes."
  else if errorCode = "proxy_limit" || errorCode = "response_limit" then
    "Subscription contains too many nodes for one import."
  else if errorCode = "invalid_proxy_identity" then
    "Subscription contains duplicate, empty or oversized node names."
  else if errorCode = "config_limit" then "Subscription exceeds the 2 MiB limit."
  else "Unable to read the subscription."

def requestErrorText (errorCode : String) : String :=
  if errorCode = "unsupported_final_mask" then
    "The selected node uses unsupported masking settings."
  else "qbutt-net rejected the request. Check the selected node and interface."

def handleReplaceError (request : OpenRequest) (errorCode : String) : Action State Unit :=
  if !operationalTransportError errorCode then
    fail "qbutt-net rejected a transport replacement invariant."
  else do
    modify fun s =>
      { s with failedNodes := if s.failedNodes.contains request.proxyName then s.failedNodes
          else s.failedNodes ++ [request.proxyName] }
    reportError (if errorCode = "unsupported_final_mask" then
        "The selected node uses unsupported masking settings."
      else "The selected protocol could not start. The current connection remains active.")
    sendQueuedRequest

def handleListError (errorCode : String) : Action State Unit := do
  modify fun s =>
    { s with pendingNodes := if s.openingNode.isNone then [] else s.pendingNodes }
  sendQueuedRequest
  reportError (listErrorText errorCode)

def handleOpenError (errorCode : String) : Action State Unit := do
  let s ← get
  if s.rolloverOpening then do
    modify fun s => { s with rolloverFailed := true, rolloverOpening := false }
    reportError "qbutt-net rejected a path while applying the public gateway settings."
    startNextPathRollover
  else do
    sendQueuedRequest
    reportError (requestErrorText errorCode)

/-- An error of a resolution; the failed bootstrap of the DHT is not reported. -/
def handleResolveError (errorCode : String) : Action State Unit := do
  finishResolution (.failed "path_dns_failed")
  sendQueuedRequest
  reportError (requestErrorText errorCode)

/-- The part of `handleResponse` for errors. -/
def handleError (request : Request) (errorCode : String) (exactError : Bool) : Action State Unit :=
  match request with
  | .gatewayOpen pathId generation _ | .gatewayRenew pathId generation
  | .gatewayClose pathId generation =>
    if exactError && operationalGatewayError request errorCode then
      handleGatewayFailure request pathId generation
    else fail "qbutt-net rejected a gateway path-generation invariant."
  | .hello => fail "The bundled qbutt-net rejected the protocol handshake."
  | _ =>
    if !exactError then fail "The bundled qbutt-net rejected the protocol handshake."
    else
      match request with
      | .status _ => fail "The bundled qbutt-net rejected transport status reporting."
      | .closePath .. => fail "qbutt-net could not retire a stopped path generation."
      | .transportReplace request _ => handleReplaceError request errorCode
      | .list .. => handleListError errorCode
      | .openPath _ => handleOpenError errorCode
      | _ => handleResolveError errorCode

/-! ### Lists of nodes -/

def serverOf (proxies : List Proxy) (name : String) : String :=
  ((proxies.reverse.find? fun proxy => proxy.name = name).map Proxy.configuredServerId).getD ""

def selectedNodesListed (proxies : List Proxy) (opening : Opening) : Bool :=
  serverOf proxies opening.proxyName ≠ "" &&
    proxies.length = opening.reserveNames.length + 1 &&
    opening.reserveNames.all fun name => serverOf proxies name ≠ ""

/-- `selectedNodesValid`, without what it reports: the edges of the names, of which there are eight at
most, are known. -/
def State.selectedNodesError (s : State) (names : List String) : Option String :=
  if names.any fun name => !s.proxies.any fun proxy => proxy.name = name then
    some "A selected node is missing from the subscription."
  else if names.any fun name =>
      (s.proxies.find? fun proxy => proxy.name = name).any fun proxy =>
        proxy.configuredServerId = "" then
    some "A selected node has no configured server."
  else if 8 < (names.filterMap fun name =>
      (s.proxies.find? fun proxy => proxy.name = name).map Proxy.configuredServerId).dedup.length then
    some "Select at most eight servers."
  else none

def selectedNodesValid (names : List String) : Action State Bool := do
  let s ← get
  match s.selectedNodesError names with
  | none => return true
  | some message => do
    reportError message
    return false

/-- The nodes that are still to be opened, after a new list. -/
def checkPendingNodes : Action State Unit := do
  let s ← get
  when (!s.pendingNodes.isEmpty && s.openingNode.isNone) (do
    let valid ← selectedNodesValid s.pendingNodes
    when (!valid) (modify fun s => { s with pendingNodes := [] }))

def handleList (configPath : String) (opening : Option Opening) : Result → Action State Bool
  | .list proxies =>
    match opening with
    | some opening =>
      if !selectedNodesListed proxies opening then do
        fail "qbutt-net returned an unexpected selected node."
        return false
      else if opening.reserveNames.any fun name =>
          serverOf proxies name ≠ serverOf proxies opening.proxyName then do
        reportError "Choose protocols from the same configured server."
        return true
      else do
        openIdentifiedPath configPath opening.proxyName opening.interfaceName
          (serverOf proxies opening.proxyName) opening.reserveNames
          (opening.reserveNames.map fun name => (name, serverOf proxies name))
        return true
    | none => do
      store fun settings => { settings with configurationPath := configPath }
      modify fun s => { s with proxies := proxies }
      checkPendingNodes
      return true
  | _ => do
    fail "qbutt-net returned an invalid proxy list."
    return false

/-! ### Opened paths -/

def openedPath (request : OpenRequest) (result : EndpointResult) : ActivePath where
  endpoint :=
    { type := .socks5
      pathId := request.pathId
      generation := request.generation
      port := result.port
      username := result.socksUsername
      password := result.socksPassword
      supportsIPv4 := request.dns.family ≠ "ipv6"
      supportsIPv6 := request.dns.family ≠ "ipv4"
      supportsUdp := result.sourceUdp }
  configurationPath := request.configPath
  edgeId := result.configuredServerId
  configuredServerId := result.configuredServerId
  proxyName := request.proxyName
  reserveNames := request.reserveNames
  reserveServerIds := request.reserveServerIds
  transport := none
  interfaceName := request.interfaceName
  dnsPolicy := request.dns
  wire := none
  publicLease := none

def EndpointResult.answers (result : EndpointResult) (request : OpenRequest) : Bool :=
  0 < result.port && result.port ≤ 65535 && result.pathId = request.pathId &&
    result.generation = request.generation && result.generation ≤ maxControlId &&
    result.interfaceName = request.interfaceName &&
    result.configuredServerId = request.configuredServerId

def placePath (paths : List ActivePath) (path : ActivePath) (primary : Bool) : List ActivePath :=
  let known := paths.any fun entry => entry.endpoint.pathId = path.endpoint.pathId
  let others := paths.filter fun entry => entry.endpoint.pathId ≠ path.endpoint.pathId
  if primary then path :: others
  else if known then
    paths.map fun entry => if entry.endpoint.pathId = path.endpoint.pathId then path else entry
  else paths ++ [path]

/-- The proxy of the first path. -/
def State.primaryProxy (s : State) : ProxyConfiguration :=
  match s.paths.head? with
  | none => blockedRuntimeProxy
  | some path =>
    if path.isOpen then
      { port := path.endpoint.port, username := path.endpoint.username
        password := path.endpoint.password }
    else blockedRuntimeProxy

def rememberOpened (request : OpenRequest) : Action State Unit :=
  store fun settings =>
    { settings with
      configurationPath := request.configPath
      proxyName := request.proxyName
      interfaceName := request.interfaceName }

/-- The end of `handleResponse` for an opened path: its gateway, or the next path of a rollover. -/
def finishOpened (request : OpenRequest) (gatewayQueued : Bool) : Action State Unit := do
  modify fun s =>
    { s with statusText := if gatewayQueued then
        "Opening incoming connections for " ++ request.proxyName ++ "…" else "" }
  let s ← get
  when (s.rolloverOpening && !gatewayQueued) (do
    modify fun s => { s with rolloverOpening := false }
    startNextPathRollover)
  modify fun s => { s with statusRefresh := true }

def queueGatewayOpenOf (pathId : ℕ) : Action State Bool := do
  let s ← get
  match s.path pathId with
  | none => return false
  | some path => queueGatewayOpen path

def applyOpened (gatewayQueued : Bool) : Action State Bool :=
  if gatewayQueued then return true else applyRoutes false

def handleOpen (request : OpenRequest) : Result → Action State Bool
  | .endpoint result => do
    let s ← get
    if !result.answers request then do
      fail "qbutt-net returned an invalid authenticated loopback endpoint."
      return false
    else do
      let replacePrimary := !s.rolloverOpening && s.currentPolicy = "pinned" && !s.isOpen
      modify fun s =>
        { s with paths := placePath s.paths (openedPath request result) replacePrimary }
      let s ← get
      let saved ← setRuntimeProxy s.primaryProxy
      if !saved then do
        fail "Unable to save the pinned startup policy. The path remains blocked."
        return false
      else do
        rememberOpened request
        let gatewayQueued ← queueGatewayOpenOf request.pathId
        let applied ← applyOpened gatewayQueued
        if !applied then do
          fail "Unable to apply the network routes returned by qbutt-net."
          return false
        else do
          finishOpened request gatewayQueued
          return true
  | _ => do
    fail "qbutt-net returned an invalid authenticated loopback endpoint."
    return false

def handleReplace (request : OpenRequest) (previousGeneration : ℕ) : Result → Action State Bool
  | .endpoint result => do
    let s ← get
    if !result.answers request then do
      fail "qbutt-net returned an invalid authenticated loopback endpoint."
      return false
    else if !(s.path request.pathId).any fun path =>
        path.isOpen && path.endpoint.generation = previousGeneration then do
      fail "qbutt-net replaced an unexpected path generation."
      return false
    else do
      modify fun s => { s with paths := placePath s.paths (openedPath request result) false }
      let s ← get
      let saved ← setRuntimeProxy s.primaryProxy
      if !saved then do
        fail "Unable to save the pinned startup policy. The path remains blocked."
        return false
      else do
        rememberOpened request
        stopResolution request.pathId
        let applied ← applyTrustedAndRoutes
        if !applied then do
          fail "Unable to apply the replacement network path."
          return false
        else do
          invalidateNetworkRoute request.pathId previousGeneration
          scheduleGatewayRenewal
          modify fun s =>
            { s with failedNodes := s.failedNodes.filter (· ≠ request.proxyName) }
          let gatewayQueued ← queueGatewayOpenOf request.pathId
          finishOpened request gatewayQueued
          return true
  | _ => do
    fail "qbutt-net returned an invalid authenticated loopback endpoint."
    return false

/-! ### Leases -/

def LeaseResult.publicLease (result : LeaseResult) : PublicLease where
  route :=
    { pathId := result.pathId
      generation := result.generation
      publicAddress := result.publicEndpoint.address
      publicPort := result.publicEndpoint.port
      relayAddress := result.relay.address
      relayPort := result.relay.port }
  publicEndpoint := result.publicEndpoint.text
  family := if result.publicEndpoint.isIPv4 then "ipv4" else "ipv6"
  tcp := result.tcp
  udp := result.udp
  expiresUnixMilli := result.expiresUnixMilli

def LeaseResult.validFor (result : LeaseResult) (path : ActivePath) (now : ℤ) : Bool :=
  path.isOpen && path.endpoint.generation = result.generation &&
    result.publicEndpoint.isGlobal &&
    (if result.publicEndpoint.isIPv4 then path.endpoint.supportsIPv4
      else path.endpoint.supportsIPv6) &&
    (!result.udp || path.endpoint.supportsUdp) &&
    result.relay.address = "127.0.0.1" && now < result.expiresUnixMilli &&
    result.expiresUnixMilli ≤ now + 300000

def LeaseResult.renews (result : LeaseResult) (lease : PublicLease) : Bool :=
  lease.publicEndpoint = result.publicEndpoint.text && lease.route.relayPort = result.relay.port &&
    lease.tcp = result.tcp && lease.udp = result.udp &&
    lease.expiresUnixMilli < result.expiresUnixMilli

def ActivePath.withLease (path : ActivePath) (result : LeaseResult) : ActivePath :=
  { path with
    publicLease := some result.publicLease
    endpoint := { path.endpoint with
      publicAddress := result.publicEndpoint.address
      publicPort := result.publicEndpoint.port
      publicTcp := result.tcp
      publicUdp := result.udp } }

/-- The path whose lease is renewed. -/
def ActivePath.withExpiry (path : ActivePath) (expiresUnixMilli : ℤ) : ActivePath :=
  { path with publicLease :=
      path.publicLease.map fun lease => { lease with expiresUnixMilli := expiresUnixMilli } }

/-- The end of `handleResponse` for a lease. -/
def finishLease (result : LeaseResult) : Action State Unit := do
  modify fun s =>
    { s with statusText := "Public gateway lease active for " ++ result.publicEndpoint.text ++
        " until " ++ s.surroundings.isoDate result.expiresUnixMilli ++ "." }
  scheduleGatewayRenewal

def handleGatewayOpen (pathId generation : ℕ) (gateway : GatewayConfiguration) :
    Result → Action State Bool
  | .lease result => do
    let s ← get
    if !(s.path result.pathId).any (fun path => result.validFor path s.surroundings.now) ||
        result.pathId ≠ pathId || result.generation ≠ generation ||
        result.tcp ≠ gateway.tcp || result.udp ≠ gateway.udp then do
      fail "qbutt-net returned an invalid public gateway lease."
      return false
    else do
      updatePath pathId fun path => path.withLease result
      let applied ← applyTrustedAndRoutes
      if !applied then do
        fail "Unable to register the verified public gateway lease with libtorrent."
        return false
      else do
        finishLease result
        let s ← get
        when s.rolloverOpening (do
          modify fun s => { s with rolloverOpening := false }
          startNextPathRollover)
        return true
  | _ => do
    fail "qbutt-net returned an invalid public gateway lease."
    return false

def handleGatewayRenew (pathId generation : ℕ) : Result → Action State Bool
  | .lease result => do
    let s ← get
    if !(s.path result.pathId).any (fun path => result.validFor path s.surroundings.now &&
          path.publicLease.any result.renews) ||
        result.pathId ≠ pathId || result.generation ≠ generation then do
      fail "qbutt-net returned an invalid public gateway lease."
      return false
    else do
      updatePath pathId fun path => path.withExpiry result.expiresUnixMilli
      finishLease result
      return true
  | _ => do
    fail "qbutt-net returned an invalid public gateway lease."
    return false

def handleGatewayClose (pathId generation : ℕ) : Result → Action State Bool
  | .empty => do
    let s ← get
    if !(s.path pathId).any fun path =>
        path.publicLease.isSome && path.endpoint.generation = generation then do
      fail "qbutt-net did not retire the expected public gateway lease."
      return false
    else if s.pendingStopPath ≠ some pathId then do
      fail "qbutt-net retired an unexpected public gateway lease."
      return false
    else do
      updatePath pathId ActivePath.clearGatewayLease
      modify fun s => { s with pendingStopPath := none }
      finishStopPath pathId
  | _ => do
    fail "qbutt-net did not retire the expected public gateway lease."
    return false

/-! ### Status -/

/-- Whether the counters of a path did not decrease. -/
def ActivePath.monotonic (path : ActivePath) (entry : StatusEntry) : Bool :=
  path.wire.all fun wire => (wire.zip entry.wire).all fun pair => pair.1 ≤ pair.2

/-- Why an entry of a status does not fit the paths. -/
def State.statusError (s : State) (entry : StatusEntry) : Option String :=
  match s.path entry.pathId with
  | none => some "qbutt-net returned stale or decreasing transport counters."
  | some path =>
    if !path.isOpen || path.endpoint.generation ≠ entry.generation || !path.monotonic entry then
      some "qbutt-net returned stale or decreasing transport counters."
    else if (entry.transport.recommended ≠ "" &&
          !path.reserveNames.contains entry.transport.recommended) ||
        ((entry.transport.state = "disabled") ≠ path.reserveNames.isEmpty) then
      some "qbutt-net recommended an unselected reserve transport."
    else none

/-- The loop over the entries of a status, each of which is one of the expected paths; `seen` are the
paths before it.  While requests are queued the entries are only checked. -/
def readStatus (expectedPaths : List (ℕ × ℕ)) : List ℕ → List StatusEntry → Action State Bool
  | _, [] => return true
  | seen, entry :: entries => do
    let s ← get
    if seen.contains entry.pathId || !expectedPaths.contains (entry.pathId, entry.generation) then do
      fail "qbutt-net returned status for an invalid path generation."
      return false
    else if !s.requestQueue.isEmpty then readStatus expectedPaths (entry.pathId :: seen) entries
    else
      match s.statusError entry with
      | some message => do
        fail message
        return false
      | none => do
        updatePath entry.pathId fun path =>
          { path with wire := some entry.wire, transport := some entry.transport }
        readStatus expectedPaths (entry.pathId :: seen) entries

def State.readyPath (s : State) : Option (ℕ × String) :=
  s.paths.findSome? fun path =>
    path.transport.bind fun transport =>
      if path.isOpen && transport.state = "ready" &&
          !s.failedNodes.contains transport.recommended then
        some (path.endpoint.pathId, transport.recommended)
      else none

def followRecommendation : Action State Unit := do
  let s ← get
  match s.readyPath with
  | none => return ()
  | some (pathId, recommended) =>
    when s.requestQueue.isEmpty (switchTransport pathId recommended)

def handleStatus (expectedPaths : List (ℕ × ℕ)) : Result → Action State Bool
  | .status entries =>
    if entries.length ≠ expectedPaths.length || 8 < entries.length then do
      fail "qbutt-net returned an invalid transport status."
      return false
    else do
      let read ← readStatus expectedPaths [] entries
      if !read then return false
      else do
        followRecommendation
        return true
  | _ => do
    fail "qbutt-net returned an invalid transport status."
    return false

/-! ### Resolutions -/

/-- Whether the addresses of an answer are of the requested family and of the one of the policy. -/
def validAddresses (family policyFamily : String) (values : List ResolvedAddress) : Bool :=
  decide (values.map ResolvedAddress.text).Nodup &&
    values.all fun value =>
      !((family = "ipv4" || policyFamily = "ipv4") && !value.isIPv4) &&
        !((family = "ipv6" || policyFamily = "ipv6") && value.isIPv4)

def finishAddresses (family policyFamily : String) (values : List ResolvedAddress) :
    Action State Bool :=
  if values.isEmpty || 64 < values.length then do
    fail "qbutt-net returned an invalid DNS address list."
    return false
  else if !validAddresses family policyFamily values then do
    fail "qbutt-net returned an invalid DNS address or family."
    return false
  else do
    finishResolution (.complete values)
    return true

def handleResolve (pathId generation : ℕ) (family : String) (result : Result) :
    Action State Bool := do
  let s ← get
  if (s.findEndpoint pathId generation none).isNone then do
    finishResolution (.failed "path_stopped")
    return true
  else
    match result with
    | .addresses values =>
      finishAddresses family (((s.path pathId).map fun path => path.dnsPolicy.family).getD "") values
    | _ => do
      fail "qbutt-net returned an invalid DNS address list."
      return false

def handleResolveNative (pathId generation : ℕ) (family : String) (dns : DnsPolicy)
    (result : Result) : Action State Bool := do
  let s ← get
  if (s.findEndpoint pathId generation none).isNone then do
    finishResolution (.failed "path_stopped")
    return true
  else
    match result with
    | .nativeAddresses pathId' generation' values =>
      if pathId' ≠ pathId || generation' ≠ generation then do
        fail "qbutt-net returned a mismatched DNS path generation."
        return false
      else finishAddresses family dns.family values
    | _ => do
      fail "qbutt-net returned an invalid DNS address list."
      return false

/-! ### Closed paths -/

def State.selectedForEdge (s : State) (edgeId : String) : List String :=
  s.settings.selectedNodes.filter fun name =>
    (s.proxies.find? fun proxy => proxy.name = name).any fun proxy =>
      proxy.configuredServerId = edgeId

/-- The names that are not there yet, behind those that are. -/
def appendNew (names added : List String) : List String :=
  added.foldl (fun names name => if names.contains name then names else names ++ [name]) names

def reopenClosed (pathId : ℕ) : Action State Unit := do
  let s ← get
  match s.pendingEdgeReopen with
  | none => return ()
  | some reopen =>
    if reopen.pathId ≠ pathId then return ()
    else do
      modify fun s => { s with pendingEdgeReopen := none }
      if s.settings.managedEnabled then
        modify fun s =>
          { s with pendingNodes :=
              appendNew s.pendingNodes (s.selectedForEdge reopen.configuredServerId) }
      else
        openPath reopen.configurationPath reopen.proxyName reopen.interfaceName reopen.reserveNames

def handleClose (pathId : ℕ) : Result → Action State Bool
  | .empty => do
    modify fun s =>
      { s with statusRefresh := s.statusRefresh &&
          (s.policy = "mixed" || s.paths.any ActivePath.isOpen) }
    reopenClosed pathId
    return true
  | _ => do
    fail "qbutt-net returned an invalid path close response."
    return false

/-! ### Responses and events -/

def handleHello : Result → Action State Bool
  | .hello => return true
  | _ => do
    fail "The bundled qbutt-net is incompatible with this application."
    return false

def handleResultOf (request : Request) (result : Result) : Action State Bool :=
  match request with
  | .hello => handleHello result
  | .list configPath opening => handleList configPath opening result
  | .openPath request => handleOpen request result
  | .transportReplace request generation => handleReplace request generation result
  | .gatewayOpen pathId generation gateway => handleGatewayOpen pathId generation gateway result
  | .gatewayRenew pathId generation => handleGatewayRenew pathId generation result
  | .gatewayClose pathId generation => handleGatewayClose pathId generation result
  | .status expectedPaths => handleStatus expectedPaths result
  | .resolve pathId generation _ family => handleResolve pathId generation family result
  | .resolveNative pathId generation _ family dns =>
    handleResolveNative pathId generation family dns result
  | .closePath pathId _ => handleClose pathId result

/-- The part of `handleResponse` for results. -/
def handleResult (request : Request) (result : Result) : Action State Unit := do
  let proceed ← handleResultOf request result
  when proceed sendQueuedRequest

def handleGatewayClosed (pathId generation : ℕ) : Action State Unit := do
  let s ← get
  match s.path pathId with
  | none => fail "qbutt-net returned a terminal event for an unknown path generation."
  | some path =>
    if path.endpoint.generation < generation then
      fail "qbutt-net returned a terminal event for an unknown path generation."
    else if generation < path.endpoint.generation || path.publicLease.isNone then return ()
    else
      rollOverOrFail
        "A public gateway connection ended. Reconnecting paths with new generations."
        "The ended public gateway generation could not be retired safely."

/-- Whether a connection came through a lease. -/
def PublicLease.admits (lease : PublicLease) (publicEndpoint : String) (relayPort : ℕ) (now : ℤ) :
    Bool :=
  lease.tcp && now < lease.expiresUnixMilli && publicEndpoint = lease.publicEndpoint &&
    relayPort = lease.route.relayPort

def handleIncomingTcp (pathId generation : ℕ) (remote : NumericEndpoint) (publicEndpoint : String)
    (relayPort : ℕ) : Action State Unit := do
  let s ← get
  match s.path pathId with
  | none => fail "qbutt-net returned incoming metadata for an unknown path generation."
  | some path =>
    if path.endpoint.generation < generation then
      fail "qbutt-net returned incoming metadata for an unknown path generation."
    -- A queued event can precede the replacement of its path; its connection is not admitted.
    else if generation < path.endpoint.generation || !path.isOpen then return ()
    else
      match path.publicLease with
      | none => fail "qbutt-net returned incoming metadata outside the active gateway lease."
      | some lease =>
        if !lease.admits publicEndpoint relayPort s.surroundings.now then
          fail "qbutt-net returned incoming metadata outside the active gateway lease."
        else do
          let accepted ← acceptTrustedInbound lease.route remote
          when (!accepted) (modify fun s =>
            { s with statusText := "An incoming gateway connection was rejected " ++
                "before it entered the torrent session." })

def handleEvent : Event → Action State Unit
  | .gatewayClosed pathId generation => handleGatewayClosed pathId generation
  | .incomingTcp pathId generation remote publicEndpoint relayPort =>
    handleIncomingTcp pathId generation remote publicEndpoint relayPort
  | .malformed terminal =>
    fail (if terminal then "qbutt-net returned an invalid terminal gateway event."
      else "qbutt-net returned invalid trusted incoming metadata.")

def handleAnswer (request : Request) : Response → Action State Unit
  | .error code exactError => do
    modify fun s => { s with pendingRequest := none, timeout := false }
    handleError request code exactError
  | .result result => do
    modify fun s => { s with pendingRequest := none, timeout := false }
    handleResult request result
  | .malformed => fail "qbutt-net returned an invalid control response envelope."

/-- `handleResponse`, with the checks of `readOutput`. -/
def handleResponse : Frame → Action State Unit
  | .event version event =>
    if !version then fail "qbutt-net returned an incompatible event." else handleEvent event
  | .response version id response => do
    let s ← get
    match s.pendingRequest with
    | none => fail "qbutt-net control version or request identifier does not match."
    | some pending =>
      if !version || id ≠ pending.id then
        fail "qbutt-net control version or request identifier does not match."
      else handleAnswer pending.request response
  | .malformed => fail "qbutt-net returned an invalid control frame."

end Qbutt.Paths
