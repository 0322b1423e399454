import Qbutt.Paths.Policy

/-!
# Opening and stopping paths

The operations on single paths, and the rollover that opens all paths again with new generations.
-/

namespace Qbutt.Paths

open Action

/-! ### Gateways -/

def State.gatewayConfiguration (s : State) (configuredServerId : String) :
    Option GatewayConfiguration :=
  s.settings.gatewayByEdge.lookup configuredServerId

def queueGatewayOpen (path : ActivePath) : Action State Bool := do
  let s ← get
  if path.publicLease.isSome || !path.isOpen then return false
  else
    match s.gatewayConfiguration path.edgeId with
    | none => return false
    | some gateway =>
      if !gateway.tcp && !gateway.udp then return false
      else do
        modify fun s =>
          { s with requestQueue := s.requestQueue ++
              [.gatewayOpen path.endpoint.pathId path.endpoint.generation gateway] }
        return true

def queueGatewayClose (path : ActivePath) : Action State Unit :=
  modify fun s =>
    { s with
      gatewayRenewal := false
      requestQueue := s.requestQueue ++
        [.gatewayClose path.endpoint.pathId path.endpoint.generation] }

/-! ### Rollovers -/

def ActivePath.rollover (path : ActivePath) : PathRollover where
  pathId := path.endpoint.pathId
  configurationPath := path.configurationPath
  proxyName := path.proxyName
  reserveNames := path.reserveNames
  reserveServerIds := path.reserveServerIds
  interfaceName := path.interfaceName
  configuredServerId := path.configuredServerId
  dnsPolicy := path.dnsPolicy

def OpenRequest.rollover (request : OpenRequest) : PathRollover where
  pathId := request.pathId
  configurationPath := request.configPath
  proxyName := request.proxyName
  reserveNames := request.reserveNames
  reserveServerIds := request.reserveServerIds
  interfaceName := request.interfaceName
  configuredServerId := request.configuredServerId
  dnsPolicy := request.dns

def Request.opened : Request → Option OpenRequest
  | .openPath request => some request
  | .transportReplace request _ => some request
  | _ => none

/-- The requests that are not answered, in the order of `activePathRollover`. -/
def State.requests (s : State) : List Request :=
  (s.pendingRequest.map PendingRequest.request).toList ++ s.requestQueue

def appendRollover (pendingStopPath : Option ℕ) (result : List PathRollover) (path : PathRollover) :
    List PathRollover :=
  if path.pathId = 0 || pendingStopPath = some path.pathId ||
      result.any fun entry => entry.pathId = path.pathId then result
  else result ++ [path]

/-- The paths that are open, requested, or left of an earlier rollover. -/
def State.rolloverCandidates (s : State) : List PathRollover :=
  (s.paths.filter ActivePath.isOpen).map ActivePath.rollover ++
    (s.requests.filterMap Request.opened).map OpenRequest.rollover ++ s.pathRollover

def State.activePathRollover (s : State) : List PathRollover :=
  s.rolloverCandidates.foldl (appendRollover s.pendingStopPath) []

/-- The request that `startNextPathRollover` makes. -/
def PathRollover.request (path : PathRollover) (generation : ℕ) : OpenRequest where
  configPath := path.configurationPath
  proxyName := path.proxyName
  pathId := path.pathId
  generation := generation
  interfaceName := path.interfaceName
  configuredServerId := path.configuredServerId
  dns := path.dnsPolicy
  reserveNames := path.reserveNames
  reserveServerIds := path.reserveServerIds

def startNextPathRollover : Action State Unit := do
  let s ← get
  if s.rolloverOpening || s.pendingRequest.isSome || !s.requestQueue.isEmpty then return ()
  else
    match s.pathRollover with
    | [] =>
      modify fun s =>
        { s with
          rolloverFailed := false
          statusText := if s.rolloverFailed then "Some connections could not be restored."
            else "Connections restored."
          rollover := s.rollover.map fun record =>
            { record with finished := some s.generation } }
    | path :: rest => do
      modify fun s =>
        { s with
          pathRollover := rest
          rolloverOpening := true
          generation := s.generation + 1
          rollover := s.rollover.map fun record =>
            { record with requested := record.requested ++ [path.request (s.generation + 1)] } }
      request (.openPath (path.request (s.generation + 1)))

def beginPathRollover (paths : List PathRollover) (status : String) : Action State Bool :=
  if paths.isEmpty then return false
  else do
    let stopped ← shutdown
    if !stopped then return false
    else do
      modify fun s =>
        { s with
          pathRollover := paths
          rolloverFailed := false
          statusText := status
          rollover := some
            { paths := paths, generation := s.generation, requested := [], finished := none } }
      startNextPathRollover
      return true

/-- `beginPathRollover` for all paths, or the failure with `message`. -/
def rollOverOrFail (status message : String) : Action State Unit := do
  let s ← get
  let begun ← beginPathRollover s.activePathRollover status
  when (!begun) (fail message)

/-! ### Stopping a path -/

def stopResolution (pathId : ℕ) : Action State Unit := do
  let s ← get
  when (s.resolution.any fun resolution => resolution.pathId = pathId)
    (finishResolution (.failed "path_stopped"))

def blockPrimary (pathId : ℕ) : Action State Unit := do
  let s ← get
  when (s.paths.head?.any fun path => path.endpoint.pathId = pathId)
    (forget (setRuntimeProxy blockedRuntimeProxy))

def revokePath (pathId generation : ℕ) : Action State Bool := do
  updatePath pathId ActivePath.stopped
  stopResolution pathId
  let applied ← applyTrustedAndRoutes
  if !applied then do
    fail "Unable to revoke the selected network path."
    return false
  else do
    invalidateNetworkRoute pathId generation
    blockPrimary pathId
    scheduleGatewayRenewal
    return true

def finishStopPath (pathId : ℕ) : Action State Bool := do
  let s ← get
  match s.path pathId with
  | none => return false
  | some path =>
    if !path.isOpen || path.publicLease.isSome then return false
    else do
      let revoked ← revokePath pathId path.endpoint.generation
      if !revoked then return false
      else do
        modify fun s => { s with statusText := "Disconnected." }
        request (.closePath pathId path.endpoint.generation)
        return true

/-- Whether the pending request is a resolution. -/
def State.resolving (s : State) : Bool :=
  match s.pendingRequest with
  | some { request := .resolve .., .. } => true
  | some { request := .resolveNative .., .. } => true
  | _ => false

def stopSinglePath (pathId : ℕ) : Action State Unit := do
  let s ← get
  if s.controlBusy && (!s.resolving || !s.requestQueue.isEmpty) then return ()
  else if pathId = 1 then forget (setPolicy "tunnels" "")
  else
    match s.path pathId with
    | none => reportError "The selected path is not active."
    | some path =>
      if !path.isOpen then reportError "The selected path is not active."
      else if path.publicLease.isSome then do
        modify fun s => { s with pendingStopPath := some pathId }
        queueGatewayClose path
        modify fun s => { s with statusText := "Closing incoming connections…" }
        when s.resolving (stopResolution pathId)
        sendQueuedRequest
      else forget (finishStopPath pathId)

/-- The routes without the direct endpoints, in `stopPath` for all paths. -/
def dropNativeEndpoints : Action State Unit := do
  let s ← get
  modify fun s => { s with nativeEndpoints := [] }
  when (!s.nativeEndpoints.isEmpty) (forget (applyRoutes false))
  invalidateNetworkRoutes s.nativeEndpoints

def stopAllPaths : Action State Unit := do
  dropNativeEndpoints
  blockRuntimeProxy
  let stopped ← shutdown
  if !stopped then reportError "The qbutt-net process has not stopped yet."
  else
    modify fun s =>
      { s with statusText :=
          if s.hasRuntimeProxy then "Connection stopped. Connect a node to resume." else "" }

/-! ### Opening a path -/

def openPath (configPath proxyName interfaceName : String) (reserveNames : List String) :
    Action State Unit := do
  let s ← get
  if s.controlBusy then reportError "A path operation is already running."
  else if !s.surroundings.restored then
    reportError "The torrent session is not ready for a network policy transition."
  else if proxyName = "" || interfaceName = "" then reportError "Choose a node and network adapter."
  else if reserveNames.contains proxyName || reserveNames.contains "" || !decide reserveNames.Nodup then
    reportError "Choose distinct protocols from the selected server."
  else if !s.surroundings.fitsControlFrame
      (.list configPath (some ⟨proxyName, interfaceName, reserveNames⟩)) then
    reportError "Too many selected protocols for one control request."
  else do
    modify fun s => { s with statusText := "Checking the selected node…" }
    request (.list configPath (some ⟨proxyName, interfaceName, reserveNames⟩))

/-- Whether the saved DNS settings are usable. -/
def State.validDns (s : State) : Bool :=
  s.surroundings.canonicalDnsServer s.dnsPolicy.server ≠ "" &&
    s.surroundings.canonicalDnsServer s.dnsPolicy.bootstrapServer ≠ "" &&
    (s.dnsPolicy.family = "ipv4" || s.dnsPolicy.family = "ipv6" || s.dnsPolicy.family = "dual")

/-- The blocked route before the first path, and what undoes it. -/
def enableManagedRoutes : Action State Bool := do
  let s ← get
  if s.hasRuntimeProxy then return true
  else do
    let saved ← setRuntimeProxy blockedRuntimeProxy
    if !saved then do
      reportError "Unable to save the pinned startup policy. The path was not started."
      return false
    else do
      let applied ← applyRoutes false
      if !applied then do
        let routesReset ← resetNetworkRoutes
        let proxyCleared ← clearRuntimeProxy
        reportError (if routesReset && proxyCleared then
            "Unable to install the blocked startup route before connecting the path."
          else "Unable to restore Native after the blocked startup route failed.")
        return false
      else return true

def State.reusedPathId (s : State) (edgeId : String) : Option ℕ :=
  (s.paths.find? fun path => path.edgeId = edgeId).map fun path => path.endpoint.pathId

def openIdentifiedPath (configPath proxyName interfaceName configuredServerId : String)
    (reserveNames : List String) (reserveServerIds : List (String × String)) : Action State Unit := do
  let s ← get
  let reused := s.reusedPathId configuredServerId
  let openRequest : OpenRequest :=
    { configPath := configPath
      proxyName := proxyName
      pathId := reused.getD (s.nextPathId + 1)
      generation := s.generation + 1
      interfaceName := interfaceName
      configuredServerId := configuredServerId
      dns := s.dnsPolicy
      reserveNames := reserveNames
      reserveServerIds := reserveServerIds }
  if !s.validDns then reportError "Correct the saved DNS settings before connecting a node."
  else if s.paths.any fun path => path.edgeId = configuredServerId && path.isOpen then
    reportError "This server is already connected."
  else if reused.isNone && 8 ≤ s.paths.length then reportError "Eight servers are already selected."
  else if maxControlId ≤ s.generation || (reused.isNone && maxControlId ≤ s.nextPathId) then
    reportError "The path generation limit was reached. Restart qbutt."
  else if !s.surroundings.fitsControlFrame (.openPath openRequest) then
    reportError "Too many selected protocols for one control request."
  else do
    let enabled ← enableManagedRoutes
    when enabled (do
      modify fun s =>
        { s with
          generation := s.generation + 1
          nextPathId := if reused.isNone then s.nextPathId + 1 else s.nextPathId
          statusText := "Connecting…" }
      request (.openPath openRequest))

/-- The request that `switchTransport` makes. -/
def ActivePath.replacement (path : ActivePath) (proxyName : String) (nextGeneration : ℕ) :
    OpenRequest where
  configPath := path.configurationPath
  proxyName := proxyName
  pathId := path.endpoint.pathId
  generation := nextGeneration
  interfaceName := path.interfaceName
  configuredServerId := (path.reserveServerIds.lookup proxyName).getD ""
  dns := path.dnsPolicy
  reserveNames := path.proxyName :: path.reserveNames.filter (· ≠ proxyName)
  reserveServerIds := (path.proxyName, path.configuredServerId) ::
    path.reserveServerIds.filter fun entry => entry.1 ≠ proxyName && entry.1 ≠ path.proxyName

def switchTransport (pathId : ℕ) (proxyName : String) : Action State Unit := do
  let s ← get
  if s.controlBusy then return ()
  else
    match s.path pathId with
    | none => reportError "Choose a configured reserve transport of the selected active path."
    | some path =>
      if !path.isOpen || !path.reserveNames.contains proxyName || s.failedNodes.contains proxyName ||
          maxControlId ≤ s.generation then
        reportError "Choose a configured reserve transport of the selected active path."
      else do
        modify fun s =>
          { s with
            generation := s.generation + 1
            statusText := "Switching to the backup connection…" }
        request (.transportReplace (path.replacement proxyName (s.generation + 1))
          path.endpoint.generation)

def reopenSelectedEdge (edgeId : String) : Action State Bool := do
  let s ← get
  if s.nativePending || s.controlBusy || s.pendingEdgeReopen.isSome then return false
  else
    match s.paths.find? fun path => path.edgeId = edgeId && path.isOpen with
    | none => return false
    | some path => do
      modify fun s => { s with pendingEdgeReopen := some path.rollover }
      stopSinglePath path.endpoint.pathId
      let s ← get
      if s.pendingStopPath = some path.endpoint.pathId || s.paths.any fun entry =>
          entry.endpoint.pathId = path.endpoint.pathId && !entry.isOpen then return true
      else do
        modify fun s => { s with pendingEdgeReopen := none }
        return false

def handleGatewayFailure (request : Request) (pathId generation : ℕ) : Action State Unit := do
  let s ← get
  match s.path pathId with
  | none => fail "qbutt-net failed a gateway request for an unknown path generation."
  | some path =>
    if path.endpoint.generation ≠ generation then
      fail "qbutt-net failed a gateway request for an unknown path generation."
    else
      match request with
      | .gatewayRenew .. =>
        if path.publicLease.isNone then
          fail "The ended public gateway generation could not be retired safely."
        else
          rollOverOrFail "The public gateway lease ended. Reconnecting paths with new generations."
            "The ended public gateway generation could not be retired safely."
      | .gatewayClose .. =>
        if path.publicLease.isNone || s.pendingStopPath ≠ some pathId then
          fail "qbutt-net failed an unexpected public gateway transition."
        else do
          updatePath pathId ActivePath.clearGatewayLease
          modify fun s => { s with pendingStopPath := none }
          forget (finishStopPath pathId)
      | .gatewayOpen .. =>
        if path.publicLease.isSome then
          fail "A failed public gateway transition could not be removed safely."
        else do
          let applied ← applyRoutes false
          if !applied then fail "A failed public gateway transition could not be removed safely."
          else do
            modify fun s =>
              { s with statusText := "The public gateway could not be opened. " ++
                  "The path is active for outgoing traffic only." }
            let s ← get
            if s.rolloverOpening then do
              modify fun s => { s with rolloverFailed := true, rolloverOpening := false }
              startNextPathRollover
            else sendQueuedRequest
      | _ => fail "A failed public gateway transition could not be removed safely."

end Qbutt.Paths
