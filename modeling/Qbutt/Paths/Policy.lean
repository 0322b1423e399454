import Qbutt.Paths.Manager

/-!
# Policies and the direct connection

The operations that choose between managed and direct routes.
-/

namespace Qbutt.Paths

open Action

/-! ### Direct endpoints -/

def sameNativeEndpoint (left right : PeerRouteEndpoint) : Bool :=
  left.pathId = right.pathId && left.localAddress = right.localAddress &&
    left.interfaceIndex = right.interfaceIndex

/-- `std::ranges::equal` with `sameNativeEndpoint`. -/
def sameNativeEndpoints : List PeerRouteEndpoint → List PeerRouteEndpoint → Bool
  | [], [] => true
  | left :: lefts, right :: rights =>
    sameNativeEndpoint left right && sameNativeEndpoints lefts rights
  | _, _ => false

/-- `retainedAddress` in `assignNativeGeneration`. -/
def retainedAddress (current endpoints : List PeerRouteEndpoint) : Bool :=
  endpoints.any fun endpoint => current.any fun other =>
    other.interfaceIndex = endpoint.interfaceIndex && other.localAddress = endpoint.localAddress

/-- `changedFamily` in `assignNativeGeneration`. -/
def changedFamily (current endpoints : List PeerRouteEndpoint) : Bool :=
  endpoints.any fun endpoint => current.any fun other =>
    other.supportsIPv4 = endpoint.supportsIPv4 &&
      (other.interfaceIndex ≠ endpoint.interfaceIndex || other.localAddress ≠ endpoint.localAddress)

/-- `assignNativeGeneration`, and the assignment to `m_nativeEndpoints` that follows it. -/
def assignNativeEndpoints (endpoints : List PeerRouteEndpoint) : Action State Unit :=
  modify fun s =>
    if endpoints.isEmpty then { s with nativeEndpoints := [] }
    else if retainedAddress s.nativeEndpoints endpoints && !changedFamily s.nativeEndpoints endpoints then
      { s with nativeEndpoints := endpoints.map fun endpoint =>
          { endpoint with generation := (s.nativeEndpoints.head?.map
              PeerRouteEndpoint.generation).getD 0 } }
    else
      { s with
        nativeGeneration := s.nativeGeneration + 1
        nativeEndpoints := endpoints.map fun endpoint =>
          { endpoint with generation := s.nativeGeneration + 1 } }

def applyNativeRoute : Action State Bool := do
  let s ← get
  if !s.hasNativeBindingIntent then resetNetworkRoutes else applyRoutes false

/-- The endpoints of the direct connection that are no longer in force. -/
def retiredNative (previous current : List PeerRouteEndpoint) : List PeerRouteEndpoint :=
  previous.filter fun endpoint => !current.any fun other =>
    other.pathId = endpoint.pathId && other.generation = endpoint.generation

def refreshNativeRoute (force : Bool) : Action State Bool := do
  let s ← get
  let endpoints := s.surroundings.nativeEndpointsForSessionBinding s.settings s.nativeEndpoints
  if s.settings.managedEnabled || s.nativePending || s.hasRuntimeProxy then return true
  else if !force && sameNativeEndpoints s.nativeEndpoints endpoints then return true
  else do
    let previous := s.nativeEndpoints
    assignNativeEndpoints endpoints
    let applied ← applyNativeRoute
    if !applied then do
      modify fun s => { s with nativeEndpoints := [] }
      forget (setNetworkRoutes [] .pinned)
      reportError "Unable to apply the physical Native route."
      return false
    else do
      let s ← get
      when (!previous.isEmpty && (s.nativeEndpoints.isEmpty ||
          previous.head?.map PeerRouteEndpoint.generation ≠
            s.nativeEndpoints.head?.map PeerRouteEndpoint.generation))
        (invalidateNetworkRoutes (previous.take 1))
      return true

/-! ### Policies -/

/-- `m_storePolicy = mode; m_storeNativeInterface = nativeInterface;`. -/
def storePolicy (mode nativeInterface : String) : Action State Unit :=
  store fun settings =>
    { settings with policy := some mode, nativeInterface := nativeInterface }

/-- The runtime proxy before the policy, unless the mixed policy is entered. -/
def startManaged (enteringMixed : Bool) : Action State Bool := do
  let s ← get
  if !enteringMixed && !s.hasRuntimeProxy then do
    let saved ← setRuntimeProxy blockedRuntimeProxy
    when (!saved) (reportError "Unable to save the managed startup policy.")
    return saved
  else return true

/-- `SettingsStorage::save` for a policy that changes, unless the mixed policy is entered. -/
def savePolicy (changed enteringMixed : Bool) : Action State Bool :=
  if changed && !enteringMixed then save else return true

def undoPolicy (enteringMixed : Bool) (previous previousInterface : String)
    (oldNativeEndpoints : List PeerRouteEndpoint) : Action State Unit :=
  if enteringMixed then do
    modify fun s => { s with nativeEndpoints := oldNativeEndpoints }
    storePolicy previous previousInterface
    let routesRestored ← applyRoutes false
    reportError (if routesRestored then "Unable to apply the network policy."
      else "Unable to restore Native after the network policy failed.")
  else do
    -- A removed local address must not be restored after an apply failure.
    modify fun s => { s with nativeEndpoints := [] }
    invalidateNetworkRoutes oldNativeEndpoints
    storePolicy previous previousInterface
    forget save
    let applied ← applyRoutes false
    if applied then reportError "Unable to apply the network policy."
    else fail "Unable to retire unavailable Native routes safely."

/-- The runtime proxy after the routes, if the mixed policy is entered. -/
def finishMixed (enteringMixed : Bool) : Action State Bool :=
  if enteringMixed then setRuntimeProxy blockedRuntimeProxy else return true

/-- What `applyPolicy` undoes if the runtime proxy of the mixed policy is not saved. -/
def undoMixed (previous previousInterface : String) (oldNativeEndpoints : List PeerRouteEndpoint) :
    Action State Unit := do
  modify fun s => { s with nativeEndpoints := oldNativeEndpoints }
  storePolicy previous previousInterface
  let routesRestored ← applyRoutes false
  reportError (if routesRestored then "Unable to save the managed startup policy."
    else "Unable to restore Native after the managed startup policy failed.")

/-- The end of `applyPolicy`. -/
def finishPolicy (mode : String) (oldNativeEndpoints : List PeerRouteEndpoint) : Action State Unit := do
  let s ← get
  invalidateNetworkRoutes (retiredNative oldNativeEndpoints s.nativeEndpoints)
  modify fun s =>
    { s with
      statusRefresh := s.statusRefresh || mode = "mixed"
      statusText :=
        if mode = "mixed" then
          if s.nativeEndpoints.isEmpty then
            "Direct connection unavailable. Connected nodes remain active."
          else "Using connected nodes and the direct connection."
        else if mode = "tunnels" then "Using connected nodes only."
        else "Using the first node in the connection list." }

/-- `applyPolicy`, from where the policy is saved. -/
def installPolicy (mode : String) (enteringMixed : Bool) (previous previousInterface : String)
    (nativeEndpoints : List PeerRouteEndpoint) : Action State Bool := do
  let s ← get
  assignNativeEndpoints nativeEndpoints
  let applied ← applyRoutes enteringMixed
  if !applied then do
    undoPolicy enteringMixed previous previousInterface s.nativeEndpoints
    return false
  else do
    let entered ← finishMixed enteringMixed
    if !entered then do
      undoMixed previous previousInterface s.nativeEndpoints
      return false
    else do
      finishPolicy mode s.nativeEndpoints
      return true

def changePolicy (mode nativeInterface previous previousInterface : String) (enteringMixed : Bool)
    (nativeEndpoints : List PeerRouteEndpoint) : Action State Bool := do
  let ready ← startManaged enteringMixed
  if !ready then return false
  else do
    storePolicy mode nativeInterface
    let saved ← savePolicy (previous ≠ mode || previousInterface ≠ nativeInterface) enteringMixed
    if !saved then do
      storePolicy previous previousInterface
      reportError "Unable to save the network policy."
      return false
    else installPolicy mode enteringMixed previous previousInterface nativeEndpoints

def applyPolicy (mode nativeInterface : String) (nativeEndpoints : List PeerRouteEndpoint) :
    Action State Bool := do
  let s ← get
  if s.currentPolicy = mode && s.settings.nativeInterface = nativeInterface && s.hasRuntimeProxy &&
      sameNativeEndpoints s.nativeEndpoints nativeEndpoints then do
    when (mode = "mixed") (modify fun s => { s with statusRefresh := true })
    return true
  else
    changePolicy mode nativeInterface s.currentPolicy s.settings.nativeInterface
      (mode = "mixed" && !s.hasRuntimeProxy) nativeEndpoints

def State.nativeEndpointsForInterface (s : State) (interfaceName : String) : List PeerRouteEndpoint :=
  s.surroundings.nativeEndpointsForInterface interfaceName s.nativeEndpoints

def setPolicy (mode nativeInterface : String) : Action State Bool := do
  let s ← get
  let mixed := decide (mode = "mixed")
  let nativeEndpoints := if mixed then s.nativeEndpointsForInterface nativeInterface else []
  if s.controlBusy then return false
  else if mode ≠ "mixed" && mode ≠ "pinned" && mode ≠ "tunnels" then do
    reportError "Choose a connection mode."
    return false
  else if mixed && nativeInterface = "" then do
    reportError "Choose a network adapter for the direct connection."
    return false
  else if mixed && nativeEndpoints.isEmpty &&
      (s.policy ≠ mode || s.settings.nativeInterface ≠ nativeInterface) then do
    reportError "The selected network adapter has no usable address."
    return false
  else applyPolicy mode (if mixed then nativeInterface else "") nativeEndpoints

/-! ### The direct connection -/

/-- `restoreSelection` in `finishUseNative`. -/
def restoreSelection (previouslyEnabled : Bool) : Action State Bool := do
  store fun settings => { settings with managedEnabled := previouslyEnabled }
  if previouslyEnabled then save else return true

/-- `resetNetworkRoutes` in `finishUseNative`, if nothing binds the session to an adapter. -/
def resetLegacy (legacyProxy : Bool) : Action State Bool :=
  if legacyProxy then resetNetworkRoutes else return true

/-- The direct endpoints at the end of `finishUseNative`. -/
def refreshAfterNative (legacyProxy : Bool) : Action State Bool :=
  if legacyProxy then do
    modify fun s => { s with nativeEndpoints := [] }
    return true
  else refreshNativeRoute true

/-- `finishUseNative`, from where the routes are reset. -/
def leaveManaged (legacyProxy previouslyEnabled : Bool) : Action State Bool := do
  let cleared ← clearRuntimeProxy
  if !cleared then do
    let selectionRestored ← restoreSelection previouslyEnabled
    forget (applyRoutes false)
    fail "Unable to save the Native startup policy. The pinned path remains blocked."
    when (!selectionRestored)
      (reportError "Unable to restore the saved Mihomo selection after Direct failed.")
    return false
  else do
    modify fun s => { s with paths := [] }
    let refreshed ← refreshAfterNative legacyProxy
    when refreshed (modify fun s => { s with statusRefresh := true, statusText := "" })
    return refreshed

def finishUseNative : Action State Bool := do
  let s ← get
  let previouslyEnabled := s.nativeWasEnabled
  modify fun s => { s with nativePending := false }
  let stopped ← shutdown
  if !stopped then do
    let selectionRestored ← restoreSelection previouslyEnabled
    reportError (if selectionRestored then
        "The previous qbutt-net process has not stopped. Native was not enabled."
      else "Unable to restore the saved Mihomo selection after Direct failed.")
    return false
  else do
    let s ← get
    let legacyProxy := !s.hasNativeBindingIntent
    let reset ← resetLegacy legacyProxy
    if !reset then do
      let selectionRestored ← restoreSelection previouslyEnabled
      reportError (if selectionRestored then "Unable to restore the default torrent network routes."
        else "Unable to restore the saved Mihomo selection after Direct failed.")
      return false
    else leaveManaged legacyProxy previouslyEnabled

/-- The direct routes before the helper process ends, so that its peers are retired first. -/
def prepareNative (managedChildRunning : Bool) : Action State Bool := do
  let s ← get
  if managedChildRunning then
    setNetworkRoutes s.nativeEndpoints (if s.nativeEndpoints.isEmpty then .pinned else .mixed)
  else return true

/-- The managed routes again, if they were replaced; otherwise the error is `message`. -/
def restoreManaged (managedChildRunning : Bool) (message : String) : Action State Unit :=
  if managedChildRunning then do
    let restored ← applyRoutes false
    if restored then reportError message
    else fail "Unable to restore the previous network routes."
  else reportError message

/-- `m_storeManagedEnabled = false`, saved if it was true. -/
def disableManaged (previouslyEnabled : Bool) : Action State Bool := do
  store fun settings => { settings with managedEnabled := false }
  if previouslyEnabled then save else return true

def useNative : Action State Bool := do
  let s ← get
  let managedChildRunning := s.process ≠ .notRunning && s.hasRuntimeProxy
  if s.nativePending then return true
  else do
    let prepared ← prepareNative managedChildRunning
    if !prepared then do
      restoreManaged true "Unable to prepare Native."
      return false
    else do
      let previouslyEnabled := s.settings.managedEnabled
      let saved ← disableManaged previouslyEnabled
      if !saved then do
        store fun settings => { settings with managedEnabled := true }
        restoreManaged managedChildRunning "Unable to save the network selection."
        return false
      else do
        modify fun s =>
          { s with
            nativeWasEnabled := previouslyEnabled
            nativePending := true
            pendingNodes := []
            failedNodes := []
            openingNode := none
            pendingPreferredEdges := []
            pendingEdgeReopen := none
            timeout := false
            gatewayRenewal := false
            statusRefresh := false
            subscriptionReply := none }
        let s ← get
        if s.process ≠ .notRunning then do
          modify fun s =>
            { s with
              statusText := "Returning to Native…"
              ignoreProcessExit := true
              timeout := true }
          return true
        else finishUseNative

end Qbutt.Paths
